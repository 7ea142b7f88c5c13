import PTop.Metatheory.AvlSize
import PTop.Metatheory.Runs

/-!
# The process tree only grows

`main_loop` never frees a node: a process that exits keeps its node, and a pid
that comes back is sampled into it. So the tree of a run has one node for each
pid ever listed, every pointer `find` returned stays good, and the recursions
over the tree nest as deep as the logarithm of that number.
-/

namespace PTop

open Framework Framework.HTree AvlTree

namespace AvlTree

/-- A change of the samples alone moves no node. -/
theorem find_map {f : AvlNode → AvlNode} (hkey : ∀ n, (f n).element = n.element)
    (haddr : ∀ n, (f n).addr = n.addr) (X : ElementType) : ∀ T : AvlTree,
      find X (T.map f) = find X T
  | .nil => rfl
  | .node l n _ r => by
      rw [HTree.map, find, find, hkey, haddr, find_map hkey haddr X l, find_map hkey haddr X r]

theorem find_store (p : Position) (e : PidEntry) (X : ElementType) (T : AvlTree) :
    find X (store p e T) = find X T := by
  refine find_map (fun n => ?_) (fun n => ?_) X T
  · split <;> rfl
  · split <;> rfl

theorem length_store (p : Position) (e : PidEntry) (T : AvlTree) :
    (store p e T).toList.length = T.toList.length := by
  rw [store, toList_map, List.length_map]

/-- One more key is one more node. -/
theorem length_of_insert {T T' : AvlTree} (h : Sorted T) (h' : Sorted T') {a : AvlNode}
    (ha : a.element ∉ keys T) (hmem : ∀ n, n ∈ T'.toList ↔ n = a ∨ n ∈ T.toList) :
    T'.toList.length = T.toList.length + 1 := by
  have hset : (keys T').toFinset = Insert.insert a.element (keys T).toFinset := by
    ext X
    rw [Finset.mem_insert, List.mem_toFinset, List.mem_toFinset, mem_keys_insert hmem]
  rw [length_toList_eq h', length_toList_eq h, hset, Finset.card_insert_of_notMem]
  rwa [List.mem_toFinset]

end AvlTree

/-! ## One step of the listing loop -/

/-- Every node is where it was, and each new address holds a new node. -/
structure Extends (st st' : TreeState) : Prop where
  found : ∀ X p, find X st.tree = some p → find X st'.tree = some p
  grown : st'.tree.toList.length + st.brk = st.tree.toList.length + st'.brk

theorem Extends.refl (st : TreeState) : Extends st st := ⟨fun _ _ h => h, rfl⟩

theorem Extends.trans {st₁ st₂ st₃ : TreeState} (h : Extends st₁ st₂) (h' : Extends st₂ st₃) :
    Extends st₁ st₃ := by
  refine ⟨fun X p hp => h'.found X p (h.found X p hp), ?_⟩
  have h₁ := h.grown
  have h₂ := h'.grown
  omega

theorem locate_extends {pid : Pid} {st st' : TreeState} {position : Option Position}
    (h : TreeOk st.tree st.brk) (hloc : locate pid st = .ok (st', position)) :
    Extends st st' ∧ TreeOk st'.tree st'.brk := by
  unfold locate at hloc
  cases hfind : find pid.toElement st.tree with
  | some p =>
      rw [hfind] at hloc
      cases hloc
      exact ⟨.refl st, h⟩
  | none =>
      have hX : pid.toElement ∉ keys st.tree := (find_eq_none_iff h.sorted).mp hfind
      obtain ⟨T', np', hins, hok, -, habs⟩ := insert_step h pid.toElement (-1) none
      obtain ⟨rfl, hmem⟩ := habs hX
      rw [hfind] at hloc
      simp only [hins] at hloc
      cases hloc
      refine ⟨⟨?_, ?_⟩, hok⟩
      · intro X p hp
        obtain ⟨n, hn, hk, ha⟩ := (find_eq_some_iff h.sorted).mp hp
        exact (find_eq_some_iff hok.sorted).mpr ⟨n, (hmem n).mpr (Or.inr hn), hk, ha⟩
      · have hlen := length_of_insert h.sorted hok.sorted hX hmem
        simp only [hlen]
        omega

section Listing

variable {conf : Conf} {files : Pid → ProcFiles} {curr : Bool}

theorem readProcess_extends {pid : Pid} {st st' : TreeState} (h : TreeOk st.tree st.brk)
    (hread : readProcess conf files curr pid st = .ok st') : Extends st st' := by
  unfold readProcess at hread
  obtain ⟨⟨st₁, position⟩, hloc, hread⟩ := except_bind_eq_ok.mp hread
  obtain ⟨hext, hok⟩ := locate_extends h hloc
  cases position with
  | none => cases hread
  | some p =>
      cases hload : load p st₁.tree with
      | none => simp only [hload] at hread; cases hread
      | some n =>
          simp only [hload] at hread
          obtain ⟨⟨e, ev⟩, -, hst'⟩ := except_bind_eq_ok.mp hread
          cases hst'
          -- the sample is stored into a node that is already there
          refine hext.trans ⟨?_, ?_⟩
          · intro X q hq
            rw [find_store]
            exact hq
          · rw [length_store]

theorem readListing_extends : ∀ {pids : List Pid} {st st' : TreeState}, TreeOk st.tree st.brk →
    readListing conf files curr pids st = .ok st' → Extends st st'
  | [], st, st', _, hread => by
      cases hread
      exact .refl st
  | pid :: pids, st, st', h, hread => by
      rw [readListing] at hread
      obtain ⟨st₁, hproc, hrest⟩ := except_bind_eq_ok.mp hread
      have hok := (readProcess_inv h hproc).1
      exact (readProcess_extends h hproc).trans (readListing_extends hok hrest)

end Listing

/-! ## Over a run -/

/-- The keys of the pids listed in a part of a run. -/
def listedKeys (cs : List PtopCycle) : List ElementType :=
  cs.flatMap fun c => c.input.listing.map Pid.toElement

section Runs

variable {conf : Conf} {cpuFd : List PCFile} {cs : List PtopCycle} {s : PtopState}

theorem cycle_extends {inp : CycleInput} {s' : PtopState} {out : CycleOutput} (hs : StateOk s)
    (h : Steps (mainLoop conf) inp s s' out) : Extends s.toTreeState s'.toTreeState := by
  obtain ⟨sys, pids, st, w, shown, hc, rfl, rfl⟩ := mainLoop_ok_iff.mp h
  refine (readListing_extends hs.tree hc.read).trans ⟨?_, ?_⟩
  · intro X p hp
    have hmap := find_map (f := writtenNode (sys.writeArgs inp.ctime)) (fun _ => rfl) (fun _ => rfl)
      X st.tree
    exact hmap.trans hp
  · have hmap := toList_map (writtenNode (sys.writeArgs inp.ctime)) st.tree
    show (st.tree.map (writtenNode (sys.writeArgs inp.ctime))).toList.length + st.brk =
      st.tree.toList.length + st.brk
    rw [hmap, List.length_map]

/-- A cycle adds the keys of its listing. -/
theorem cycle_keys {inp : CycleInput} {s' : PtopState} {out : CycleOutput} (hs : StateOk s)
    (h : Steps (mainLoop conf) inp s s' out) (X : ElementType) :
    X ∈ keys s'.tree ↔ X ∈ inp.listing.map Pid.toElement ∨ X ∈ keys s.tree := by
  obtain ⟨hs', hf⟩ := stateOk_step hs h
  obtain ⟨pids, hproc, -, he⟩ := hf.listing
  rw [← entries_isSome hs'.tree.sorted, ← entries_isSome hs.tree.sorted, hf.entries_after,
    Option.isSome_map, he, CycleInput.listing, hproc, Option.getD_some, List.mem_map]
  by_cases hX : ∃ p ∈ pids, p.toElement = X
  · obtain ⟨p, hp, rfl⟩ := hX
    rw [sampledMap_listed _ hp]
    exact ⟨fun _ => Or.inl ⟨p, hp, rfl⟩, fun _ => rfl⟩
  · rw [sampledMap_unlisted _ fun p hp he => hX ⟨p, hp, he⟩]
    exact ⟨Or.inr, fun h => h.resolve_left hX⟩

theorem run_keys (h : PtopRun conf cpuFd cs s) (X : ElementType) :
    X ∈ keys s.tree ↔ X ∈ listedKeys cs := by
  induction h with
  | init => simp [systemInit, listedKeys, keys]
  | @step cs s inp s' out hrun hstep ih =>
      rw [cycle_keys (run_stateOk hrun) hstep, ih, listedKeys, listedKeys, List.flatMap_append,
        List.mem_append, List.flatMap_singleton]
      exact or_comm

/-- What a run did up to a state is kept in every later state. -/
theorem run_extends {before after : List PtopCycle} {t : PtopState}
    (h : PtopRun conf cpuFd (before ++ after) s) (ht : PtopRun conf cpuFd before t) :
    Extends t.toTreeState s.toTreeState := by
  induction after using List.reverseRecOn generalizing s with
  | nil =>
      rw [List.append_nil] at h
      obtain rfl := h.state_unique ht
      exact .refl _
  | append_singleton after c ih =>
      rw [← List.append_assoc] at h
      obtain ⟨hrun, hstep, rfl⟩ := h.snoc_inv
      exact (ih hrun).trans (cycle_extends (run_stateOk hrun) hstep)

/-- **The tree of a run.** Its keys are the pids ever listed, one node and one
allocation for each; the recursions over it nest logarithmically; and a pointer
that `find` returned earlier in the run is what it returns now. -/
theorem run_tree_grows {before after : List PtopCycle} {t : PtopState}
    (h : PtopRun conf cpuFd (before ++ after) s) (ht : PtopRun conf cpuFd before t) :
    (∀ X, X ∈ keys s.tree ↔ X ∈ listedKeys (before ++ after)) ∧
      s.tree.toList.length = (listedKeys (before ++ after)).toFinset.card ∧
      s.brk = (listedKeys (before ++ after)).toFinset.card ∧
      DepthWithin (2 * Nat.log 2 ((listedKeys (before ++ after)).toFinset.card + 1) + 1) s.tree ∧
      ∀ X p, find X t.tree = some p → find X s.tree = some p := by
  have hok := (run_stateOk h).tree
  have hset : (keys s.tree).toFinset = (listedKeys (before ++ after)).toFinset := by
    ext X
    rw [List.mem_toFinset, List.mem_toFinset, run_keys h]
  have hlen : s.tree.toList.length = (listedKeys (before ++ after)).toFinset.card := by
    rw [length_toList_eq hok.sorted, hset]
  -- from the start of the run, where no address is in use
  have hstart : PtopRun conf cpuFd [] (systemInit cpuFd) := .init
  have hgrown : s.tree.toList.length = 0 + s.brk :=
    (run_extends (List.nil_append (before ++ after) ▸ h) hstart).grown
  refine ⟨run_keys h, hlen, ?_, ?_, (run_extends h ht).found⟩
  · rw [← hlen, hgrown, Nat.zero_add]
  · rw [← hlen]
    exact depthWithin_log hok.avl

end Runs

/-- Three cycles; the visitor is there in the first and leaves its node behind, and those who
come later turn the tree around it. -/
def passingBy : List CycleInput :=
  let files := fun _ => plainFiles { utime := 30 } {}
  [plainCycle 100 [resident, visitor] files,
    plainCycle 200 [resident, ⟨9, by decide⟩, ⟨12, by decide⟩] files,
    plainCycle 300 [resident, ⟨4, by decide⟩, ⟨3, by decide⟩, ⟨2, by decide⟩] files]

/-- The key at the root. -/
def rootKey (t : AvlTree) : Option ElementType := t.preorder.head?.map AvlNode.element

theorem run_tree_grows_passingBy :
    ∃ before after s t, PtopRun {} [] (before ++ after) s ∧ PtopRun {} [] before t ∧
      (before ++ after).map Transition.input = passingBy ∧
      rootKey t.tree = some resident.toElement ∧ rootKey s.tree = some visitor.toElement ∧
      s.tree.toList.length = (listedKeys (before ++ after)).toFinset.card ∧
      find visitor.toElement t.tree = some 1 ∧ find visitor.toElement s.tree = some 1 := by
  obtain ⟨cs, s, hrun, hinput, ⟨c, hc, hfind, hroot⟩, d, hd, hturned⟩ := exists_run_of_trace
    (mainLoop {}) (systemInit []) passingBy
    (fun cs => (∃ c ∈ (cs.take 1).getLast?,
        find visitor.toElement c.post.tree = some 1 ∧
          rootKey c.post.tree = some resident.toElement) ∧
      ∃ d ∈ cs.getLast?, rootKey d.post.tree = some visitor.toElement) (by decide +kernel)
  obtain ⟨before, hbefore⟩ := List.getLast?_eq_some_iff.mp hc
  obtain ⟨_, hlast⟩ := List.getLast?_eq_some_iff.mp hd
  have hs : s = d.post := (hlast ▸ hrun).snoc_inv.2.2
  have hsplit : cs = (before ++ [c]) ++ cs.drop 1 := by rw [← hbefore, List.take_append_drop]
  rw [hsplit] at hrun hinput
  obtain ⟨t, ht⟩ := hrun.of_append
  have htc : t = c.post := ht.snoc_inv.2.2
  have hgrows := run_tree_grows hrun ht
  rw [← htc] at hfind hroot
  rw [← hs] at hturned
  exact ⟨before ++ [c], cs.drop 1, s, t, hrun, ht, hinput, hroot, hturned, hgrows.2.1, hfind,
    hgrows.2.2.2.2 _ _ hfind⟩

end PTop
