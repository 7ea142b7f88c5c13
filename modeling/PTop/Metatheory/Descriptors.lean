import PTop.Framework.Handles
import PTop.Metatheory.Listing

/-!
# The counters that are open

Descriptors of counters are kept in the per-CPU array and at the nodes of the
tree. One place changes at a time: the listing loop opens a counter for a node
that has none, `write_stat` closes that of an inactive node, and rotations move
nodes but no descriptor.
-/

namespace PTop

open Framework Framework.HTree AvlTree

/-- The log as events of the handles of the library. -/
def FdEvent.toHandle : FdEvent → HandleEvent PCFile
  | .opened fd => .opened fd
  | .closed fd => .closed fd

def handles (log : List FdEvent) : List (HandleEvent PCFile) := log.map FdEvent.toHandle

@[simp] theorem handles_append (log ev : List FdEvent) :
    handles (log ++ ev) = handles log ++ handles ev := List.map_append

/-- The positive descriptors among some. -/
def openFds (fds : List PCFile) : List PCFile := fds.filter fun fd => 0 < fd

/-- The positive descriptors in the per-CPU array and at the nodes. -/
def heldFds (cpuFd : List PCFile) (T : AvlTree) : List PCFile :=
  openFds (cpuFd ++ T.toList.map fun n => n.fd)

/-- What a descriptor variable holds. -/
def place (fd : PCFile) : Option PCFile := if 0 < fd then some fd else none

theorem place_of_nonpos {fd : PCFile} (h : fd ≤ 0) : place fd = none := if_neg (not_lt.mpr h)

theorem place_of_pos {fd : PCFile} (h : 0 < fd) : place fd = some fd := if_pos h

theorem openFds_cons (fd : PCFile) (fds : List PCFile) :
    openFds (fd :: fds) = (place fd).toList ++ openFds fds := by
  by_cases h : 0 < fd
  · rw [place_of_pos h]
    exact List.filter_cons_of_pos (decide_eq_true h)
  · rw [place_of_nonpos (not_lt.mp h)]
    exact List.filter_cons_of_neg (by simpa using h)

theorem openFds_append (fds fds' : List PCFile) :
    openFds (fds ++ fds') = openFds fds ++ openFds fds' := List.filter_append ..

theorem openFds_perm {fds fds' : List PCFile} (h : fds.Perm fds') :
    (openFds fds).Perm (openFds fds') := h.filter _

/-- What is assumed of `perf_event_open`: there are at most `MAX_NR_CPUS` CPUs, and
a descriptor it returns is positive and not open at that moment. -/
structure PerfOk (cpuFd : List PCFile) (log : List FdEvent) : Prop where
  cpus : cpuFd.length ≤ MAX_NR_CPUS
  positive : ∀ fd, FdEvent.opened fd ∈ log → 0 < fd
  fresh : OpensFresh (handles log)

theorem PerfOk.of_append {cpuFd : List PCFile} {log ev : List FdEvent}
    (h : PerfOk cpuFd (log ++ ev)) : PerfOk cpuFd log where
  cpus := h.cpus
  positive fd hfd := h.positive fd (List.mem_append_left ev hfd)
  fresh := by
    have hfresh := h.fresh
    rw [handles_append] at hfresh
    exact hfresh.of_append

/-! ## One place -/

/-- Reading a process changes its place. -/
theorem placeChange_read {f : ProcFiles} {fd : PCFile}
    (hpos : ∀ x, FdEvent.opened x ∈ openings f fd → 0 < x) :
    PlaceChange (place fd) (place (if Readable f then fdAfter f fd else fd))
      (handles (openings f fd)) := by
  unfold openings at hpos ⊢
  by_cases hread : Readable f
  · by_cases hfd : fd ≤ 0
    · rw [if_pos hread, fdAfter, if_pos hfd, place_of_nonpos hfd]
      by_cases hperf : 0 ≤ f.perfOpen
      · have hopen : Readable f ∧ fd ≤ 0 ∧ 0 ≤ f.perfOpen := ⟨hread, hfd, hperf⟩
        rw [if_pos hopen] at hpos ⊢
        rw [place_of_pos (hpos _ (List.mem_singleton_self _))]
        exact .opens f.perfOpen
      · rw [if_neg fun h => hperf h.2.2, place_of_nonpos (not_le.mp hperf).le]
        exact .keep none
    · rw [if_pos hread, fdAfter, if_neg hfd, if_neg fun h => hfd h.2.1]
      exact .keep _
  · rw [if_neg hread, if_neg fun h => hread h.1]
    exact .keep _

/-- What `write_stat` closes at a node. -/
def closings (a : WriteArgs) (p : PidEntry) : List FdEvent :=
  if Active a p then [] else (clearPosition p).2

theorem placeChange_write (a : WriteArgs) (p : PidEntry) :
    PlaceChange (place p.fd) (place (writtenEntry a p).fd) (handles (closings a p)) := by
  unfold closings writtenEntry
  by_cases hact : Active a p
  · rw [if_pos hact, if_pos hact]
    exact .keep _
  · have hcleared : place ({ p with fd := -1 } : PidEntry).fd = none :=
      place_of_nonpos (show (-1 : Int) ≤ 0 by decide)
    rw [if_neg hact, if_neg hact, clearPosition, hcleared]
    by_cases hfd : 0 < p.fd
    · rw [place_of_pos hfd, if_pos hfd]
      exact .closes p.fd
    · rw [place_of_nonpos (not_lt.mp hfd), if_neg hfd]
      exact .keep none

theorem writePosition_fdLog (conf : Conf) (a : WriteArgs) (p : PidEntry) (w : WriteAcc) :
    (writePosition conf a p w).2.fdLog = w.fdLog ++ closings a p := by
  unfold writePosition closings
  by_cases hact : Active a p
  · have hpos : ¬ isActive (p.pstList (!a.curr)) (p.pstList a.curr) ≤ 0 := not_le.mpr hact
    rw [if_pos hact, if_neg hpos, List.append_nil]
    dsimp only
    split
    · rfl
    · rfl
  · have hnonpos : isActive (p.pstList (!a.curr)) (p.pstList a.curr) ≤ 0 := not_lt.mp hact
    rw [if_neg hact, if_pos hnonpos]

theorem visit_fdLog (conf : Conf) (a : WriteArgs) : ∀ (ns : List AvlNode) (w : WriteAcc),
    (visit conf a w ns).fdLog = w.fdLog ++ ns.flatMap fun n => closings a n.toPidEntry
  | [], w => by simp [visit]
  | n :: ns, w => by
      have ih := visit_fdLog conf a ns (writePosition conf a n.toPidEntry w).2
      rw [writePosition_fdLog] at ih
      simp only [visit, List.foldl_cons] at ih ⊢
      rw [ih, List.flatMap_cons, List.append_assoc]

/-! ## The listing loop -/

/-- An update of the map of a tree changes one place among those of the tree. -/
theorem openFds_update {T T' : AvlTree} (h : Sorted T) (h' : Sorted T') {X : ElementType}
    {e : PidEntry} (hupd : entries T' = Function.update (entries T) X (some e)) :
    ∃ rest, (openFds (T.toList.map fun n => n.fd)).Perm
        ((place ((entries T X).getD freshEntry).fd).toList ++ rest) ∧
      (openFds (T'.toList.map fun n => n.fd)).Perm ((place e.fd).toList ++ rest) := by
  have hfds : ∀ {S : AvlTree}, Sorted S → S.toList.map (fun n => n.fd) =
      (keys S).map fun Y => ((entries S Y).getD freshEntry).fd := by
    intro S hS
    rw [keys, List.map_map]
    apply List.map_congr_left
    intro n hn
    rw [Function.comp, entries_of_mem hS hn, Option.getD_some]
  -- the keys other than `X` are those of both trees
  have hX : X ∉ (keys T).erase X := h.nodup_keys.not_mem_erase
  have hother : ((keys T).erase X).map (fun Y => ((entries T' Y).getD freshEntry).fd) =
      ((keys T).erase X).map fun Y => ((entries T Y).getD freshEntry).fd := by
    apply List.map_congr_left
    intro Y hY
    have hne : Y ≠ X := by
      rintro rfl
      exact hX hY
    rw [hupd, Function.update_of_ne hne]
  have hkeys' : (keys T').Perm (X :: (keys T).erase X) := by
    have hnodup : (keys T').Nodup := h'.nodup_keys
    have herase : ((keys T).erase X).Nodup := List.Nodup.erase X h.nodup_keys
    rw [List.perm_ext_iff_of_nodup hnodup (List.nodup_cons.mpr ⟨hX, herase⟩)]
    intro Y
    rw [← entries_isSome h', hupd, List.mem_cons]
    by_cases hY : Y = X
    · subst hY
      simp
    · rw [Function.update_of_ne hY, entries_isSome h, List.mem_erase_of_ne hY]
      simp [hY]
  refine ⟨openFds (((keys T).erase X).map fun Y => ((entries T Y).getD freshEntry).fd), ?_, ?_⟩
  · rw [hfds h, ← openFds_cons]
    by_cases hmem : X ∈ keys T
    · exact openFds_perm ((List.perm_cons_erase hmem).map _)
    · rw [openFds_cons, (entries_eq_none_iff h).mpr hmem, List.erase_of_not_mem hmem]
      exact .refl _
  · rw [hfds h', ← hother, ← openFds_cons]
    have hself : e.fd = ((entries T' X).getD freshEntry).fd := by
      rw [hupd, Function.update_self, Option.getD_some]
    rw [hself]
    exact openFds_perm (hkeys'.map _)

section Listing

variable {conf : Conf} {files : Pid → ProcFiles} {curr : Bool} {cpuFd fds : List PCFile}

/-- **One listed pid keeps the account.** -/
theorem accounts_readProcess {pid : Pid} {st st' : TreeState} (hok : TreeOk st.tree st.brk)
    (ha : Accounts (heldFds fds st.tree) (handles st.fdLog))
    (hread : readProcess conf files curr pid st = .ok st') (hperf : PerfOk cpuFd st'.fdLog) :
    Accounts (heldFds fds st'.tree) (handles st'.fdLog) := by
  obtain ⟨hok', hentries, hlog⟩ := readProcess_inv hok hread
  obtain ⟨rest, hbefore, hafter⟩ := openFds_update hok.sorted hok'.sorted hentries
  have hheld : ∀ {T : AvlTree} {x : List PCFile},
      (openFds (T.toList.map fun n => n.fd)).Perm (x ++ rest) →
        (heldFds fds T).Perm (x ++ (openFds fds ++ rest)) := by
    intro T x hT
    rw [heldFds, openFds_append]
    refine (hT.append_left _).trans ?_
    rw [← List.append_assoc, ← List.append_assoc]
    exact List.perm_append_comm.append_right rest
  have hpos : ∀ x, FdEvent.opened x ∈
      openings (files pid) ((entries st.tree pid.toElement).getD freshEntry).fd → 0 < x := by
    intro x hx
    refine hperf.positive x ?_
    rw [hlog]
    exact List.mem_append_right _ hx
  have hfresh := hperf.fresh
  rw [hlog, handles_append] at hfresh ⊢
  exact ((ha.of_perm (hheld hbefore).symm).change (placeChange_read hpos) hfresh).of_perm
    (hheld hafter)

/-- The listing loop only adds to the log. -/
theorem readListing_log : ∀ {pids : List Pid} {st st' : TreeState}, TreeOk st.tree st.brk →
    readListing conf files curr pids st = .ok st' → ∃ ev, st'.fdLog = st.fdLog ++ ev
  | [], st, st', _, h => by
      cases h
      exact ⟨[], (List.append_nil _).symm⟩
  | pid :: pids, st, st', hok, h => by
      rw [readListing, except_bind_eq_ok] at h
      obtain ⟨st₁, hread, h⟩ := h
      obtain ⟨hok₁, -, hlog⟩ := readProcess_inv hok hread
      obtain ⟨ev, hev⟩ := readListing_log hok₁ h
      exact ⟨_, by rw [hev, hlog, List.append_assoc]⟩

/-- **The listing loop keeps the account.** -/
theorem accounts_readListing : ∀ {pids : List Pid} {st st' : TreeState}, TreeOk st.tree st.brk →
    Accounts (heldFds fds st.tree) (handles st.fdLog) →
    readListing conf files curr pids st = .ok st' → PerfOk cpuFd st'.fdLog →
    Accounts (heldFds fds st'.tree) (handles st'.fdLog)
  | [], st, st', _, ha, h, _ => by
      cases h
      exact ha
  | pid :: pids, st, st', hok, ha, h, hperf => by
      rw [readListing, except_bind_eq_ok] at h
      obtain ⟨st₁, hread, h⟩ := h
      have hok₁ := (readProcess_inv hok hread).1
      obtain ⟨ev, hev⟩ := readListing_log hok₁ h
      have hperf₁ : PerfOk cpuFd st₁.fdLog := by
        rw [hev] at hperf
        exact hperf.of_append
      exact accounts_readListing hok₁ (accounts_readProcess hok ha hread hperf₁) h hperf

end Listing

/-! ## `write_stat` -/

/-- The tree while `write_stat` is under way: it has been at the nodes `done`. -/
def writtenAt (a : WriteArgs) (done : List AvlNode) (T : AvlTree) : AvlTree :=
  T.map fun n => if n.addr ∈ done.map AvlNode.addr then writtenNode a n else n

/-- **A part of the traversal keeps the account**; `others` are the places that it
does not visit. -/
theorem accounts_visit {a : WriteArgs} : ∀ {done : List AvlNode} {others : List PCFile}
    {log : List (HandleEvent PCFile)},
    Accounts (openFds (others ++ done.map fun n => n.fd)) log →
    OpensFresh (log ++ handles (done.flatMap fun n => closings a n.toPidEntry)) →
    Accounts (openFds (others ++ done.map fun n => (writtenEntry a n.toPidEntry).fd))
      (log ++ handles (done.flatMap fun n => closings a n.toPidEntry))
  | [], others, log, ha, _ => by simpa [handles] using ha
  | n :: done, others, log, ha, hfresh => by
      rw [List.flatMap_cons, handles_append, ← List.append_assoc] at hfresh ⊢
      rw [List.map_cons] at ha ⊢
      have hnode := ha.of_perm (openFds_perm List.perm_middle.symm)
      rw [openFds_cons] at hnode
      have hwritten := hnode.change (placeChange_write a n.toPidEntry) hfresh.of_append
      rw [← openFds_cons, ← List.cons_append] at hwritten
      exact (accounts_visit hwritten hfresh).of_perm (openFds_perm List.perm_middle)

/-- The places while `write_stat` is under way. -/
theorem heldFds_writtenAt (a : WriteArgs) {T : AvlTree} {brk : Position} (h : TreeOk T brk)
    {done rest : List AvlNode} (hpre : T.preorder = done ++ rest) (cpuFd : List PCFile) :
    (heldFds cpuFd (writtenAt a done T)).Perm (openFds ((cpuFd ++ rest.map fun n => n.fd) ++
      done.map fun n => (writtenEntry a n.toPidEntry).fd)) := by
  have hperm : (done ++ rest).Perm T.toList := hpre ▸ preorder_perm_toList T
  have hnodup := (hperm.map AvlNode.addr).nodup_iff.mpr h.addr_nodup
  rw [List.map_append, List.nodup_append] at hnodup
  have hmap : (writtenAt a done T).toList.map (fun n => n.fd) = T.toList.map fun n =>
      if n.addr ∈ done.map AvlNode.addr then (writtenEntry a n.toPidEntry).fd else n.fd := by
    rw [writtenAt, toList_map, List.map_map]
    apply List.map_congr_left
    intro n _
    simp only [Function.comp]
    split <;> rfl
  have hdone : done.map (fun n =>
      if n.addr ∈ done.map AvlNode.addr then (writtenEntry a n.toPidEntry).fd else n.fd) =
        done.map fun n => (writtenEntry a n.toPidEntry).fd := by
    apply List.map_congr_left
    intro n hn
    exact if_pos (List.mem_map_of_mem hn)
  -- no node is visited twice, so the rest is still as it was
  have hrest : rest.map (fun n =>
      if n.addr ∈ done.map AvlNode.addr then (writtenEntry a n.toPidEntry).fd else n.fd) =
        rest.map fun n => n.fd := by
    apply List.map_congr_left
    intro n hn
    exact if_neg fun hmem => hnodup.2.2 _ hmem _ (List.mem_map_of_mem hn) rfl
  refine openFds_perm ?_
  rw [hmap, List.append_assoc]
  refine List.Perm.append_left cpuFd ((hperm.symm.map _).trans ?_)
  rw [List.map_append, hdone, hrest]
  exact List.perm_append_comm

/-- **`write_stat` keeps the account** at every node. -/
theorem accounts_writing {conf : Conf} {a : WriteArgs} {w : WriteAcc} {cpuFd cpuFd' : List PCFile}
    {T : AvlTree} {brk : Position} (h : TreeOk T brk) {done rest : List AvlNode}
    (hpre : T.preorder = done ++ rest) (ha : Accounts (heldFds cpuFd T) (handles w.fdLog))
    (hperf : PerfOk cpuFd' (visit conf a w done).fdLog) :
    Accounts (heldFds cpuFd (writtenAt a done T)) (handles (visit conf a w done).fdLog) := by
  have hfresh := hperf.fresh
  rw [visit_fdLog, handles_append] at hfresh ⊢
  refine (accounts_visit (ha.of_perm ?_) hfresh).of_perm (heldFds_writtenAt a h hpre cpuFd)
  refine openFds_perm ?_
  rw [List.append_assoc]
  refine List.Perm.append_left cpuFd ?_
  have hperm : (rest ++ done).Perm T.toList :=
    List.perm_append_comm.trans (hpre ▸ preorder_perm_toList T)
  rw [← List.map_append]
  exact hperm.map _

theorem writtenAt_preorder (a : WriteArgs) (T : AvlTree) :
    writtenAt a T.preorder T = T.map (writtenNode a) := by
  apply HTree.map_congr
  intro n hn
  exact if_pos (List.mem_map_of_mem ((preorder_perm_toList T).mem_iff.mpr hn))

/-! ## Runs -/

theorem accounts_init {cpuFd : List PCFile} (hperf : PerfOk cpuFd (systemInit cpuFd).fdLog) :
    Accounts (heldFds cpuFd .nil) (handles (systemInit cpuFd).fdLog) := by
  -- a descriptor that is not negative was opened, and so is positive
  have hopen : cpuFd.filter (fun fd => 0 ≤ fd) = openFds cpuFd := by
    apply List.filter_congr
    intro fd hfd
    by_cases h : 0 ≤ fd
    · have hmem : FdEvent.opened fd ∈ (systemInit cpuFd).fdLog :=
        List.mem_map_of_mem (List.mem_filter.mpr ⟨hfd, decide_eq_true h⟩)
      rw [decide_eq_true h, decide_eq_true (hperf.positive fd hmem)]
    · rw [decide_eq_false h, decide_eq_false fun h' => h h'.le]
  have hlog : handles (systemInit cpuFd).fdLog = (openFds cpuFd).map HandleEvent.opened := by
    rw [systemInit, hopen, handles, List.map_map]
    rfl
  have hfresh := hperf.fresh
  rw [hlog] at hfresh ⊢
  have ha : Accounts (openFds cpuFd ++ []) ([] ++ (openFds cpuFd).map HandleEvent.opened) :=
    .openAll .nil hfresh
  rw [List.append_nil, List.nil_append] at ha
  rwa [heldFds, toList_nil, List.map_nil, List.append_nil]

/-- What a cycle does to the tree, the log and the per-CPU array. -/
theorem cycle_fdLog {conf : Conf} {inp : CycleInput} {s s' : PtopState} {out : CycleOutput}
    (h : Steps (mainLoop conf) inp s s' out) : ∃ sys pids st,
      sampleSystem conf inp s.toSysState = .ok sys ∧ inp.proc = some pids ∧
      readListing conf inp.files s.curr pids s.toTreeState = .ok st ∧
      s'.tree = writtenAt (sys.writeArgs inp.ctime) st.tree.preorder st.tree ∧
      s'.fdLog = (visit conf (sys.writeArgs inp.ctime)
        (.start (sys.sysStats s.curr) s.pstList st.fdLog) st.tree.preorder).fdLog ∧
      s'.cpuFd = s.cpuFd := by
  obtain ⟨sys, pids, st, w, shown, hc, rfl, rfl⟩ := mainLoop_ok_iff.mp h
  refine ⟨sys, pids, st, hc.cpu, hc.proc, hc.read, (writtenAt_preorder _ _).symm, ?_, ?_⟩
  · rw [← hc.written]
    rfl
  · have hshown : shown.cpuFd = sys.cpuFd := by
      rw [showStage_frame hc.shown]
      rfl
    show shown.cpuFd = s.cpuFd
    rw [hshown, (sampleSystem_frame hc.cpu).cpuFd]

section Run

variable {conf : Conf} {cpuFd : List PCFile}

theorem run_cpuFd {cs : List PtopCycle} {s : PtopState} (h : PtopRun conf cpuFd cs s) :
    s.cpuFd = cpuFd := by
  induction h with
  | init => rfl
  | step _ hstep ih =>
      obtain ⟨-, -, -, -, -, -, -, -, hcpu⟩ := cycle_fdLog hstep
      exact hcpu.trans ih

/-- The account in the middle of a traversal, from the account before the cycle. -/
theorem accounts_cycle {inp : CycleInput} {s : PtopState} {a : WriteArgs} {w : WriteAcc}
    {pids : List Pid} {st : TreeState} (hs : StateOk s)
    (ha : PerfOk cpuFd s.fdLog → Accounts (heldFds cpuFd s.tree) (handles s.fdLog))
    (hread : readListing conf inp.files s.curr pids s.toTreeState = .ok st)
    (hw : w.fdLog = st.fdLog) {done rest : List AvlNode} (hpre : st.tree.preorder = done ++ rest)
    (hperf : PerfOk cpuFd (visit conf a w done).fdLog) :
    Accounts (heldFds cpuFd (writtenAt a done st.tree)) (handles (visit conf a w done).fdLog) := by
  have hok : TreeOk st.tree st.brk := (readListing_inv hs.tree hread).2.1
  have hperf₁ : PerfOk cpuFd w.fdLog := by
    rw [visit_fdLog] at hperf
    exact hperf.of_append
  rw [hw] at hperf₁
  have hperf₀ : PerfOk cpuFd s.fdLog := by
    obtain ⟨ev, hev⟩ := readListing_log hs.tree hread
    rw [hev] at hperf₁
    exact hperf₁.of_append
  have hlisted := accounts_readListing hs.tree (ha hperf₀) hread hperf₁
  rw [← hw] at hlisted
  exact accounts_writing hok hpre hlisted hperf

/-- **The account at the end of every cycle of a run.** -/
theorem run_accounts {cs : List PtopCycle} {s : PtopState} (h : PtopRun conf cpuFd cs s) :
    PerfOk cpuFd s.fdLog → Accounts (heldFds cpuFd s.tree) (handles s.fdLog) := by
  induction h with
  | init => exact accounts_init
  | step hrun hstep ih =>
      obtain ⟨sys, pids, st, -, -, hread, htree, hlog, -⟩ := cycle_fdLog hstep
      intro hperf
      rw [hlog] at hperf
      rw [htree, hlog]
      exact accounts_cycle (run_stateOk hrun) ih hread rfl (List.append_nil _).symm hperf

/-- The moments of a run that are looked at: between two cycles, between two
iterations of the listing loop, and between two nodes of `write_stat`. -/
inductive Moment (conf : Conf) (cpuFd : List PCFile) :
    List PCFile → AvlTree → List FdEvent → Prop where
  | between {cs : List PtopCycle} {s : PtopState} (h : PtopRun conf cpuFd cs s) :
      Moment conf cpuFd s.cpuFd s.tree s.fdLog
  | reading {cs : List PtopCycle} {s : PtopState} {inp : CycleInput} {before rest : List Pid}
      {st : TreeState} (h : PtopRun conf cpuFd cs s)
      (hproc : inp.proc = some (before ++ rest))
      (hread : readListing conf inp.files s.curr before s.toTreeState = .ok st) :
      Moment conf cpuFd s.cpuFd st.tree st.fdLog
  | writing {cs : List PtopCycle} {s : PtopState} {inp : CycleInput} {sys : SysState}
      {pids : List Pid} {st : TreeState} {done rest : List AvlNode} (h : PtopRun conf cpuFd cs s)
      (hsys : sampleSystem conf inp s.toSysState = .ok sys) (hproc : inp.proc = some pids)
      (hread : readListing conf inp.files s.curr pids s.toTreeState = .ok st)
      (hpre : st.tree.preorder = done ++ rest) :
      Moment conf cpuFd sys.cpuFd (writtenAt (sys.writeArgs inp.ctime) done st.tree)
        (visit conf (sys.writeArgs inp.ctime) (.start (sys.sysStats s.curr) s.pstList st.fdLog)
          done).fdLog

theorem Moment.accounts {fds : List PCFile} {T : AvlTree} {log : List FdEvent}
    (h : Moment conf cpuFd fds T log) (hperf : PerfOk cpuFd log) :
    Accounts (heldFds fds T) (handles log) := by
  cases h with
  | between h =>
      rw [run_cpuFd h]
      exact run_accounts h hperf
  | reading h hproc hread =>
      have hs := run_stateOk h
      rw [run_cpuFd h]
      have hperf₀ := hperf
      obtain ⟨ev, hev⟩ := readListing_log hs.tree hread
      rw [hev] at hperf₀
      exact accounts_readListing hs.tree (run_accounts h hperf₀.of_append) hread hperf
  | writing h hsys hproc hread hpre =>
      rw [(sampleSystem_frame hsys).cpuFd, run_cpuFd h]
      exact accounts_cycle (run_stateOk h) (run_accounts h) hread rfl hpre hperf

end Run

/-! ## Closing down -/

/-- `empty` closes the descriptors of the nodes. -/
theorem empty_closes : ∀ T : AvlTree, ∃ hs : List PCFile,
    handles (AvlTree.empty T).2 = hs.map .closed ∧ hs.Perm (openFds (T.toList.map fun n => n.fd))
  | .nil => ⟨[], rfl, .refl _⟩
  | .node l n h r => by
      obtain ⟨hl, hlmap, hlperm⟩ := empty_closes l
      obtain ⟨hr, hrmap, hrperm⟩ := empty_closes r
      have hnode : handles (if n.fd > 0 then [.closed n.fd] else []) =
          (place n.fd).toList.map .closed := by
        by_cases hfd : n.fd > 0
        · rw [if_pos hfd, place_of_pos hfd]
          rfl
        · rw [if_neg hfd, place_of_nonpos (not_lt.mp hfd)]
          rfl
      refine ⟨hl ++ hr ++ (place n.fd).toList, ?_, ?_⟩
      · rw [AvlTree.empty, handles_append, handles_append, hlmap, hrmap, hnode, List.map_append,
          List.map_append]
      · have hsplit : openFds ((HTree.node l n h r).toList.map fun n => n.fd) =
            openFds (l.toList.map fun n => n.fd) ++
              ((place n.fd).toList ++ openFds (r.toList.map fun n => n.fd)) := by
          rw [toList_node, List.map_append, List.map_cons, openFds_append, openFds_cons]
        rw [hsplit, List.append_assoc]
        exact hlperm.append ((hrperm.append_right _).trans List.perm_append_comm)

/-- `close_all_counters` closes what is held. -/
theorem closeAllCounters_closes (fds : List PCFile) (T : AvlTree) :
    ∃ hs : List PCFile,
      handles (closeAllCounters fds T).2 = hs.map .closed ∧ hs.Perm (heldFds fds T) := by
  obtain ⟨hs, hmap, hperm⟩ := empty_closes T
  have hcpu : handles (fds.flatMap fun d => if d ≤ 0 then [] else [.closed d]) =
      (openFds fds).map .closed := by
    induction fds with
    | nil => rfl
    | cons d fds ih =>
        rw [List.flatMap_cons, handles_append, ih, openFds_cons, List.map_append]
        by_cases hd : d ≤ 0
        · rw [if_pos hd, place_of_nonpos hd]
          rfl
        · rw [if_neg hd, place_of_pos (not_le.mp hd)]
          rfl
  refine ⟨openFds fds ++ hs, ?_, ?_⟩
  · rw [closeAllCounters, handles_append, hcpu, hmap, List.map_append]
  · rw [heldFds, openFds_append]
    exact hperm.append_left _

/-- The descriptors at a moment: those kept are distinct, and are the counters opened
and not yet closed; whatever was closed was open; and `system_clean` closes them all. -/
structure DescriptorsOk (fds : List PCFile) (T : AvlTree) (log : List FdEvent) : Prop where
  distinct : (heldFds fds T).Nodup
  exact : (heldFds fds T).Perm (live (handles log))
  closes : ClosesLive (handles log)
  cleaned : live (handles (log ++ (closeAllCounters fds T).2)) = [] ∧
    ClosesLive (handles (log ++ (closeAllCounters fds T).2))

/-- **No descriptor is lost, and none is closed twice**, at any moment of any run. -/
theorem descriptors_accounted {conf : Conf} {cpuFd fds : List PCFile} {T : AvlTree}
    {log : List FdEvent} (h : Moment conf cpuFd fds T log) (hperf : PerfOk cpuFd log) :
    DescriptorsOk fds T log := by
  have ha := h.accounts hperf
  obtain ⟨hs, hmap, hperm⟩ := closeAllCounters_closes fds T
  have hclean : Accounts [] (handles log ++ hs.map .closed) := by
    apply Accounts.closeAll
    rw [List.append_nil]
    exact ha.of_perm hperm
  refine ⟨ha.nodup, ha.perm, ha.closes, ?_⟩
  rw [handles_append, hmap]
  exact ⟨List.perm_nil.mp hclean.perm.symm, hclean.closes⟩

/-- Two processes that are busy, idle and busy again; the two descriptors are
given to the other one the second time. -/
def swapping : List CycleInput :=
  let files := fun (utime : u64) (fd fd' : PCFile) (p : Pid) =>
    { plainFiles { utime := utime } {} with perfOpen := if p = resident then fd else fd' }
  [plainCycle 100 [resident, visitor] (files 30 5 6),
    plainCycle 200 [resident, visitor] (files 30 7 8),
    plainCycle 300 [visitor, resident] (files 60 6 5)]

theorem descriptors_accounted_swapping :
    ∃ cs s, PtopRun {} [3, 4] cs s ∧ cs.map Transition.input = swapping ∧
      s.fdLog = [.opened 3, .opened 4, .opened 5, .opened 6, .closed 5, .closed 6,
        .opened 5, .opened 6] ∧
      DescriptorsOk s.cpuFd s.tree s.fdLog := by
  obtain ⟨cs, s, hrun, hinput, c, hc, hlog⟩ := exists_run_of_trace (mainLoop {})
    (systemInit [3, 4]) swapping
    (fun cs => ∃ c ∈ cs.getLast?, c.post.fdLog = [.opened 3, .opened 4, .opened 5, .opened 6,
      .closed 5, .closed 6, .opened 5, .opened 6]) (by decide +kernel)
  obtain ⟨before, rfl⟩ := List.getLast?_eq_some_iff.mp hc
  obtain ⟨-, -, rfl⟩ := hrun.snoc_inv
  have hperf : PerfOk [3, 4] c.post.fdLog := by
    rw [hlog]
    exact ⟨by decide, by simp, by decide⟩
  exact ⟨_, c.post, hrun, hinput, hlog, descriptors_accounted (.between hrun) hperf⟩

end PTop
