import PTop.Metatheory.Runs
import Mathlib.Data.BitVec
import Mathlib.Algebra.BigOperators.Group.List.Basic

/-!
# The program refines the reference program

The tree of the program and the map of the reference program are related when
they keep the same samples and agree on which counters are open. Descriptors
are numbered by the kernel in the order in which they are opened, so only their
being open can be compared. What a cycle says is a sum over the entries or a
list of their rows, and neither the shape of the tree nor the order of the
listing shows in it beyond the order of the rows.
-/

namespace PTop

open Framework Framework.HTree AvlTree

/-! ## Readings and entries up to the numbers of descriptors -/

/-- The same answers, apart from the number of a counter opened. -/
structure SameFiles (f f' : ProcFiles) : Prop where
  rest : f' = { f with perfOpen := f'.perfOpen }
  opened : 0 < f.perfOpen ↔ 0 < f'.perfOpen

/-- The same samples, and a counter open in both or in neither. -/
structure SameEntry (e e' : PidEntry) : Prop where
  slots : e.pstList = e'.pstList
  opened : 0 < e.fd ↔ 0 < e'.fd

def SameMap (m m' : ProcMap) : Prop := ∀ X, Option.Rel SameEntry (m X) (m' X)

/-- The same cycle: the listings are permutations of each other, and everything
else is answered the same. -/
structure SameReadings (inp inp' : CycleInput) : Prop where
  rest : inp' = { inp with proc := inp'.proc, files := inp'.files }
  listing : ∃ pids pids', inp.proc = some pids ∧ inp'.proc = some pids' ∧ pids.Perm pids' ∧
    pids ≠ []
  files : ∀ pid, SameFiles (inp.files pid) (inp'.files pid)

section Entries

variable {conf : Conf} {pid : Pid} {f f' : ProcFiles} {e e' : PidEntry}

theorem SameFiles.readable_iff (h : SameFiles f f') : Readable f ↔ Readable f' := by
  rw [h.rest]
  exact Iff.rfl

theorem SameFiles.answers_iff (h : SameFiles f f') : Answers f ↔ Answers f' := by
  rw [h.rest]
  exact Iff.rfl

theorem SameFiles.readFiles_eq (h : SameFiles f f') :
    readFiles conf pid.val f' = readFiles conf pid.val f := by
  rw [h.rest]
  rfl

theorem nonpos_iff {fd fd' : PCFile} (hfd : 0 < fd ↔ 0 < fd') : fd ≤ 0 ↔ fd' ≤ 0 := by
  rw [← not_lt, ← not_lt, hfd]

theorem SameFiles.fdAfter_pos_iff (h : SameFiles f f') {fd fd' : PCFile} (hfd : 0 < fd ↔ 0 < fd') :
    0 < fdAfter f fd ↔ 0 < fdAfter f' fd' := by
  by_cases hclosed : fd ≤ 0
  · rw [fdAfter, if_pos hclosed, fdAfter, if_pos ((nonpos_iff hfd).mp hclosed)]
    exact h.opened
  · rw [fdAfter, if_neg hclosed, fdAfter, if_neg (mt (nonpos_iff hfd).mpr hclosed)]
    exact hfd

theorem SameFiles.memoryOf_eq (h : SameFiles f f') {fd fd' : PCFile} (hfd : 0 < fd ↔ 0 < fd') :
    memoryOf f' fd' = memoryOf f fd := by
  have hcounter : readCounter fd' f'.counter = readCounter fd f.counter := by
    rw [h.rest]
    unfold readCounter
    simp only [nonpos_iff hfd]
  have hsmaps : f'.smaps = f.smaps := by rw [h.rest]
  have hmeminfo : f'.meminfo = f.meminfo := by rw [h.rest]
  rw [memoryOf, memoryOf, hcounter, hsmaps, hmeminfo]

theorem sameEntry_sampled (hf : SameFiles f f') (he : SameEntry e e') (curr : Bool) :
    SameEntry (sampledEntry conf pid f curr e) (sampledEntry conf pid f' curr e') := by
  have hfd := hf.fdAfter_pos_iff he.opened
  have hread := hf.readable_iff
  have hsample : storedSample conf pid f' e'.fd = storedSample conf pid f e.fd := by
    by_cases h : Readable f
    · rw [storedSample, if_pos (hread.mp h), storedSample, if_pos h, hf.readFiles_eq,
        hf.memoryOf_eq hfd]
    · rw [storedSample, if_neg (mt hread.mpr h), storedSample, if_neg h, hf.readFiles_eq]
  constructor
  · simp only [sampledEntry, PidEntry.setSlot, hsample, he.slots]
  · by_cases h : Readable f
    · simpa only [sampledEntry, PidEntry.setSlot, if_pos h, if_pos (hread.mp h)] using hfd
    · simpa only [sampledEntry, PidEntry.setSlot, if_neg h, if_neg (mt hread.mpr h)]
        using he.opened

theorem sameEntry_getD {o o' : Option PidEntry} (h : Option.Rel SameEntry o o') :
    SameEntry (o.getD freshEntry) (o'.getD freshEntry) := by
  cases h with
  | none => exact ⟨rfl, Iff.rfl⟩
  | some h => exact h

variable (conf) in
/-- The listing loops on related maps. -/
theorem sameMap_sampled {m m' : ProcMap} {inp inp' : CycleInput} (h : SameReadings inp inp')
    (hm : SameMap m m') (curr : Bool) {pids pids' : List Pid} (hp : pids.Perm pids') :
    SameMap (sampledMap conf inp.files curr pids m) (sampledMap conf inp'.files curr pids' m') := by
  intro X
  rw [← sampledMap_perm hp m']
  by_cases hX : ∃ p ∈ pids, p.toElement = X
  · obtain ⟨p, hp, rfl⟩ := hX
    rw [sampledMap_listed m hp, sampledMap_listed m' hp]
    exact .some (sameEntry_sampled (h.files p) (sameEntry_getD (hm _)) curr)
  · have hne : ∀ p ∈ pids, p.toElement ≠ X := by
      intro p hp he
      exact hX ⟨p, hp, he⟩
    rw [sampledMap_unlisted m hne, sampledMap_unlisted m' hne]
    exact hm X

variable (conf) in
/-- What a node shows depends on its samples alone. -/
theorem SameEntry.shows_eq (h : SameEntry e e') (a : WriteArgs) :
    rowOf conf a e = rowOf conf a e' ∧ readShare a e = readShare a e' ∧
      writeShare a e = writeShare a e' := by
  obtain ⟨fd, slots⟩ := e
  obtain ⟨fd', slots'⟩ := e'
  cases h.slots
  exact ⟨rfl, rfl, rfl⟩

theorem SameEntry.written (h : SameEntry e e') (a : WriteArgs) :
    SameEntry (writtenEntry a e) (writtenEntry a e') := by
  have hact : Active a e ↔ Active a e' := by
    unfold Active PidEntry.curr PidEntry.prev
    rw [h.slots]
  by_cases hc : Active a e
  · rw [writtenEntry, if_pos hc, writtenEntry, if_pos (hact.mp hc)]
    refine ⟨?_, h.opened⟩
    simp only [PidEntry.setSlot, PidEntry.curr, PidEntry.prev, h.slots]
  · rw [writtenEntry, if_neg hc, writtenEntry, if_neg (mt hact.mpr hc)]
    exact ⟨h.slots, Iff.rfl⟩

end Entries

/-! ## Visiting a map -/

section Visit

variable (conf : Conf) (a : WriteArgs)

/-- The row of an entry of a map, and its share of a total. -/
def rowAt (m : ProcMap) (X : ElementType) : Option ProcessInfo := (m X).bind (rowOf conf a)

def shareAt (share : PidEntry → u64) (m : ProcMap) (X : ElementType) : u64 :=
  ((m X).map share).getD 0

/-- What the accumulators gain from the entries `order` of a map. -/
structure Gained (m : ProcMap) (order : List ElementType) (w w' : WriteAcc) : Prop where
  rows : w'.rows = w.rows ++ order.filterMap (rowAt conf a m)
  totaldiskread : w'.totaldiskread =
    w.totaldiskread + (order.map (shareAt (readShare a) m)).sum
  totaldiskwrite : w'.totaldiskwrite =
    w.totaldiskwrite + (order.map (shareAt (writeShare a) m)).sum
  idx : w'.idx = w.idx + (offered a.screen (order.filterMap (rowAt conf a m))).length

variable {conf a}

theorem gained_one {m : ProcMap} {X : ElementType} {e : PidEntry} (he : m X = some e)
    (w : WriteAcc) : Gained conf a m [X] w (writePosition conf a e w).2 := by
  have hw := writePosition_snd conf a e w
  have hrows : [X].filterMap (rowAt conf a m) = (rowOf conf a e).toList := by
    rw [List.filterMap_cons, List.filterMap_nil, rowAt, he, Option.bind_some]
    cases rowOf conf a e <;> rfl
  refine ⟨?_, ?_, ?_, ?_⟩
  · rw [hrows, hw.rows]
  · rw [hw.totaldiskread, List.map_singleton, List.sum_singleton, shareAt, he]
    rfl
  · rw [hw.totaldiskwrite, List.map_singleton, List.sum_singleton, shareAt, he]
    rfl
  · have hidx := congrArg Prod.snd hw.display
    rw [foldl_offer_snd] at hidx
    rw [hrows]
    exact hidx

theorem Gained.trans {m : ProcMap} {order order' : List ElementType} {w w' w'' : WriteAcc}
    (h : Gained conf a m order w w') (h' : Gained conf a m order' w' w'') :
    Gained conf a m (order ++ order') w w'' := by
  refine ⟨?_, ?_, ?_, ?_⟩
  · rw [h'.rows, h.rows, List.filterMap_append, List.append_assoc]
  · rw [h'.totaldiskread, h.totaldiskread, List.map_append, List.sum_append, add_assoc]
  · rw [h'.totaldiskwrite, h.totaldiskwrite, List.map_append, List.sum_append, add_assoc]
  · rw [h'.idx, h.idx, List.filterMap_append, offered, offered, offered, List.filter_append,
      List.length_append, add_assoc]

theorem gained_nil (m : ProcMap) (w : WriteAcc) : Gained conf a m [] w w :=
  ⟨by simp, by simp, by simp, by simp [offered]⟩

/-- Only the entries visited count. -/
theorem Gained.congr {m m' : ProcMap} {order : List ElementType} {w w' : WriteAcc}
    (h : Gained conf a m order w w') (hm : ∀ X ∈ order, m' X = m X) :
    Gained conf a m' order w w' := by
  have hrows : order.filterMap (rowAt conf a m') = order.filterMap (rowAt conf a m) :=
    List.filterMap_congr fun X hX => by rw [rowAt, hm X hX, rowAt]
  have hshare : ∀ share, order.map (shareAt share m') = order.map (shareAt share m) := by
    intro share
    exact List.map_congr_left fun X hX => by rw [shareAt, hm X hX, shareAt]
  refine ⟨?_, ?_, ?_, ?_⟩
  · rw [hrows, h.rows]
  · rw [hshare, h.totaldiskread]
  · rw [hshare, h.totaldiskwrite]
  · rw [hrows, h.idx]

/-- **The reference program's visit.** -/
theorem reference_writeStat : ∀ {order : List ElementType} {m : ProcMap} {w : WriteAcc},
    order.Nodup →
      (∀ X, (Reference.writeStat conf a order (m, w)).1 X =
        if X ∈ order then (m X).map (writtenEntry a) else m X) ∧
      Gained conf a m order w (Reference.writeStat conf a order (m, w)).2
  | [], m, w, _ => ⟨fun X => by simp [Reference.writeStat], gained_nil m w⟩
  | X :: order, m, w, hnd => by
      obtain ⟨hX, hnd⟩ := List.nodup_cons.mp hnd
      rw [Reference.writeStat]
      cases he : m X with
      | none =>
          obtain ⟨hmap, hgain⟩ := reference_writeStat (m := m) (w := w) hnd
          constructor
          · intro Y
            rw [hmap]
            by_cases hY : Y = X
            · subst hY
              simp [hX, he]
            · simp [hY]
          · have hone : Gained conf a m [X] w w :=
              ⟨by simp [rowAt, he], by simp [shareAt, he], by simp [shareAt, he],
                by simp [rowAt, he, offered]⟩
            exact hone.trans hgain
      | some e =>
          obtain ⟨hmap, hgain⟩ := reference_writeStat
            (m := Function.update m X (some (writePosition conf a e w).1))
            (w := (writePosition conf a e w).2) hnd
          constructor
          · intro Y
            simp only [hmap]
            by_cases hY : Y = X
            · subst hY
              simp [hX, he, writePosition_fst]
            · simp [hY]
          · -- the rest of the order does not visit `X` again
            refine (gained_one he w).trans (hgain.congr ?_)
            intro Y hY
            rw [Function.update_of_ne]
            rintro rfl
            exact hX hY

/-- The keys of a tree in the order in which `write_stat` visits them. -/
def visitOrder (T : AvlTree) : List ElementType := T.preorder.map AvlNode.element

theorem enumerates_visitOrder {T : AvlTree} (h : Sorted T) :
    Enumerates (visitOrder T) (entries T) := by
  have hperm : (visitOrder T).Perm (keys T) := (preorder_perm_toList T).map _
  exact ⟨hperm.nodup_iff.mpr h.nodup_keys, fun X =>
    hperm.mem_iff.trans ((enumerates_keys h).mem_iff X)⟩

/-- **The visit of the tree** is a visit of its map. -/
theorem visit_gained {T : AvlTree} (h : Sorted T) : ∀ {ns : List AvlNode} {w : WriteAcc},
    ns ⊆ T.preorder → Gained conf a (entries T) (ns.map AvlNode.element) w (visit conf a w ns)
  | [], w, _ => gained_nil _ w
  | n :: ns, w, hns => by
      have hn : n ∈ T.toList := (preorder_perm_toList T).mem_iff.mp (hns List.mem_cons_self)
      have hns' : ns ⊆ T.preorder := by
        intro m hm
        exact hns (List.mem_cons_of_mem _ hm)
      have ih := visit_gained (w := (writePosition conf a n.toPidEntry w).2) h hns'
      exact (gained_one (entries_of_mem h hn) w).trans ih

end Visit

/-! ## The two visits agree -/

/-- The accumulators up to the order of the rows, without what only the program has. -/
structure SameAcc (w w' : WriteAcc) : Prop where
  rows : w.rows.Perm w'.rows
  totaldiskread : w.totaldiskread = w'.totaldiskread
  totaldiskwrite : w.totaldiskwrite = w'.totaldiskwrite
  idx : w.idx = w'.idx

section Agree

variable {conf : Conf} {a : WriteArgs} {m m' : ProcMap}

theorem SameMap.isSome_iff (h : SameMap m m') (X : ElementType) :
    (m X).isSome ↔ (m' X).isSome := by
  have hX := h X
  cases hm : m X <;> cases hm' : m' X <;> rw [hm, hm'] at hX <;> first | exact Iff.rfl | cases hX

theorem SameMap.rowAt_eq (h : SameMap m m') : rowAt conf a m = rowAt conf a m' := by
  funext X
  have hX := h X
  unfold rowAt
  cases hm : m X <;> cases hm' : m' X <;> rw [hm, hm'] at hX <;> cases hX
  rename_i he
  exact (he.shows_eq conf a).1

theorem SameMap.shareAt_eq (h : SameMap m m') :
    shareAt (readShare a) m = shareAt (readShare a) m' ∧
      shareAt (writeShare a) m = shareAt (writeShare a) m' := by
  have hX : ∀ X, shareAt (readShare a) m X = shareAt (readShare a) m' X ∧
      shareAt (writeShare a) m X = shareAt (writeShare a) m' X := by
    intro X
    have hX := h X
    unfold shareAt
    cases hm : m X <;> cases hm' : m' X <;> rw [hm, hm'] at hX <;> cases hX
    · exact ⟨rfl, rfl⟩
    · rename_i he
      exact (he.shows_eq {} a).2
  exact ⟨funext fun X => (hX X).1, funext fun X => (hX X).2⟩

/-- Two enumerations of related maps are permutations of each other. -/
theorem Enumerates.perm (h : SameMap m m') {order order' : List ElementType}
    (ho : Enumerates order m) (ho' : Enumerates order' m') : order.Perm order' := by
  apply (List.perm_ext_iff_of_nodup ho.nodup ho'.nodup).mpr
  intro X
  rw [ho.mem_iff, ho'.mem_iff, h.isSome_iff]

/-- **Related maps give the same, in whatever order they are visited.** -/
theorem sameAcc_gained (h : SameMap m m') {order order' : List ElementType}
    (ho : order.Perm order') {w v w' v' : WriteAcc} (hw : SameAcc w w')
    (hg : Gained conf a m order w v) (hg' : Gained conf a m' order' w' v') : SameAcc v v' := by
  have hrows : (order.filterMap (rowAt conf a m)).Perm (order'.filterMap (rowAt conf a m')) := by
    rw [← h.rowAt_eq]
    exact ho.filterMap _
  refine ⟨?_, ?_, ?_, ?_⟩
  · rw [hg.rows, hg'.rows]
    exact hw.rows.append hrows
  · rw [hg.totaldiskread, hg'.totaldiskread, hw.totaldiskread, h.shareAt_eq.1,
      (ho.map _).sum_eq]
  · rw [hg.totaldiskwrite, hg'.totaldiskwrite, hw.totaldiskwrite, h.shareAt_eq.2,
      (ho.map _).sum_eq]
  · rw [hg.idx, hg'.idx, hw.idx]
    exact congrArg (w'.idx + ·) (hrows.filter _).length_eq

theorem SameAcc.finish {w w' : WriteAcc} (h : SameAcc w w') (sys : SysState) :
    sys.addTotals w = sys.addTotals w' ∧ w.amount = w'.amount := by
  refine ⟨?_, ?_⟩
  · rw [SysState.addTotals, h.totaldiskread, h.totaldiskwrite]
    rfl
  · rw [WriteAcc.amount, h.idx]
    rfl

end Agree

/-! ## The cycle of the reference program -/

/-- The stages of a cycle of the reference program. -/
structure ReferenceOf (conf : Conf) (inp : CycleInput) (r : Reference.State) (sys : SysState)
    (pids : List Pid) (order : List ElementType) (procs : ProcMap) (w : WriteAcc)
    (shown : SysState) : Prop where
  cpu : sampleSystem conf inp r.toSysState = .ok sys
  proc : inp.proc = some pids
  answers : ∀ p ∈ pids, Answers (inp.files p)
  enum : Enumerates order (sampledMap conf inp.files r.curr pids r.procs)
  written : Reference.writeStat conf (sys.writeArgs inp.ctime) order
    (sampledMap conf inp.files r.curr pids r.procs,
      .start (sys.sysStats r.curr) (fun _ => {}) []) = (procs, w)
  shown : showStage inp (writeSystemStats inp.ctime w.amount (sys.addTotals w)).1 = .ok shown

theorem enumerates_written (conf : Conf) {a : WriteArgs} {order : List ElementType} {m : ProcMap}
    {w : WriteAcc} (hnd : order.Nodup) :
    Enumerates order (Reference.writeStat conf a order (m, w)).1 ↔ Enumerates order m := by
  have hdom : ∀ X, ((Reference.writeStat conf a order (m, w)).1 X).isSome ↔ (m X).isSome := by
    intro X
    rw [(reference_writeStat hnd).1]
    split <;> simp
  exact ⟨fun h => ⟨hnd, fun X => (h.mem_iff X).trans (hdom X)⟩,
    fun h => ⟨hnd, fun X => (h.mem_iff X).trans (hdom X).symm⟩⟩

theorem reference_cycle_iff {conf : Conf} {inp : CycleInput} {r r' : Reference.State}
    {o : Reference.Output} : Reference.Cycle conf inp r r' o ↔
      ∃ sys pids order procs w shown, ReferenceOf conf inp r sys pids order procs w shown ∧
        r' = { toSysState := shown.next, procs := procs } ∧
        o = { rows := w.rows,
              sysRow := (writeSystemStats inp.ctime w.amount (sys.addTotals w)).2 } := by
  unfold Reference.Cycle Reference.mainLoop
  simp only [except_bind_eq_ok, pure, Except.pure]
  constructor
  · rintro ⟨order, henum, sys₁, hcpu, h⟩
    have hsys : sampleSystem conf inp r.toSysState = .ok (readSystemStats conf inp sys₁) := by
      rw [sampleSystem, hcpu]
      rfl
    have hcurr : sys₁.curr = r.curr := (sampleSystem_frame hsys).curr
    have hcurr' : (readSystemStats conf inp sys₁).curr = r.curr := hcurr
    cases hproc : inp.proc with
    | none => simp [hproc] at h
    | some pids =>
        simp only [hproc, except_bind_eq_ok] at h
        obtain ⟨m, hread, shown, hshow, h⟩ := h
        rw [hcurr, reference_readListing_eq] at hread
        split at hread
        · rename_i hans
          cases hread
          cases h
          rw [hcurr'] at henum hshow ⊢
          exact ⟨_, pids, order, _, _, shown,
            ⟨hsys, hproc, hans, (enumerates_written conf henum.nodup).mp henum, rfl, hshow⟩, rfl, rfl⟩
        · cases hread
  · rintro ⟨sys, pids, order, procs, w, shown, hc, rfl, rfl⟩
    have hframe := sampleSystem_frame hc.cpu
    have hcpu := hc.cpu
    unfold sampleSystem at hcpu
    cases hsys : readCpuStage inp r.toSysState with
    | error e =>
        rw [hsys] at hcpu
        cases hcpu
    | ok sys₁ =>
        rw [hsys] at hcpu
        cases hcpu
        have hcurr : sys₁.curr = r.curr := hframe.curr
        have hcurr' : (readSystemStats conf inp sys₁).curr = r.curr := hcurr
        have hwritten := hc.written
        refine ⟨order, ?_, sys₁, rfl, ?_⟩
        · have henum := (enumerates_written conf (w := .start
            ((readSystemStats conf inp sys₁).sysStats r.curr) (fun _ => {}) [])
            (a := (readSystemStats conf inp sys₁).writeArgs inp.ctime) hc.enum.nodup).mpr hc.enum
          rwa [hwritten] at henum
        · simp only [hc.proc, except_bind_eq_ok]
          refine ⟨_, by rw [hcurr, reference_readListing_eq, if_pos hc.answers], shown, ?_, ?_⟩
          · rw [hcurr', hwritten]
            exact hc.shown
          · rw [hcurr', hwritten]

/-! ## The simulation -/

/-- The tree of the program and the map of the reference program. -/
structure Related (s : PtopState) (r : Reference.State) : Prop where
  ok : StateOk s
  sys : s.toSysState = r.toSysState
  procs : SameMap (entries s.tree) r.procs

/-- What a cycle inserts into the two tables. -/
def CycleOutput.inserted (out : CycleOutput) : Reference.Output where
  rows := out.rows
  sysRow := out.sysRow

/-- The same rows, in whatever order, and the same row of the machine. -/
structure SameOutput (o o' : Reference.Output) : Prop where
  rows : o.rows.Perm o'.rows
  sysRow : o.sysRow = o'.sysRow

theorem related_init (cpuFd : List PCFile) : Related (systemInit cpuFd) (Reference.init cpuFd) :=
  ⟨stateOk_init cpuFd, rfl, fun _ => .none⟩

section Simulation

variable {conf : Conf} {inp inp' : CycleInput}

variable (conf) in
/-- What concerns the machine does not depend on the listing. -/
theorem SameReadings.machine (h : SameReadings inp inp') :
    sampleSystem conf inp' = sampleSystem conf inp ∧ showStage inp' = showStage inp ∧
      inp'.ctime = inp.ctime := by
  rw [h.rest]
  exact ⟨rfl, rfl, rfl⟩

theorem SameReadings.answers_iff (h : SameReadings inp inp') {pids pids' : List Pid}
    (hp : pids.Perm pids') :
    (∀ p ∈ pids, Answers (inp.files p)) ↔ ∀ p ∈ pids', Answers (inp'.files p) := by
  constructor
  · intro ha p hmem
    exact (h.files p).answers_iff.mp (ha p (hp.mem_iff.mpr hmem))
  · intro ha p hmem
    exact (h.files p).answers_iff.mpr (ha p (hp.mem_iff.mp hmem))

variable (conf) in
/-- **The visits of a cycle** on related trees and maps. -/
theorem sameAcc_visits (a : WriteArgs) (sy : SysInfo) (pstList : ℕ → ProcessInfo)
    (fdLog : List FdEvent) {T : AvlTree} {m : ProcMap} (hT : Sorted T)
    (hm : SameMap (entries T) m) {order : List ElementType} (ho : Enumerates order m) :
    SameAcc (visit conf a (.start sy pstList fdLog) T.preorder)
      (Reference.writeStat conf a order (m, .start sy (fun _ => {}) [])).2 :=
  have hstart : SameAcc (.start sy pstList fdLog) (.start sy (fun _ => {}) []) :=
    ⟨.refl _, rfl, rfl, rfl⟩
  sameAcc_gained hm (Enumerates.perm hm (enumerates_visitOrder hT) ho) hstart
    (visit_gained hT fun _ h => h) (reference_writeStat ho.nodup).2

variable (conf) in
/-- The map of the written tree is the written map. -/
theorem sameMap_written (a : WriteArgs) (w : WriteAcc) {T : AvlTree} {m : ProcMap} (hT : Sorted T)
    (hm : SameMap (entries T) m) {order : List ElementType} (ho : Enumerates order m) :
    SameMap (entries (T.map (writtenNode a)))
      (Reference.writeStat conf a order (m, w)).1 := by
  intro X
  have hX : (Reference.writeStat conf a order (m, w)).1 X = (m X).map (writtenEntry a) := by
    rw [(reference_writeStat ho.nodup).1]
    split
    · rfl
    · rename_i hmem
      have hnone : m X = none := by
        rw [← Option.not_isSome_iff_eq_none, ← ho.mem_iff]
        exact hmem
      rw [hnone]
      rfl
  rw [entries_written hT, hX]
  have hX := hm X
  cases hs : entries T X <;> cases hr : m X <;> rw [hs, hr] at hX <;> cases hX
  · exact .none
  · rename_i he
    exact .some (he.written a)

theorem Related.curr {s : PtopState} {r : Reference.State} (hR : Related s r) : s.curr = r.curr :=
  congrArg SysState.curr hR.sys

theorem Related.sampled {s : PtopState} {r : Reference.State} (hR : Related s r)
    (h : SameReadings inp inp') {pids pids' : List Pid} (hp : pids.Perm pids') {T : AvlTree}
    (hT : entries T = sampledMap conf inp.files s.curr pids (entries s.tree)) :
    SameMap (entries T) (sampledMap conf inp'.files r.curr pids' r.procs) := by
  have hm := sameMap_sampled conf h hR.procs s.curr hp
  rwa [← hT, hR.curr] at hm

/-- **One cycle of each.** -/
theorem related_matched {s s' : PtopState} {r r' : Reference.State} {out : CycleOutput}
    {o : Reference.Output} (hR : Related s r) (h : SameReadings inp inp')
    (hs : Steps (mainLoop conf) inp s s' out) (hr : Reference.Cycle conf inp' r r' o) :
    Related s' r' ∧ SameOutput out.inserted o := by
  have hstep := stateOk_step hR.ok hs
  obtain ⟨sys, pids, st, w, shown, hc, rfl, rfl⟩ := mainLoop_ok_iff.mp hs
  obtain ⟨sys', pids', order, procs, w', shown', hc', rfl, rfl⟩ := reference_cycle_iff.mp hr
  obtain ⟨hsample, hshow, htime⟩ := h.machine conf
  obtain ⟨qs, qs', hqs, hqs', hperm, -⟩ := h.listing
  obtain ⟨pids₀, hpids₀, -, hentries⟩ := hstep.2.listing
  obtain rfl : sys = sys' := by
    have hsys := hc.cpu
    rw [hR.sys, ← hsample, hc'.cpu] at hsys
    exact (Except.ok.inj hsys).symm
  obtain ⟨rfl, rfl⟩ : qs = pids₀ ∧ qs' = pids' :=
    ⟨Option.some.inj (hqs.symm.trans hpids₀), Option.some.inj (hqs'.symm.trans hc'.proc)⟩
  have hcurr := hR.curr
  have hsorted := hstep.2.sampled_ok.sorted
  have hm := hR.sampled h hperm hentries
  have hwritten := hc'.written
  rw [htime] at hwritten
  -- the order of the listing and of the visits shows in the order of the rows only
  have hw : SameAcc w w' := by
    have hv := sameAcc_visits conf (sys.writeArgs inp.ctime) (sys.sysStats s.curr) s.pstList
      st.fdLog hsorted hm hc'.enum
    rw [hcurr, hwritten, ← hcurr] at hv
    rw [hc.written]
    exact hv
  obtain ⟨htotals, hamount⟩ := hw.finish sys
  have hshown : shown = shown' := by
    have hshown := hc.shown
    rw [htotals, hamount, ← hshow, ← htime, hc'.shown] at hshown
    exact (Except.ok.inj hshown).symm
  refine ⟨⟨hstep.1, by rw [← hshown]; rfl, ?_⟩, ⟨hw.rows, ?_⟩⟩
  · have hprocs := sameMap_written conf (sys.writeArgs inp.ctime)
      (.start (sys.sysStats r.curr) (fun _ => {}) []) hsorted hm hc'.enum
    rw [hwritten] at hprocs
    exact hprocs
  · show (writeSystemStats inp.ctime w.amount (sys.addTotals w)).2 = _
    rw [htotals, hamount, htime]

/-- The reference program can follow a cycle of the program. -/
theorem Related.follow {s s' : PtopState} {r : Reference.State} {out : CycleOutput}
    (hR : Related s r) (h : SameReadings inp inp') (hs : Steps (mainLoop conf) inp s s' out) :
    ∃ r' o, Reference.Cycle conf inp' r r' o := by
  have hf := (stateOk_step hR.ok hs).2
  obtain ⟨sys, pids, st, w, shown, hc, rfl, rfl⟩ := mainLoop_ok_iff.mp hs
  obtain ⟨hsample, hshow, htime⟩ := h.machine conf
  obtain ⟨qs, qs', hqs, hqs', hperm, -⟩ := h.listing
  obtain ⟨pids₀, hpids₀, hans, hentries⟩ := hf.listing
  obtain rfl : qs = pids₀ := Option.some.inj (hqs.symm.trans hpids₀)
  have hsorted : Sorted st.tree := hf.sampled_ok.sorted
  have hm : SameMap (entries st.tree) _ := hR.sampled h hperm hentries
  have henum : Enumerates (visitOrder st.tree) (sampledMap conf inp'.files r.curr qs' r.procs) :=
    ⟨(enumerates_visitOrder hsorted).nodup, fun X =>
      ((enumerates_visitOrder hsorted).mem_iff X).trans (hm.isSome_iff X)⟩
  have hw := sameAcc_visits conf (sys.writeArgs inp'.ctime) (sys.sysStats s.curr) s.pstList
    st.fdLog hsorted hm henum
  have hvisit := hc.written
  rw [← htime] at hvisit
  rw [← hvisit, hR.curr] at hw
  obtain ⟨htotals, hamount⟩ := hw.finish sys
  refine ⟨_, _, reference_cycle_iff.mpr ⟨sys, qs', visitOrder st.tree, _, _, shown,
    ⟨?_, hqs', (h.answers_iff hperm).mp hans, henum, rfl, ?_⟩, rfl, rfl⟩⟩
  · rw [hsample, ← hR.sys]
    exact hc.cpu
  · rw [hshow, ← htotals, ← hamount, htime]
    exact hc.shown

/-- The program can follow a cycle of the reference program: the listing is not
empty, so `write_stat` is given a tree. -/
theorem Related.followed {s : PtopState} {r r' : Reference.State} {o : Reference.Output}
    (hR : Related s r) (h : SameReadings inp inp') (hr : Reference.Cycle conf inp' r r' o) :
    ∃ s' out, Steps (mainLoop conf) inp s s' out := by
  obtain ⟨sys, pids', order, procs, w', shown, hc, rfl, rfl⟩ := reference_cycle_iff.mp hr
  obtain ⟨hsample, hshow, htime⟩ := h.machine conf
  obtain ⟨qs, qs', hqs, hqs', hperm, hne⟩ := h.listing
  obtain rfl : qs' = pids' := Option.some.inj (hqs'.symm.trans hc.proc)
  have hread := readListing_refines conf inp.files s.curr qs hR.ok.tree
  rw [reference_readListing_eq, if_pos ((h.answers_iff hperm).mpr hc.answers)] at hread
  obtain ⟨st, hst, hok, hentries⟩ := hread
  -- a listed pid has an entry, so the tree is not empty
  have hnonempty : st.tree ≠ .nil := by
    obtain ⟨p, hp⟩ := List.exists_mem_of_ne_nil _ hne
    intro hnil
    have hlisted : sampledMap conf inp.files s.curr qs (entries s.tree) p.toElement = _ :=
      sampledMap_listed (entries s.tree) hp
    rw [← hentries, hnil] at hlisted
    cases hlisted
  have hw := sameAcc_visits conf (sys.writeArgs inp'.ctime) (sys.sysStats s.curr) s.pstList
    st.fdLog hok.sorted (hR.sampled h hperm hentries) hc.enum
  have hwritten := hc.written
  rw [← hR.curr] at hwritten
  rw [hR.curr, ← hR.curr, hwritten] at hw
  obtain ⟨htotals, hamount⟩ := hw.finish sys
  rw [htime] at htotals hamount
  refine ⟨_, _, mainLoop_ok_iff.mpr ⟨sys, qs, st, _, shown,
    ⟨?_, hqs, hst, hnonempty, rfl, ?_⟩, rfl, rfl⟩⟩
  · rw [hR.sys, ← hsample]
    exact hc.cpu
  · rw [htotals, hamount, ← hshow, ← htime]
    exact hc.shown

end Simulation

/-- **The program and its reference do the same in every cycle.** -/
theorem refinement (conf : Conf) : Bisimulation (Steps (mainLoop conf)) (Reference.Cycle conf)
    Related SameReadings fun out o => SameOutput out.inserted o where
  matched := related_matched
  enabled := by
    intro s r inp inp' hR h
    exact ⟨fun ⟨_, _, hs⟩ => hR.follow h hs, fun ⟨_, _, hr⟩ => hR.followed h hr⟩

/-- The runs of the reference program. -/
abbrev ReferenceRun (conf : Conf) (cpuFd : List PCFile) :
    List (Transition Reference.State CycleInput Reference.Output) → Reference.State → Prop :=
  Run (Reference.Cycle conf) (Reference.init cpuFd)

theorem SameReadings.refl_right {inp inp' : CycleInput} (h : SameReadings inp inp') :
    SameReadings inp' inp' := by
  obtain ⟨pids, pids', -, hproc, hp, hne⟩ := h.listing
  have hne' : pids' ≠ [] := by
    rintro rfl
    exact hne hp.eq_nil
  exact ⟨rfl, ⟨pids', pids', hproc, hproc, .refl _, hne'⟩, fun pid => ⟨rfl, Iff.rfl⟩⟩

/-- **The program refines the map.** On the same readings the program and its
reference go through the same cycles and insert the same rows, whatever the
order in which each of them lists the pids and the reference visits its map; and
so do two runs of the program on different orders. -/
theorem tree_refines_map (conf : Conf) (cpuFd : List PCFile) {is js : List CycleInput}
    (h : List.Forall₂ SameReadings is js) :
    (HasRun (Steps (mainLoop conf)) (systemInit cpuFd) is ↔
        HasRun (Reference.Cycle conf) (Reference.init cpuFd) js) ∧
      (∀ cs s ds t, PtopRun conf cpuFd cs s → cs.map Transition.input = is →
        ReferenceRun conf cpuFd ds t → ds.map Transition.input = js →
          List.Forall₂ (fun c d => SameOutput c.output.inserted d.output) cs ds) ∧
      (HasRun (Steps (mainLoop conf)) (systemInit cpuFd) is ↔
        HasRun (Steps (mainLoop conf)) (systemInit cpuFd) js) ∧
      ∀ cs s ds t, PtopRun conf cpuFd cs s → cs.map Transition.input = is →
        PtopRun conf cpuFd ds t → ds.map Transition.input = js →
          List.Forall₂ (fun c d => SameOutput c.output.inserted d.output.inserted) cs ds := by
  have hinit := related_init cpuFd
  have htwice := (refinement conf).comp (refinement conf).symm
  have htwice₀ : Relation.Comp Related (flip Related) (systemInit cpuFd) (systemInit cpuFd) :=
    ⟨_, hinit, hinit⟩
  have hsame : List.Forall₂ (Relation.Comp SameReadings (flip SameReadings)) is js :=
    h.imp fun i j hij => ⟨j, hij, hij.refl_right⟩
  refine ⟨(refinement conf).hasRun_iff hinit h, ?_, htwice.hasRun_iff htwice₀ hsame, ?_⟩
  · rintro cs s ds t hA rfl hB rfl
    have hI := List.forall₂_map_left_iff.mp (List.forall₂_map_right_iff.mp h)
    exact ((refinement conf).run_agree hinit hA hB hI).2
  · rintro cs s ds t hA rfl hB rfl
    have hI := List.forall₂_map_left_iff.mp (List.forall₂_map_right_iff.mp hsame)
    refine (htwice.run_agree htwice₀ hA hB hI).2.imp fun c d => ?_
    rintro ⟨o, ho, ho'⟩
    exact ⟨ho.rows.trans ho'.rows.symm, ho.sysRow.trans ho'.sysRow.symm⟩

/-- Two cycles, and the same with the second listing the other way round. -/
def reordered : List CycleInput × List CycleInput :=
  let files := fun _ => plainFiles { utime := 30 } { readBytes := 4096 }
  ([plainCycle 100 [resident] files, plainCycle 200 [resident, visitor] files],
    [plainCycle 100 [resident] files, plainCycle 200 [visitor, resident] files])

theorem sameReadings_plainCycle {busy : u64} {pids pids' : List Pid} (files : Pid → ProcFiles)
    (hp : pids.Perm pids') (hne : pids ≠ []) :
    SameReadings (plainCycle busy pids files) (plainCycle busy pids' files) :=
  ⟨rfl, ⟨pids, pids', rfl, rfl, hp, hne⟩, fun _ => ⟨rfl, Iff.rfl⟩⟩

theorem tree_refines_map_reordered :
    ∃ cs s ds t, PtopRun {} [] cs s ∧ cs.map Transition.input = reordered.1 ∧
      PtopRun {} [] ds t ∧ ds.map Transition.input = reordered.2 ∧
      HasRun (Reference.Cycle {}) (Reference.init []) reordered.2 ∧
      (∀ ds t, ReferenceRun {} [] ds t → ds.map Transition.input = reordered.2 →
        List.Forall₂ (fun c d => SameOutput c.output.inserted d.output) cs ds) ∧
      List.Forall₂ (fun c d => SameOutput c.output.inserted d.output.inserted) cs ds := by
  have hsame : List.Forall₂ SameReadings reordered.1 reordered.2 :=
    .cons (sameReadings_plainCycle _ (.refl _) (by simp))
      (.cons (sameReadings_plainCycle _ (.swap _ _ _) (by simp)) .nil)
  obtain ⟨cs, s, hcs, hin, hlen⟩ := exists_run_of_trace (mainLoop {}) (systemInit [])
    reordered.1 (fun cs => cs.length = 2) (by decide +kernel)
  obtain ⟨hiff, hmap, hiff', htree⟩ := tree_refines_map {} [] hsame
  obtain ⟨ds, t, hds, hin'⟩ := hiff'.mp ⟨cs, s, hcs, hin⟩
  exact ⟨cs, s, ds, t, hcs, hin, hds, hin', hiff.mp ⟨cs, s, hcs, hin⟩,
    fun ds t hds hin' => hmap cs s ds t hcs hin hds hin', htree cs s ds t hcs hin hds hin'⟩

end PTop
