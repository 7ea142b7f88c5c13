import PTop.Framework.Machine
import PTop.Metatheory.Sampling

/-!
# One cycle, and the states a run goes through

`mainLoop_ok_iff` says once what a cycle that goes on does, stage by stage. The
invariant of the loop is that the tree is an AVL search tree and that every
sample kept at a node either has no pid or has the pid of that node.
-/

namespace PTop

open Framework Framework.HTree AvlTree

theorem except_bind_eq_ok {ε α β : Type} {x : Except ε α} {f : α → Except ε β} {b : β} :
    (x >>= f) = .ok b ↔ ∃ a, x = .ok a ∧ f a = .ok b := by
  cases x with
  | error e => simp [bind, Except.bind]
  | ok a => simp [bind, Except.bind]

/-! ## The stages that concern the machine -/

/-- The samples of the machine before the processes are written. -/
def sampleSystem (conf : Conf) (inp : CycleInput) (s : SysState) : Except Stop SysState :=
  (readCpuStage inp s).map (readSystemStats conf inp)

/-- Between the start of a cycle and its end only the current sample of the
machine and the frequency table change. -/
structure SameFrame (s s' : SysState) : Prop where
  curr : s'.curr = s.curr
  cycle : s'.cycle = s.cycle
  screen : s'.screen = s.screen
  cpuFd : s'.cpuFd = s.cpuFd
  prev : s'.sysStats (!s.curr) = s.sysStats (!s.curr)

theorem sampleSystem_inv {conf : Conf} {inp : CycleInput} {s s' : SysState}
    (h : sampleSystem conf inp s = .ok s') : ∃ sy, readStatCpu inp.stat {} = .ok sy ∧
      s' = readSystemStats conf inp { s with sysStats := Function.update s.sysStats s.curr sy } := by
  unfold sampleSystem readCpuStage at h
  cases hc : readStatCpu inp.stat {} with
  | error e =>
      rw [hc] at h
      cases h
  | ok sy =>
      rw [hc] at h
      cases h
      exact ⟨sy, rfl, rfl⟩

theorem sampleSystem_frame {conf : Conf} {inp : CycleInput} {s s' : SysState}
    (h : sampleSystem conf inp s = .ok s') : SameFrame s s' := by
  obtain ⟨sy, -, rfl⟩ := sampleSystem_inv h
  exact ⟨rfl, rfl, rfl, rfl, by simp [readSystemStats]⟩

/-- The call stores `cpupower` and nothing else of the sample, and looks at none of it. -/
theorem readCpufreqStats_frame (conf : Conf) (dirs : Option (List (Option FreqTable)))
    (freqs : ℕ → CpuFreqData) (sy sy' : SysInfo) :
    (readCpufreqStats conf dirs freqs sy).1 = (readCpufreqStats conf dirs freqs sy').1 ∧
      (readCpufreqStats conf dirs freqs sy).2 =
        { sy with cpupower := (readCpufreqStats conf dirs freqs sy').2.cpupower } := by
  unfold readCpufreqStats
  split
  · exact ⟨rfl, rfl⟩
  · cases dirs <;> exact ⟨rfl, rfl⟩

/-- **What the sample holds**: the figures of `/proc/stat` as they were read, and what
the readers of the frequencies, the counters and the interface made of their files. -/
theorem sampleSystem_sample {conf : Conf} {inp : CycleInput} {s s' : SysState}
    (h : sampleSystem conf inp s = .ok s') : ∃ sy, readStatCpu inp.stat {} = .ok sy ∧
      s'.freqs = (readCpufreqStats conf inp.cpufreq s.freqs {}).1 ∧
      s'.sysStats s.curr = { sy with
        cpupower := (readCpufreqStats conf inp.cpufreq s.freqs {}).2.cpupower
        memaccess := readCpuCounter s.cpuFd inp.cpuCounter
        totalnetrcv := (inp.net.getD (0, 0)).1
        totalnetsnd := (inp.net.getD (0, 0)).2 } := by
  obtain ⟨sy, hc, rfl⟩ := sampleSystem_inv h
  obtain ⟨hfreqs, hpower⟩ := readCpufreqStats_frame conf inp.cpufreq s.freqs sy {}
  refine ⟨sy, hc, ?_, ?_⟩
  · simp only [readSystemStats, Function.update_self]
    exact hfreqs
  · simp only [readSystemStats, Function.update_self]
    rw [hpower]
    cases inp.net <;> rfl

/-- The totals start each cycle at zero. -/
theorem sampleSystem_totals {conf : Conf} {inp : CycleInput} {s s' : SysState}
    (h : sampleSystem conf inp s = .ok s') :
    (s'.sysStats s.curr).totaldiskread = 0 ∧ (s'.sysStats s.curr).totaldiskwrite = 0 := by
  obtain ⟨sy, hread, -, hsample⟩ := sampleSystem_sample h
  rw [hsample]
  unfold readStatCpu at hread
  split at hread <;> cases hread <;> exact ⟨rfl, rfl⟩

/-! ## The cycle -/

/-- The arguments of `write_stat` in a cycle from `s` with output `out`. -/
def cycleArgs (inp : CycleInput) (s : PtopState) (out : CycleOutput) : WriteArgs where
  curr := s.curr
  time := BitVec.ofInt 32 inp.ctime
  itv := out.itv
  screen := s.screen

/-- The stages of a cycle that goes on: the machine sampled (`sys`), the listing
read (`st`), the tree written (`w`), the display drawn (`shown`). -/
structure CycleOf (conf : Conf) (inp : CycleInput) (s : PtopState) (sys : SysState)
    (pids : List Pid) (st : TreeState) (w : WriteAcc) (shown : SysState) : Prop where
  cpu : sampleSystem conf inp s.toSysState = .ok sys
  proc : inp.proc = some pids
  read : readListing conf inp.files s.curr pids s.toTreeState = .ok st
  nonempty : st.tree ≠ .nil
  written : w = visit conf (sys.writeArgs inp.ctime)
    (.start (sys.sysStats s.curr) s.pstList st.fdLog) st.tree.preorder
  shown : showStage inp (writeSystemStats inp.ctime w.amount (sys.addTotals w)).1 = .ok shown

/-- The state after a cycle with these stages. -/
def stateAfter (inp : CycleInput) (s : PtopState) (sys : SysState) (st : TreeState) (w : WriteAcc)
    (shown : SysState) : PtopState where
  toSysState := shown.next
  tree := st.tree.map (writtenNode (sys.writeArgs inp.ctime))
  brk := st.brk
  fdLog := w.fdLog
  pstList := w.pstList
  db := purgeStage s.cycle inp
    (insertSysInfo (writeSystemStats inp.ctime w.amount (sys.addTotals w)).2
      (w.rows.foldl (fun db r => insertPs r db) s.db))

/-- The output of a cycle with these stages. -/
def outputOf (inp : CycleInput) (sys : SysState) (st : TreeState) (w : WriteAcc) : CycleOutput where
  sampled := st.tree
  itv := sys.itv
  rows := w.rows
  amount := w.amount
  sysRow := (writeSystemStats inp.ctime w.amount (sys.addTotals w)).2

/-- **What a cycle does.** -/
theorem mainLoop_ok_iff {conf : Conf} {inp : CycleInput} {s s' : PtopState} {out : CycleOutput} :
    mainLoop conf inp s = .ok (s', out) ↔ ∃ sys pids st w shown,
      CycleOf conf inp s sys pids st w shown ∧
        s' = stateAfter inp s sys st w shown ∧ out = outputOf inp sys st w := by
  unfold mainLoop
  simp only [except_bind_eq_ok, pure, Except.pure]
  constructor
  · rintro ⟨sys₁, hcpu, h⟩
    have hsys : sampleSystem conf inp s.toSysState = .ok (readSystemStats conf inp sys₁) := by
      rw [sampleSystem, hcpu]
      rfl
    -- the stages of the machine do not flip `curr`
    have hcurr : sys₁.curr = s.curr := (sampleSystem_frame hsys).curr
    cases hproc : inp.proc with
    | none => simp [hproc] at h
    | some pids =>
        simp only [hproc, except_bind_eq_ok] at h
        obtain ⟨st, hread, ⟨T, w⟩, hwrite, shown, hshow, h⟩ := h
        obtain ⟨hne, hT, hw⟩ := (writeStat_ok_iff conf _).mp hwrite
        rw [hcurr] at hread
        have hcurr' : (readSystemStats conf inp sys₁).curr = s.curr := hcurr
        rw [hcurr'] at hw
        cases h
        exact ⟨_, pids, st, w, shown, ⟨hsys, hproc, hread, hne, hw, hshow⟩,
          by rw [hT]; rfl, rfl⟩
  · rintro ⟨sys, pids, st, w, shown, hc, rfl, rfl⟩
    have hframe := sampleSystem_frame hc.cpu
    have hcpu := hc.cpu
    unfold sampleSystem at hcpu
    cases hsys : readCpuStage inp s.toSysState with
    | error e => simp [hsys, Except.map] at hcpu
    | ok sys₁ =>
        simp only [hsys, Except.map, Except.ok.injEq] at hcpu
        subst hcpu
        have hcurr : sys₁.curr = s.curr := hframe.curr
        have hcurr' : (readSystemStats conf inp sys₁).curr = s.curr := hcurr
        refine ⟨sys₁, rfl, ?_⟩
        simp only [hc.proc, except_bind_eq_ok]
        refine ⟨st, by rw [hcurr]; exact hc.read, (_, w),
          (writeStat_ok_iff conf _).mpr ⟨hc.nonempty, rfl, by rw [hcurr']; exact hc.written⟩,
          shown, hc.shown, rfl⟩

/-- Drawing the display can only turn it off. -/
theorem showStage_frame {inp : CycleInput} {s s' : SysState} (h : showStage inp s = .ok s') :
    s' = { s with screen := s'.screen } := by
  unfold showStage at h
  split at h
  · split at h
    · cases h
    · cases h
      rfl
  · cases h
    rfl

/-- What a cycle does, in terms of the map before it. -/
structure CycleFacts (conf : Conf) (inp : CycleInput) (s s' : PtopState) (out : CycleOutput) :
    Prop where
  listing : ∃ pids, inp.proc = some pids ∧ (∀ p ∈ pids, Answers (inp.files p)) ∧
    entries out.sampled = sampledMap conf inp.files s.curr pids (entries s.tree)
  sampled_ok : TreeOk out.sampled s'.brk
  tree : s'.tree = out.sampled.map (writtenNode (cycleArgs inp s out))
  rows : out.rows =
    out.sampled.preorder.filterMap fun n => rowOf conf (cycleArgs inp s out) n.toPidEntry
  display : s'.pstList = ((offered s.screen out.rows).foldl offer (s.pstList, 0)).1
  totaldiskread : out.sysRow.totaldiskread =
    (out.sampled.preorder.map fun n => readShare (cycleArgs inp s out) n.toPidEntry).sum
  totaldiskwrite : out.sysRow.totaldiskwrite =
    (out.sampled.preorder.map fun n => writeShare (cycleArgs inp s out) n.toPidEntry).sum
  curr : s'.curr = !s.curr

/-- **A cycle from a good tree.** -/
theorem cycleFacts {conf : Conf} {inp : CycleInput} {s s' : PtopState} {out : CycleOutput}
    (hok : TreeOk s.tree s.brk) (h : mainLoop conf inp s = .ok (s', out)) :
    CycleFacts conf inp s s' out := by
  obtain ⟨sys, pids, st, w, shown, hc, rfl, rfl⟩ := mainLoop_ok_iff.mp h
  have hframe := sampleSystem_frame hc.cpu
  obtain ⟨hread0, hwrite0⟩ := sampleSystem_totals hc.cpu
  have hargs : sys.writeArgs inp.ctime = cycleArgs inp s (outputOf inp sys st w) := by
    simp only [SysState.writeArgs, cycleArgs, outputOf, hframe.curr, hframe.screen]
  have hscreen : (sys.writeArgs inp.ctime).screen = s.screen := hframe.screen
  have hw := hc.written
  have hwrows := visit_rows conf (sys.writeArgs inp.ctime) st.tree.preorder
    (.start (sys.sysStats s.curr) s.pstList st.fdLog)
  have hwdisplay := visit_display conf (sys.writeArgs inp.ctime) st.tree.preorder
    (.start (sys.sysStats s.curr) s.pstList st.fdLog)
  have hwread := visit_totaldiskread conf (sys.writeArgs inp.ctime) st.tree.preorder
    (.start (sys.sysStats s.curr) s.pstList st.fdLog)
  have hwwrite := visit_totaldiskwrite conf (sys.writeArgs inp.ctime) st.tree.preorder
    (.start (sys.sysStats s.curr) s.pstList st.fdLog)
  rw [← hw] at hwrows hwdisplay hwread hwwrite
  have hrows : w.rows =
      st.tree.preorder.filterMap fun n => rowOf conf (sys.writeArgs inp.ctime) n.toPidEntry := hwrows
  -- a cycle that goes on has read its whole listing
  have hans := readListing_inv hok hc.read
  constructor
  · exact ⟨pids, hc.proc, hans.1, hans.2.2⟩
  · exact hans.2.1
  · rw [← hargs]
    rfl
  · rw [← hargs]
    exact hrows
  · rw [hscreen, ← hrows] at hwdisplay
    exact congrArg Prod.fst hwdisplay
  · rw [← hargs]
    have hrow : (outputOf inp sys st w).sysRow.totaldiskread = w.totaldiskread := by
      simp [outputOf, writeSystemStats, SysState.addTotals]
    rw [hrow, hwread, WriteAcc.start, hread0]
    exact BitVec.zero_add _
  · rw [← hargs]
    have hrow : (outputOf inp sys st w).sysRow.totaldiskwrite = w.totaldiskwrite := by
      simp [outputOf, writeSystemStats, SysState.addTotals]
    rw [hrow, hwwrite, WriteAcc.start, hwrite0]
    exact BitVec.zero_add _
  · have hshown : shown.curr = s.curr := by
      rw [showStage_frame hc.shown]
      exact hframe.curr
    show (!shown.curr) = !s.curr
    rw [hshown]

end PTop
