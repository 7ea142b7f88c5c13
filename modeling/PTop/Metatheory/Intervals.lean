import PTop.Metatheory.Runs

/-!
# The interval a cycle divides by

`read_stat_cpu` adds up 64-bit jiffy counters and keeps the low 32 bits of the
sums. The differences of two cycles are formed from these, by the 64-bit
routine, so what comes out is right as long as neither sum goes past a multiple
of `2 ^ 32` between the two cycles.
-/

namespace PTop

open Framework

/-! ## The two sums -/

/-- The jiffies of all states. -/
def StatsCpu.total (c : StatsCpu) : ℕ :=
  c.cpuUser.toNat + c.cpuNice.toNat + c.cpuSys.toNat + c.cpuIdle.toNat + c.cpuIowait.toNat +
    c.cpuHardirq.toNat + c.cpuSteal.toNat + c.cpuSoftirq.toNat

/-- The busy jiffies. -/
def StatsCpu.busy (c : StatsCpu) : ℤ := c.cpuUser.toNat + c.cpuSys.toNat - c.cpuGuest.toNat

/-- What `sys_info.itv` holds of the first sum. -/
def StatsCpu.itvField (c : StatsCpu) : u32 :=
  (c.cpuUser + c.cpuNice + c.cpuSys + c.cpuIdle + c.cpuIowait + c.cpuHardirq + c.cpuSteal +
    c.cpuSoftirq).setWidth 32

/-- What `sys_info.runtime` holds of the second. -/
def StatsCpu.runtimeField (c : StatsCpu) : u32 :=
  (c.cpuUser + c.cpuSys - c.cpuGuest).setWidth 32

theorem StatsCpu.toNat_itvField (c : StatsCpu) : c.itvField.toNat = c.total % 2 ^ 32 := by
  simp only [itvField, total, BitVec.toNat_setWidth, BitVec.toNat_add]
  omega

theorem StatsCpu.toNat_runtimeField (c : StatsCpu) :
    (c.runtimeField.toNat : ℤ) = c.busy % 2 ^ 32 := by
  simp only [runtimeField, busy, BitVec.toNat_setWidth, BitVec.toNat_add, BitVec.toNat_sub]
  have := c.cpuGuest.isLt
  omega

/-- The counters of `/proc/stat` from one cycle to the next: none decreases, the
guest time grows no more than the user time that contains it, and the whole
grows by less than `2 ^ 32`. -/
structure StatsCpu.Advances (c c' : StatsCpu) : Prop where
  user : c.cpuUser ≤ c'.cpuUser
  nice : c.cpuNice ≤ c'.cpuNice
  sys : c.cpuSys ≤ c'.cpuSys
  idle : c.cpuIdle ≤ c'.cpuIdle
  iowait : c.cpuIowait ≤ c'.cpuIowait
  steal : c.cpuSteal ≤ c'.cpuSteal
  hardirq : c.cpuHardirq ≤ c'.cpuHardirq
  softirq : c.cpuSoftirq ≤ c'.cpuSoftirq
  guest : c.cpuGuest ≤ c'.cpuGuest
  guest_le_user : c'.cpuGuest.toNat - c.cpuGuest.toNat ≤ c'.cpuUser.toNat - c.cpuUser.toNat
  total_lt : c'.total - c.total < 2 ^ 32

theorem StatsCpu.Advances.total_le {c c' : StatsCpu} (h : c.Advances c') : c.total ≤ c'.total := by
  obtain ⟨h₁, h₂, h₃, h₄, h₅, h₆, h₇, h₈, -, -, -⟩ := h
  rw [BitVec.le_def] at h₁ h₂ h₃ h₄ h₅ h₆ h₇ h₈
  unfold total
  omega

/-- The busy jiffies do not decrease, and grow no more than all jiffies. -/
theorem StatsCpu.Advances.busy_le {c c' : StatsCpu} (h : c.Advances c') :
    c.busy ≤ c'.busy ∧ c'.busy - c.busy ≤ c'.total - c.total := by
  obtain ⟨h₁, h₂, h₃, h₄, h₅, h₆, h₇, h₈, h₉, h₁₀, -⟩ := h
  rw [BitVec.le_def] at h₁ h₂ h₃ h₄ h₅ h₆ h₇ h₈ h₉
  unfold busy total
  omega

/-- The increase of the busy jiffies, and what the field makes of it. -/
theorem StatsCpu.Advances.busy_increase {c c' : StatsCpu} (h : c.Advances c') :
    ∃ b : ℕ, c'.busy - c.busy = b ∧ b ≤ c'.total - c.total ∧
      c'.runtimeField.toNat = (c.runtimeField.toNat + b) % 2 ^ 32 := by
  obtain ⟨hbusy, hbusyTotal⟩ := h.busy_le
  have htotal := h.total_le
  obtain ⟨b, hb⟩ : ∃ b : ℕ, c'.busy - c.busy = b :=
    Int.eq_ofNat_of_zero_le (sub_nonneg.mpr hbusy)
  refine ⟨b, hb, ?_, ?_⟩
  · omega
  · have h₁ := c.toNat_runtimeField
    have h₂ := c'.toNat_runtimeField
    omega

theorem StatsCpu.Advances.itvField_increase {c c' : StatsCpu} (h : c.Advances c') :
    c'.itvField.toNat = (c.itvField.toNat + (c'.total - c.total)) % 2 ^ 32 := by
  have htotal := h.total_le
  rw [c.toNat_itvField, c'.toNat_itvField]
  omega

/-! ## The 64-bit difference of two 32-bit readings -/

section Readings

variable {x y : u32} {d : ℕ}

theorem toNat_u64Subcount_setWidth (hy : y.toNat = (x.toNat + d) % 2 ^ 32) (hd : d < 2 ^ 32) :
    (u64Subcount (y.setWidth 64) (x.setWidth 64)).toNat =
      if x.toNat + d < 2 ^ 32 then d else 0x1111111111111111 + d - 2 ^ 32 := by
  have hx := x.isLt
  have hx' : (x.setWidth 64).toNat = x.toNat := by
    rw [BitVec.toNat_setWidth]
    omega
  have hy' : (y.setWidth 64).toNat = y.toNat := by
    rw [BitVec.toNat_setWidth]
    omega
  by_cases hfit : x.toNat + d < 2 ^ 32
  · rw [if_pos hfit]
    have hle : x.setWidth 64 ≤ y.setWidth 64 := by
      rw [BitVec.le_def, hx', hy']
      omega
    rw [u64Subcount, toNat_subcountWith_of_le MAXU64VAL hle, hx', hy']
    omega
  · rw [if_neg hfit]
    have hlt : y.setWidth 64 < x.setWidth 64 := by
      rw [BitVec.lt_def, hx', hy']
      omega
    have hmax : MAXU64VAL.toNat = 0x1111111111111111 := rfl
    rw [u64Subcount, subcountWith_of_lt MAXU64VAL hlt, BitVec.toNat_add, BitVec.toNat_sub, hx', hy',
      hmax]
    omega

/-- The difference is the increase iff the reading did not wrap. -/
theorem u64Subcount_setWidth_eq_iff (hy : y.toNat = (x.toNat + d) % 2 ^ 32) (hd : d < 2 ^ 32) :
    (u64Subcount (y.setWidth 64) (x.setWidth 64)).toNat = d ↔ x.toNat + d < 2 ^ 32 := by
  rw [toNat_u64Subcount_setWidth hy hd]
  split <;> omega

/-- And so is what a 32-bit column keeps of it. -/
theorem u64Subcount_setWidth_eq_iff' (hy : y.toNat = (x.toNat + d) % 2 ^ 32) (hd : d < 2 ^ 32) :
    ((u64Subcount (y.setWidth 64) (x.setWidth 64)).setWidth 32).toNat = d ↔
      x.toNat + d < 2 ^ 32 := by
  rw [BitVec.toNat_setWidth, toNat_u64Subcount_setWidth hy hd]
  split <;> omega

end Readings

/-! ## What a cycle keeps and what it forms -/

section Cycle

variable {conf : Conf} {inp : CycleInput} {c : StatsCpu}

theorem sampleSystem_stat {s s' : SysState} (h : sampleSystem conf inp s = .ok s')
    (hstat : inp.stat = some (some c)) :
    (s'.sysStats s.curr).itv = c.itvField ∧ (s'.sysStats s.curr).runtime = c.runtimeField := by
  obtain ⟨sy, hread, -, hsample⟩ := sampleSystem_sample h
  rw [hstat] at hread
  cases hread
  rw [hsample]
  exact ⟨rfl, rfl⟩

variable {s s' : PtopState} {out : CycleOutput}

/-- The sample a cycle leaves for the next one. -/
theorem cycle_stat_kept (h : Steps (mainLoop conf) inp s s' out)
    (hstat : inp.stat = some (some c)) :
    (s'.sysStats (!s'.curr)).itv = c.itvField ∧
      (s'.sysStats (!s'.curr)).runtime = c.runtimeField := by
  obtain ⟨sys, pids, st, w, shown, hc, rfl, rfl⟩ := mainLoop_ok_iff.mp h
  have hcurr : sys.curr = s.curr := (sampleSystem_frame hc.cpu).curr
  have hstored := sampleSystem_stat hc.cpu hstat
  have hshown := showStage_frame hc.shown
  show (shown.sysStats (!(!shown.curr))).itv = _ ∧ (shown.sysStats (!(!shown.curr))).runtime = _
  rw [Bool.not_not, hshown]
  simp only [writeSystemStats, SysState.addTotals, Function.update_self]
  rw [hcurr]
  exact hstored

/-- The interval of a cycle and the two columns of its row, formed from the
fields of two samples. -/
structure IntervalsFormed (out : CycleOutput) (c c' : StatsCpu) : Prop where
  itv : out.itv = u64Subcount (c'.runtimeField.setWidth 64) (c.runtimeField.setWidth 64)
  rowItv : out.sysRow.itv =
    (u64Subcount (c'.itvField.setWidth 64) (c.itvField.setWidth 64)).setWidth 32
  rowRuntime : out.sysRow.runtime =
    (u64Subcount (c'.runtimeField.setWidth 64) (c.runtimeField.setWidth 64)).setWidth 32

theorem cycle_stat_formed {c' : StatsCpu} (h : Steps (mainLoop conf) inp s s' out)
    (hitv : (s.sysStats (!s.curr)).itv = c.itvField)
    (hruntime : (s.sysStats (!s.curr)).runtime = c.runtimeField)
    (hstat : inp.stat = some (some c')) : IntervalsFormed out c c' := by
  obtain ⟨sys, pids, st, w, shown, hc, rfl, rfl⟩ := mainLoop_ok_iff.mp h
  have hframe := sampleSystem_frame hc.cpu
  obtain ⟨hitv', hruntime'⟩ := sampleSystem_stat hc.cpu hstat
  have hother : (!s.curr) ≠ s.curr := by cases s.curr <;> decide
  have hprev := hframe.prev
  constructor
  · show sys.itv = _
    rw [SysState.itv, hframe.curr, hruntime', hprev, hruntime]
  · simp only [outputOf, writeSystemStats, SysState.addTotals, Function.update_self, hframe.curr,
      Function.update_of_ne hother, hitv', hprev, hitv]
  · simp only [outputOf, writeSystemStats, SysState.addTotals, Function.update_self, hframe.curr,
      Function.update_of_ne hother, hruntime', hprev, hruntime]

end Cycle

/-- What two consecutive cycles should make of the counters: the increase of the
busy jiffies as the interval, and both increases in the row. -/
structure IntervalsExact (out : CycleOutput) (c c' : StatsCpu) : Prop where
  itv : (out.itv.toNat : ℤ) = c'.busy - c.busy
  rowItv : out.sysRow.itv.toNat = c'.total - c.total
  rowRuntime : (out.sysRow.runtime.toNat : ℤ) = c'.busy - c.busy
  runtime_le : out.sysRow.runtime ≤ out.sysRow.itv

instance (out : CycleOutput) (c c' : StatsCpu) : Decidable (IntervalsExact out c c') :=
  decidable_of_iff ((out.itv.toNat : ℤ) = c'.busy - c.busy ∧
      out.sysRow.itv.toNat = c'.total - c.total ∧
      (out.sysRow.runtime.toNat : ℤ) = c'.busy - c.busy ∧ out.sysRow.runtime ≤ out.sysRow.itv)
    ⟨fun h => ⟨h.1, h.2.1, h.2.2.1, h.2.2.2⟩,
      fun h => ⟨h.itv, h.rowItv, h.rowRuntime, h.runtime_le⟩⟩

/-- Neither sum goes past a multiple of `2 ^ 32` from `c` to `c'`. -/
def SumsFit (c c' : StatsCpu) : Prop :=
  c.busy % 2 ^ 32 + (c'.busy - c.busy) < 2 ^ 32 ∧ c.total % 2 ^ 32 + (c'.total - c.total) < 2 ^ 32

theorem IntervalsFormed.exact_iff {out : CycleOutput} {c c' : StatsCpu}
    (h : IntervalsFormed out c c') (hadv : c.Advances c') :
    IntervalsExact out c c' ↔ SumsFit c c' := by
  obtain ⟨b, hb, hble, hruntime⟩ := hadv.busy_increase
  have hlt := hadv.total_lt
  have hb32 : b < 2 ^ 32 := hble.trans_lt hlt
  have hitv := u64Subcount_setWidth_eq_iff hruntime hb32
  have hrowRuntime := u64Subcount_setWidth_eq_iff' hruntime hb32
  have hrowItv := u64Subcount_setWidth_eq_iff' hadv.itvField_increase hlt
  rw [← h.itv] at hitv
  rw [← h.rowRuntime] at hrowRuntime
  rw [← h.rowItv, c.toNat_itvField] at hrowItv
  -- the busy sum fits as a field iff it fits as an integer
  have hfit : c.runtimeField.toNat + b < 2 ^ 32 ↔
      c.busy % 2 ^ 32 + (c'.busy - c.busy) < 2 ^ 32 := by
    have := c.toNat_runtimeField
    omega
  rw [hfit] at hitv hrowRuntime
  constructor
  · intro hexact
    have heq : out.itv.toNat = b := Nat.cast_inj.mp (hexact.itv.trans hb)
    exact ⟨hitv.mp heq, hrowItv.mp hexact.rowItv⟩
  · rintro ⟨hbusy, htotal⟩
    have hI := hrowItv.mpr htotal
    have hR := hrowRuntime.mpr hbusy
    constructor
    · rw [hitv.mpr hbusy, hb]
    · exact hI
    · rw [hR, hb]
    · rw [BitVec.le_def, hR, hI]
      exact hble

/-- Two consecutive cycles of a run form their intervals from the same fields. -/
theorem run_intervalsFormed {conf : Conf} {cpuFd : List PCFile} {before after : List PtopCycle}
    {s : PtopState} {d d' : PtopCycle} (h : PtopRun conf cpuFd (before ++ d :: d' :: after) s)
    {c c' : StatsCpu} (hstat : d.input.stat = some (some c))
    (hstat' : d'.input.stat = some (some c')) : IntervalsFormed d'.output c c' := by
  rw [List.append_cons] at h
  obtain ⟨hrun, hstep'⟩ := h.at_step
  obtain ⟨-, hstep, hpost⟩ := hrun.snoc_inv
  obtain ⟨hitv, hruntime⟩ := cycle_stat_kept hstep hstat
  rw [← hpost] at hitv hruntime
  exact cycle_stat_formed hstep' hitv hruntime hstat'

/-- **The intervals of two consecutive cycles are right iff neither sum goes past
a multiple of `2 ^ 32`.** -/
theorem intervals_exact_iff {conf : Conf} {cpuFd : List PCFile} {cs before after : List PtopCycle}
    {s : PtopState} {d d' : PtopCycle} (h : PtopRun conf cpuFd cs s)
    (hcs : cs = before ++ d :: d' :: after) {c c' : StatsCpu}
    (hstat : d.input.stat = some (some c)) (hstat' : d'.input.stat = some (some c'))
    (hadv : c.Advances c') : IntervalsExact d'.output c c' ↔ SumsFit c c' := by
  subst hcs
  exact (run_intervalsFormed h hstat hstat').exact_iff hadv

/-- A machine that has been busy for `2 ^ 32 - 1` jiffies, and two jiffies later. -/
def uptime : StatsCpu × StatsCpu := ({ cpuUser := 0xFFFFFFFF }, { cpuUser := 0x100000001 })

theorem uptime_advances : uptime.1.Advances uptime.2 := by
  constructor <;> decide

/-- Two cycles of that machine. -/
def wrapping : List CycleInput :=
  let files := fun _ => plainFiles { utime := 30 } {}
  [plainCycle 0xFFFFFFFF [resident] files, plainCycle 0x100000001 [resident] files]

theorem exists_wrapping_run (P : CycleOutput → Prop) [DecidablePred P]
    (h : (match trace (mainLoop {}) (systemInit []) wrapping with
      | .ok cs => decide (∀ c ∈ cs.drop 1, P c.output)
      | .error _ => false) = true) :
    ∃ d d' s, PtopRun {} [] [d, d'] s ∧ d.input.stat = some (some uptime.1) ∧
      d'.input.stat = some (some uptime.2) ∧ P d'.output := by
  obtain ⟨cs, s, hrun, hinput, hP⟩ := exists_run_of_trace (mainLoop {}) (systemInit [])
    wrapping (fun cs => ∀ c ∈ cs.drop 1, P c.output) h
  obtain ⟨d, d', rfl, hd, hd'⟩ := eq_pair_of_inputs hinput
  exact ⟨d, d', s, hrun, congrArg CycleInput.stat hd, congrArg CycleInput.stat hd',
    hP d' (List.mem_singleton_self d')⟩

theorem intervals_exact_iff_wrapping :
    ∃ d d' s, PtopRun {} [] [d, d'] s ∧ d.input.stat = some (some uptime.1) ∧
      d'.input.stat = some (some uptime.2) ∧
      (IntervalsExact d'.output uptime.1 uptime.2 ↔ SumsFit uptime.1 uptime.2) := by
  obtain ⟨d, d', s, hrun, hd, hd', -⟩ := exists_wrapping_run (fun _ => True) (by decide +kernel)
  have hcs : [d, d'] = [] ++ d :: d' :: [] := rfl
  exact ⟨d, d', s, hrun, hd, hd', intervals_exact_iff hrun hcs hd hd' uptime_advances⟩

/-- The two jiffies come out as more than `10 ^ 18`. -/
theorem wrapped_interval :
    ∃ d d' s, PtopRun {} [] [d, d'] s ∧ d.input.stat = some (some uptime.1) ∧
      d'.input.stat = some (some uptime.2) ∧ uptime.1.Advances uptime.2 ∧
      ¬ IntervalsExact d'.output uptime.1 uptime.2 := by
  obtain ⟨d, d', s, hrun, hd, hd', hwrong⟩ := exists_wrapping_run
    (fun out => ¬ IntervalsExact out uptime.1 uptime.2) (by decide +kernel)
  exact ⟨d, d', s, hrun, hd, hd', uptime_advances, hwrong⟩

end PTop
