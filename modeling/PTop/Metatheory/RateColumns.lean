import PTop.Metatheory.Conservation

/-!
# The columns that are rates

Page faults and context switches are counted in 32 bits and recorded as rates per
second. The difference is taken in the register, so it survives the wrap that the 64-bit
differences do not, and the activity test looks at all four counters. So a rate, times
the interval it was formed with, gives back what the kernel counted, and over a run
nothing is lost.
-/

namespace PTop

open Framework AvlTree

/-- The columns of a row that are rates. -/
inductive RateColumn where
  | minflt
  | majflt
  | cswch
  | nvcswch
deriving DecidableEq

namespace RateColumn

/-- The counter in a sample. -/
def counter : RateColumn → PidStats → u32
  | minflt, st => st.minflt
  | majflt, st => st.majflt
  | cswch, st => st.nvcsw
  | nvcswch, st => st.nivcsw

/-- The rate in a row. -/
def rate : RateColumn → ProcessInfo → XFloat
  | minflt, r => r.minflt
  | majflt, r => r.majflt
  | cswch, r => r.cswch
  | nvcswch, r => r.nvcswch

/-- What a process answers in a cycle. -/
def raw (pid : Pid) (inp : CycleInput) : RateColumn → u32
  | minflt => ((inp.files pid).stat.getD {}).minflt.setWidth 32
  | majflt => ((inp.files pid).stat.getD {}).majflt.setWidth 32
  | cswch => ((inp.files pid).status.getD {}).nvcsw
  | nvcswch => ((inp.files pid).status.getD {}).nivcsw

variable (col : RateColumn)

theorem counter_stored (conf : Conf) {pid : Pid} {inp : CycleInput} (fd : PCFile)
    (h : Readable (inp.files pid)) :
    col.counter (storedSample conf pid (inp.files pid) fd) = col.raw pid inp := by
  obtain ⟨s, n, t, i, hs, hn, ht, hi⟩ := h.exists_answers
  rw [storedSample, if_pos h]
  cases n <;> cases col <;>
    simp [counter, raw, readFiles, readProcPidStat, readProcPidStatus, readProcPidIo, hs, hn, ht,
      hi]

/-- The clamp is one of times. -/
theorem counter_clampSample (old new : PidStats) :
    col.counter (clampSample old new) = col.counter new := by
  cases col <;> rfl

theorem counter_of_same {old new : PidStats} (h : SameActivity old new) :
    col.counter new = col.counter old := by
  obtain ⟨-, -, ⟨hmin, hmaj⟩, -, -, -, hnvcsw, hnivcsw⟩ := h
  cases col
  · exact hmin
  · exact hmaj
  · exact hnvcsw
  · exact hnivcsw

/-- A rate is the difference in the register, per interval. -/
theorem rate_processRow (conf : Conf) (time : u32) (itv : u64) (old new : PidStats) :
    col.rate (processRow conf time itv old new) =
      S_VALUE conf (col.counter old) (col.counter new) itv := by
  cases col <;> rfl

/-- What the rates of a process in a cycle stand for. -/
def charge (conf : Conf) (pid : Pid) (out : CycleOutput) : ℚ :=
  ((rowsOf pid out.rows).map fun r =>
    (col.rate r).toRat * (out.itv.toNat : ℚ) / (conf.hz.toNat : ℚ)).sum

end RateColumn

/-- A rate, turned back into what it is a rate of. -/
theorem rate_mul_itv {conf : Conf} (hhz : conf.hz ≠ 0) {itv : u64} (hitv : itv ≠ 0) (m n : u32) :
    (S_VALUE conf m n itv).toRat * itv.toNat / conf.hz.toNat = ((n - m).toNat : ℚ) := by
  have hitv' : (itv.toNat : ℚ) ≠ 0 := by
    rw [Nat.cast_ne_zero]
    exact fun h0 => hitv (BitVec.eq_of_toNat_eq h0)
  have hhz' : (conf.hz.toNat : ℚ) ≠ 0 := by
    rw [Nat.cast_ne_zero]
    exact fun h0 => hhz (BitVec.eq_of_toNat_eq h0)
  have hdiv : XFloat.ofNat (n - m).toNat / XFloat.ofNat itv.toNat =
      .fin (((n - m).toNat : ℚ) / itv.toNat) := XFloat.fin_div_fin _ hitv'
  have hvalue : S_VALUE conf m n itv = .fin (((n - m).toNat : ℚ) / itv.toNat * conf.hz.toNat) := by
    rw [S_VALUE, hdiv]
    rfl
  rw [hvalue, XFloat.toRat_fin]
  field_simp

/-! ## One cycle -/

section Cycle

variable {conf : Conf} {inp : CycleInput} {s s' : PtopState} {out : CycleOutput} {pid : Pid}

/-- **One cycle keeps the counter and charges its increase.** -/
theorem CycleFacts.rate_charged (hf : CycleFacts conf inp s s' out) (hs : StateOk s)
    (hp : pid ∈ inp.listing) (hread : Readable (inp.files pid)) (hhz : conf.hz ≠ 0)
    (hitv : out.itv ≠ 0) (col : RateColumn) :
    col.counter (keptSlot s' pid) = col.raw pid inp ∧
      col.charge conf pid out = ((col.raw pid inp - col.counter (keptSlot s pid)).toNat : ℚ) := by
  have hstored := col.counter_stored conf (keptFd s pid) hread
  cases hf.listedCycle hs hp hread with
  | reported _ hrow hslot =>
      refine ⟨by rw [hslot, col.counter_clampSample, hstored], ?_⟩
      rw [RateColumn.charge, hrow, List.map_singleton, List.sum_singleton, col.rate_processRow,
        rate_mul_itv hhz hitv, col.counter_clampSample, hstored]
  | idle hsame hrow hslot =>
      -- a counter that has moved would have been reported
      refine ⟨by rw [hslot, hstored], ?_⟩
      rw [RateColumn.charge, hrow, ← hstored, col.counter_of_same hsame, BitVec.sub_self]
      rfl

end Cycle

/-! ## A run -/

/-- A counter of the kernel: it starts at zero, and between two cycles it moves by less
than the register holds. -/
structure SlowCounter where
  count : ℕ → ℕ
  zero : count 0 = 0
  mono : ∀ n, count n ≤ count (n + 1)
  slow : ∀ n, count (n + 1) - count n < 2 ^ 32

namespace RateColumn

variable {conf : Conf} {cpuFd : List PCFile} {pre : List PtopCycle} {pid : Pid} (col : RateColumn)

/-- The register is read in every cycle. -/
def Shows (pid : Pid) (kc : SlowCounter) (before : List PtopCycle) (c : PtopCycle) : Prop :=
  col.raw pid c.input = reading 32 (kc.count (before.length + 1))

instance (pid : Pid) (kc : SlowCounter) (before : List PtopCycle) (c : PtopCycle) :
    Decidable (col.Shows pid kc before c) := inferInstanceAs (Decidable (_ = _))

/-- The kept counter and the charges, cycle by cycle. -/
theorem charged_run (hpre : ∀ c ∈ pre, pid ∉ c.input.listing) (hhz : conf.hz ≠ 0)
    (kc : SlowCounter) {mid : List PtopCycle} : ∀ {s : PtopState},
      PtopRun conf cpuFd (pre ++ mid) s →
      (∀ c ∈ mid, pid ∈ c.input.listing ∧ Readable (c.input.files pid)) →
      (∀ c ∈ mid, c.output.itv ≠ 0) → EachAfter (col.Shows pid kc) mid →
        col.counter (keptSlot s pid) = reading 32 (kc.count mid.length) ∧
          ((pre ++ mid).map fun c => col.charge conf pid c.output).sum =
            (kc.count mid.length : ℚ) := by
  induction mid using List.reverseRecOn with
  | nil =>
      intro s h _ _ _
      rw [List.append_nil] at h ⊢
      obtain ⟨hnone, hrows⟩ := run_never_listed h hpre
      rw [List.length_nil, kc.zero, keptSlot_of_none hnone]
      refine ⟨by cases col <;> rfl, ?_⟩
      have hzero := sum_map_eq_zero (f := fun c : PtopCycle => col.charge conf pid c.output)
        fun c hc => by rw [charge, hrows c hc]; rfl
      rw [hzero, Nat.cast_zero]
  | append_singleton mid c ih =>
      intro s h hlisted hitv hshows
      rw [← List.append_assoc] at h ⊢
      obtain ⟨hrun, hstep, rfl⟩ := h.snoc_inv
      obtain ⟨hkept, htotal⟩ := ih hrun (fun d hd => hlisted d (List.mem_append_left _ hd))
        (fun d hd => hitv d (List.mem_append_left _ hd)) (eachAfter_snoc.mp hshows).1
      obtain ⟨hp, hread⟩ := hlisted c (by simp)
      have hs := run_stateOk hrun
      have hshow : col.raw pid c.input = reading 32 (kc.count (mid.length + 1)) :=
        (eachAfter_snoc.mp hshows).2
      obtain ⟨hnext, hcharge⟩ := (stateOk_step hs hstep).2.rate_charged hs hp hread hhz
        (hitv c (List.mem_append_right _ (List.mem_singleton_self c))) col
      -- the register gives back the increase of the counter
      obtain ⟨d, hd⟩ := Nat.exists_eq_add_of_le (kc.mono mid.length)
      have hslow : d < 2 ^ 32 := by
        have hslow := kc.slow mid.length
        omega
      have hdiff : (reading 32 (kc.count (mid.length + 1)) -
          reading 32 (kc.count mid.length)).toNat = d := by
        rw [hd, reading_sub_reading, BitVec.toNat_ofNat, Nat.mod_eq_of_lt hslow]
      rw [List.length_append, List.length_singleton]
      refine ⟨hnext.trans hshow, ?_⟩
      rw [List.map_append, List.sum_append, htotal, List.map_singleton, List.sum_singleton,
        hcharge, hkept, hshow, hdiff, hd, Nat.cast_add]

/-- **No fault and no switch is lost.** A process that is not listed at first, and then
listed and readable in every cycle, has its rates add up to what the kernel has counted,
however often the counters have gone past `2 ^ 32`. -/
theorem rates_conserved {mid : List PtopCycle} {s : PtopState}
    (h : PtopRun conf cpuFd (pre ++ mid) s) (hpre : ∀ c ∈ pre, pid ∉ c.input.listing)
    (hlisted : ∀ c ∈ mid, pid ∈ c.input.listing ∧ Readable (c.input.files pid))
    (hhz : conf.hz ≠ 0) (hitv : ∀ c ∈ mid, c.output.itv ≠ 0) (kc : SlowCounter)
    (hshows : EachAfter (col.Shows pid kc) mid) :
    ((pre ++ mid).map fun c => col.charge conf pid c.output).sum = (kc.count mid.length : ℚ) :=
  (col.charged_run hpre hhz kc h hlisted hitv hshows).2

end RateColumn

/-- A process that has given up the processor so many times. -/
def switching (nvcsw : u32) : ProcFiles :=
  { plainFiles { utime := 1 } {} with status := some { nvcsw := nvcsw } }

/-- A busy process, first seen six switches before its counter wraps. -/
def pastTheWrap : List CycleInput :=
  [plainCycle 100 [resident] fun _ => plainFiles {} {},
    plainCycle 200 [resident, visitor] fun _ => switching 0xFFFFFFFA,
    plainCycle 300 [visitor] fun _ => switching 4]

def manySwitches : SlowCounter where
  count
    | 0 => 0
    | 1 => 2 ^ 32 - 6
    | _ => 2 ^ 32 + 4
  zero := rfl
  mono n := by
    rcases n with _ | _ | n <;> simp
  slow n := by
    rcases n with _ | _ | n <;> simp

theorem rates_conserved_pastTheWrap :
    ∃ pre mid s, PtopRun {} [] (pre ++ mid) s ∧ (pre ++ mid).map Transition.input = pastTheWrap ∧
      ((pre ++ mid).map fun c => RateColumn.cswch.charge {} visitor c.output).sum =
        (2 ^ 32 + 4 : ℕ) := by
  obtain ⟨cs, s, hrun, hinput, hlen, hpre, hlisted, hitv, hshows⟩ := exists_run_of_trace
    (mainLoop {}) (systemInit []) pastTheWrap
    (fun cs => cs.length = 3 ∧ (∀ c ∈ cs.take 1, visitor ∉ c.input.listing) ∧
      (∀ c ∈ cs.drop 1, visitor ∈ c.input.listing ∧ Readable (c.input.files visitor)) ∧
      (∀ c ∈ cs.drop 1, c.output.itv ≠ 0) ∧
      EachAfter (RateColumn.cswch.Shows visitor manySwitches) (cs.drop 1)) (by decide +kernel)
  rw [← List.take_append_drop 1 cs] at hrun hinput
  have hcount : manySwitches.count (cs.drop 1).length = 2 ^ 32 + 4 := by
    rw [List.length_drop, hlen]
    rfl
  have hsum := RateColumn.cswch.rates_conserved hrun hpre hlisted (by decide) hitv manySwitches
    hshows
  rw [hcount] at hsum
  exact ⟨cs.take 1, cs.drop 1, s, hrun, hinput, hsum⟩

end PTop
