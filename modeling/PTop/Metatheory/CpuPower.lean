import Mathlib.Algebra.BigOperators.Intervals
import PTop.Metatheory.FrequencyTables

/-!
# The power of the processor

`cpupower` is meant to be the energy of the ticks since the sample before, each
weighted with the power at its frequency. What a run of samples adds up to, and
what short tables, long tables and failed calls make of it.
-/

namespace PTop

open Framework

/-! ## Ticks and their weights -/

/-- The power at the lowest frequency is not negative, nor above that at the highest;
the constants of the program are `6` and `24.5`. -/
structure PowerRange (conf : Conf) : Prop where
  nonneg : 0 ≤ conf.mincpupower
  le : conf.mincpupower ≤ conf.maxcpupower

theorem powerRange_constants : PowerRange { cpufreqStats := true } :=
  ⟨by norm_num, by norm_num⟩

section Weights

variable {conf : Conf} {n : ℕ}

theorem entryPower_bounds (h : conf.mincpupower ≤ conf.maxcpupower) (hn : 2 ≤ n) {i : ℕ}
    (hi : i < n) : conf.mincpupower ≤ entryPower conf n i ∧
      entryPower conf n i ≤ conf.maxcpupower := by
  have hn' : (0 : ℚ) < n - 1 := by
    have : (2 : ℚ) ≤ n := by exact_mod_cast hn
    linarith
  have hi' : (i : ℚ) ≤ n - 1 := by
    have : (i : ℚ) + 1 ≤ n := by exact_mod_cast hi
    linarith
  have hrange : 0 ≤ conf.maxcpupower - conf.mincpupower := sub_nonneg.mpr h
  have hlow : 0 ≤ (conf.maxcpupower - conf.mincpupower) * i / (n - 1) :=
    div_nonneg (mul_nonneg hrange (Nat.cast_nonneg i)) hn'.le
  have hhigh : (conf.maxcpupower - conf.mincpupower) * i / (n - 1) ≤
      conf.maxcpupower - conf.mincpupower := by
    rw [div_le_iff₀ hn']
    exact mul_le_mul_of_nonneg_left hi' hrange
  rw [entryPower]
  constructor <;> linarith

/-- Weighted ticks are between those of the two ends of the range of the weights. -/
theorem weighted_bounds {low high : ℚ} {weight : ℕ → ℚ}
    (h : ∀ i < n, low ≤ weight i ∧ weight i ≤ high) (d : ℕ → ℕ) :
    low * (∑ i ∈ Finset.range n, d i : ℕ) ≤ ∑ i ∈ Finset.range n, weight i * d i ∧
      ∑ i ∈ Finset.range n, weight i * d i ≤ high * (∑ i ∈ Finset.range n, d i : ℕ) := by
  rw [Nat.cast_sum, Finset.mul_sum, Finset.mul_sum]
  constructor
  · refine Finset.sum_le_sum fun i hi => ?_
    exact mul_le_mul_of_nonneg_right (h i (Finset.mem_range.mp hi)).1 (Nat.cast_nonneg _)
  · refine Finset.sum_le_sum fun i hi => ?_
    exact mul_le_mul_of_nonneg_right (h i (Finset.mem_range.mp hi)).2 (Nat.cast_nonneg _)

/-- The ticks wrap as a whole iff `2 ^ 64` divides their number. -/
theorem sum_delta_ne_zero_iff {delta : ℕ → u64} {d : ℕ → ℕ} (hd : ∀ i < 16, (delta i).toNat = d i) :
    ∑ i ∈ Finset.range 16, delta i ≠ 0 ↔ ¬ 2 ^ 64 ∣ ∑ i ∈ Finset.range 16, d i := by
  have hsum : ∑ i ∈ Finset.range 16, (delta i).toNat = ∑ i ∈ Finset.range 16, d i :=
    Finset.sum_congr rfl fun i hi => hd i (Finset.mem_range.mp hi)
  rw [Ne, ← BitVec.toNat_inj, toNat_sum_range, hsum, Nat.dvd_iff_mod_eq_zero]
  rfl

/-- The weighted ticks in exact arithmetic, when the differences are known as numbers. -/
theorem tickPower_eq {delta : ℕ → u64} {d : ℕ → ℕ} (hd : ∀ i < 16, (delta i).toNat = d i)
    (hn : n ≤ 16) : tickPower conf.exact n delta =
      if 2 ≤ n ∧ ¬ 2 ^ 64 ∣ ∑ i ∈ Finset.range 16, d i then
        (∑ i ∈ Finset.range n, entryPower conf n i * d i) / 100
      else 0 := by
  have hweighted : ∑ i ∈ Finset.range n, entryPower conf n i * (delta i).toNat =
      ∑ i ∈ Finset.range n, entryPower conf n i * d i := by
    refine Finset.sum_congr rfl fun i hi => ?_
    rw [hd i ((Finset.mem_range.mp hi).trans_le hn)]
  rw [tickPower_exact, hweighted]
  simp only [sum_delta_ne_zero_iff hd]

end Weights

/-! ## The same with floats -/

/-- A power range of which the two ends and the steps that divide it are floats. -/
structure FloatRange (conf : Conf) : Prop extends PowerRange conf where
  max_kept : Rounding.single conf.maxcpupower = conf.maxcpupower
  min_kept : Rounding.single conf.mincpupower = conf.mincpupower
  steps_kept : ∀ i < 16, Rounding.single ((conf.maxcpupower - conf.mincpupower) * (i : ℕ)) =
    (conf.maxcpupower - conf.mincpupower) * i

theorem floatRange_constants : FloatRange { cpufreqStats := true } :=
  { powerRange_constants with
    max_kept := by decide +kernel
    min_kept := by decide +kernel
    steps_kept := by decide +kernel }

/-- The share by which one operation on floats can miss. -/
def unitRoundoff : ℚ := 1 / 2 ^ 24

section Floats

variable {conf : Conf} {n : ℕ}

/-- The power at entry `i` as a float. -/
def floatPower (conf : Conf) (n i : ℕ) : ℚ :=
  let fl := Rounding.single
  fl.sub conf.maxcpupower (fl.div (fl.mul (fl.sub conf.maxcpupower conf.mincpupower) (fl i))
    (fl (((n : Int) - 1 : Int) : ℚ)))

/-- **The roundings of a weight do not lead out of the range.** -/
theorem floatPower_bounds (h : FloatRange conf) (hn : 2 ≤ n) (hn' : n ≤ 16) {i : ℕ} (hi : i < n) :
    conf.mincpupower ≤ floatPower conf n i ∧ floatPower conf n i ≤ conf.maxcpupower := by
  set range := conf.maxcpupower - conf.mincpupower with hrange
  have hrange₀ : 0 ≤ range := sub_nonneg.mpr h.le
  have hrange_kept : Rounding.single range = range := by
    simpa using h.steps_kept 1 (by norm_num)
  have hlast : (((n : Int) - 1 : Int) : ℚ) = ((n - 1 : ℕ) : ℚ) := by
    rw [Nat.cast_sub (by omega : 1 ≤ n)]
    push_cast
    rfl
  have hsmall : ∀ k : ℕ, k < 16 → Rounding.single (k : ℚ) = k := fun k hk =>
    Rounding.single_natCast (hk.trans (by norm_num))
  have hpos : (0 : ℚ) < (n - 1 : ℕ) := by
    rw [Nat.cast_pos]
    omega
  have hle : (i : ℚ) ≤ (n - 1 : ℕ) := by
    rw [Nat.cast_le]
    omega
  -- the quotient is between zero and the range, and so is what is kept of it
  have hquot : 0 ≤ Rounding.single (range * i / (n - 1 : ℕ)) ∧
      Rounding.single (range * i / (n - 1 : ℕ)) ≤ range := by
    refine ⟨Rounding.nonneg _ (by positivity), ?_⟩
    refine (Rounding.single.mono ?_).trans_eq hrange_kept
    rw [div_le_iff₀ hpos]
    exact mul_le_mul_of_nonneg_left hle hrange₀
  have heq : floatPower conf n i =
      Rounding.single (conf.maxcpupower - Rounding.single (range * i / (n - 1 : ℕ))) := by
    simp only [floatPower, Rounding.sub, Rounding.div, Rounding.mul]
    rw [hlast, hsmall i (hi.trans_le hn'), hsmall (n - 1) (by omega), ← hrange, hrange_kept,
      h.steps_kept i (hi.trans_le hn')]
  rw [heq]
  constructor
  · refine h.min_kept.symm.trans_le (Rounding.single.mono ?_)
    linarith [hquot.2]
  · refine (Rounding.single.mono ?_).trans_eq h.max_kept
    linarith [hquot.1]

/-- One entry: three roundings. -/
theorem deltaPower_bounds (h : FloatRange conf) (hn : 2 ≤ n) (hn' : n ≤ 16) {i : ℕ} (hi : i < n)
    (count : u64) : 0 ≤ floatPower conf n i * count.toNat / 100 ∧
      (1 - unitRoundoff) ^ 3 * (floatPower conf n i * count.toNat / 100) ≤
        deltaPower conf.single ((n : Int) - 1) i count ∧
      deltaPower conf.single ((n : Int) - 1) i count ≤
        (1 + unitRoundoff) ^ 3 * (floatPower conf n i * count.toNat / 100) := by
  have hround : Rounding.single.Within unitRoundoff := Rounding.single_within
  have hcount : (0 : ℚ) ≤ count.toNat := Nat.cast_nonneg _
  have hpower : 0 ≤ floatPower conf n i := h.nonneg.trans (floatPower_bounds h hn hn' hi).1
  have hhundred : Rounding.single 100 = 100 := Rounding.single_natCast (n := 100) (by norm_num)
  have heq : deltaPower conf.single ((n : Int) - 1) i count = Rounding.single (Rounding.single
      (floatPower conf n i * Rounding.single count.toNat) / Rounding.single 100) := rfl
  rw [heq, hhundred]
  have hconv := hround.step (k := 0) (y := count.toNat) hcount (by simp)
  have hmul := hround.step (x := floatPower conf n i * count.toNat)
    (y := floatPower conf n i * Rounding.single count.toNat) (mul_nonneg hpower hcount) ⟨by
      rw [mul_left_comm]
      exact mul_le_mul_of_nonneg_left hconv.1 hpower, by
      rw [mul_left_comm]
      exact mul_le_mul_of_nonneg_left hconv.2 hpower⟩
  have hterm : 0 ≤ floatPower conf n i * count.toNat / 100 := by positivity
  refine ⟨hterm, hround.step hterm ⟨?_, ?_⟩⟩
  · rw [← mul_div_assoc]
    exact div_le_div_of_nonneg_right hmul.1 (by norm_num)
  · rw [← mul_div_assoc]
    exact div_le_div_of_nonneg_right hmul.2 (by norm_num)

/-- **The power of ticks, as floats**: up to nineteen roundings it is between that of the
two ends of the range. -/
theorem tickPower_bounds (h : FloatRange conf) (hn : n ≤ 16) {delta : ℕ → u64} {d : ℕ → ℕ}
    (hd : ∀ i < 16, (delta i).toNat = d i) :
    (2 ≤ n ∧ ¬ 2 ^ 64 ∣ ∑ i ∈ Finset.range 16, d i →
        (1 - unitRoundoff) ^ 19 * (conf.mincpupower * (∑ i ∈ Finset.range n, d i : ℕ) / 100) ≤
          tickPower conf.single n delta) ∧
      tickPower conf.single n delta ≤
        (1 + unitRoundoff) ^ 19 * (conf.maxcpupower * (∑ i ∈ Finset.range n, d i : ℕ) / 100) := by
  have hround : Rounding.single.Within unitRoundoff := Rounding.single_within
  have hmax : 0 ≤ conf.maxcpupower := h.nonneg.trans h.le
  have hguard : 2 ≤ n ∧ ∑ i ∈ Finset.range 16, delta i ≠ 0 ↔
      2 ≤ n ∧ ¬ 2 ^ 64 ∣ ∑ i ∈ Finset.range 16, d i := by rw [sum_delta_ne_zero_iff hd]
  rw [tickPower]
  by_cases hcounts : 2 ≤ n ∧ ∑ i ∈ Finset.range 16, delta i ≠ 0
  · rw [if_pos hcounts]
    obtain ⟨hn₂, -⟩ := hcounts
    have hterms := hround.sum_bounds (l := List.range n) fun i hi =>
      deltaPower_bounds h hn₂ hn (List.mem_range.mp hi) (delta i)
    have hsum : 0 ≤ ((List.range n).map fun i =>
        floatPower conf n i * (delta i).toNat / 100).sum := by
      refine List.sum_nonneg fun x hx => ?_
      obtain ⟨i, hi, rfl⟩ := List.mem_map.mp hx
      exact (deltaPower_bounds h hn₂ hn (List.mem_range.mp hi) (delta i)).1
    rw [List.length_range] at hterms
    obtain ⟨hlow, hhigh⟩ := hround.weaken (by omega : 3 + n ≤ 19) hsum hterms
    -- every weight is within the range
    have hweights : conf.mincpupower * (∑ i ∈ Finset.range n, d i : ℕ) / 100 ≤
          ((List.range n).map fun i => floatPower conf n i * (delta i).toNat / 100).sum ∧
        ((List.range n).map fun i => floatPower conf n i * (delta i).toNat / 100).sum ≤
          conf.maxcpupower * (∑ i ∈ Finset.range n, d i : ℕ) / 100 := by
      have hterm : ∀ i ∈ Finset.range n, floatPower conf n i * (delta i).toNat =
          floatPower conf n i * d i := fun i hi => by
        rw [hd i ((Finset.mem_range.mp hi).trans_le hn)]
      rw [sum_range_eq, ← Finset.sum_div, Finset.sum_congr rfl hterm]
      obtain ⟨hlow, hhigh⟩ := weighted_bounds (fun i hi => floatPower_bounds h hn₂ hn hi) d
      exact ⟨div_le_div_of_nonneg_right hlow (by norm_num),
        div_le_div_of_nonneg_right hhigh (by norm_num)⟩
    refine ⟨fun _ => (mul_le_mul_of_nonneg_left hweights.1 ?_).trans hlow,
      hhigh.trans (mul_le_mul_of_nonneg_left hweights.2 ?_)⟩
    · exact pow_nonneg (sub_nonneg.mpr hround.le_one) 19
    · exact pow_nonneg (add_nonneg zero_le_one hround.nonneg) 19
  · rw [if_neg hcounts]
    refine ⟨fun hguard' => absurd (hguard.mpr hguard') hcounts, ?_⟩
    exact mul_nonneg (pow_nonneg (add_nonneg zero_le_one hround.nonneg) 19)
      (div_nonneg (mul_nonneg hmax (Nat.cast_nonneg _)) (by norm_num))

end Floats

/-! ## Runs of calls -/

/-- One call, as a step on the array. -/
def sampleFreqs (conf : Conf) (dirs : Option (List (Option FreqTable))) (freqs : ℕ → CpuFreqData) :
    Except Stop ((ℕ → CpuFreqData) × ℚ) :=
  let (freqs', sy) := readCpufreqStats conf dirs freqs {}
  .ok (freqs', sy.cpupower)

theorem sampleFreqs_inv {conf : Conf} {dirs : Option (List (Option FreqTable))}
    {freqs freqs' : ℕ → CpuFreqData} {power : ℚ}
    (h : Steps (sampleFreqs conf) dirs freqs freqs' power) :
    freqs' = (readCpufreqStats conf dirs freqs {}).1 ∧
      power = (readCpufreqStats conf dirs freqs {}).2.cpupower := by
  rw [Steps, sampleFreqs] at h
  simp only [Except.ok.injEq, Prod.mk.injEq] at h
  exact ⟨h.1.symm, h.2.symm⟩

abbrev FreqCall := Transition (ℕ → CpuFreqData) (Option (List (Option FreqTable))) ℚ

/-- Runs of calls from the array as the program finds it. -/
abbrev FreqRun (conf : Conf) : List FreqCall → (ℕ → CpuFreqData) → Prop :=
  Run (Steps (sampleFreqs conf)) fun _ => {}

/-- A cycle of the program makes one call. -/
theorem cycle_freqCall {conf : Conf} {inp : CycleInput} {s s' : PtopState} {out : CycleOutput}
    (h : Steps (mainLoop conf) inp s s' out) :
    Steps (sampleFreqs conf) inp.cpufreq s.freqs s'.freqs out.sysRow.cpupower := by
  obtain ⟨sys, pids, st, w, shown, hc, rfl, rfl⟩ := mainLoop_ok_iff.mp h
  obtain ⟨sy, -, hfreqs, hsample⟩ := sampleSystem_sample hc.cpu
  have hcurr : sys.curr = s.curr := (sampleSystem_frame hc.cpu).curr
  have hpower : (outputOf inp sys st w).sysRow.cpupower = (sys.sysStats s.curr).cpupower := by
    simp only [outputOf, writeSystemStats, SysState.addTotals, Function.update_self, hcurr]
  have hshown : (stateAfter inp s sys st w shown).freqs = sys.freqs := by
    show shown.freqs = sys.freqs
    rw [showStage_frame hc.shown]
    rfl
  rw [Steps, hshown, hpower, hfreqs, hsample]
  rfl

/-- **The calls of a run of the program.** -/
theorem run_freqRun {conf : Conf} {cpuFd : List PCFile} {cs : List PtopCycle} {s : PtopState}
    (h : PtopRun conf cpuFd cs s) :
    FreqRun conf (cs.map fun c => ⟨c.pre.freqs, c.input.cpufreq, c.post.freqs,
      c.output.sysRow.cpupower⟩) s.freqs :=
  h.project CycleInput.cpufreq (fun s => s.freqs) (fun out => out.sysRow.cpupower) cycle_freqCall

/-- The ticks that entry `i` shows after a call; a call without a file shows none. -/
def ticksShown (dirs : Option (List (Option FreqTable))) (i : ℕ) : ℕ :=
  ((dirs.bind fun l => shownTicks l i).getD 0).toNat

/-- The ticks that entry `i` shows after these calls. -/
def lastTicks (before : List (Option (List (Option FreqTable)))) (i : ℕ) : ℕ :=
  match before.getLast? with
  | none => 0
  | some dirs => ticksShown dirs i

theorem lastTicks_concat (before : List (Option (List (Option FreqTable))))
    (dirs : Option (List (Option FreqTable))) (i : ℕ) :
    lastTicks (before ++ [dirs]) i = ticksShown dirs i := by
  rw [lastTicks, List.getLast?_concat]

theorem entries_le (dirs : Option (List (Option FreqTable))) :
    (dirs.bind lastEntries).getD 0 ≤ 16 := by
  cases hlast : dirs.bind lastEntries with
  | none => exact Nat.zero_le 16
  | some n =>
      obtain ⟨l, -, hl⟩ := Option.bind_eq_some_iff.mp hlast
      exact lastEntries_le hl

section Run

variable {conf : Conf}

/-- **The array holds what the last call has shown.** -/
theorem freqRun_count (hconf : conf.cpufreqStats = true) {cs : List FreqCall}
    {freqs : ℕ → CpuFreqData} (h : FreqRun conf cs freqs) {i : ℕ} (hi : i < 16) :
    (freqs i).count.toNat = lastTicks (cs.map Transition.input) i := by
  cases h with
  | init => rfl
  | step hrun hstep =>
      obtain ⟨rfl, -⟩ := sampleFreqs_inv hstep
      rw [List.map_append, List.map_singleton, lastTicks_concat, ticksShown,
        readCpufreqStats_count hconf _ _ _ (Nat.le_of_lt_succ hi)]

/-- **The power of a call in a run**, when no entry goes back. -/
theorem freqRun_power (hconf : conf.cpufreqStats = true) {before : List FreqCall} {c : FreqCall}
    {freqs : ℕ → CpuFreqData} (h : FreqRun conf (before ++ [c]) freqs) {d : ℕ → ℕ}
    (hd : ∀ i < 16, ticksShown c.input i = lastTicks (before.map Transition.input) i + d i) :
    ∃ delta : ℕ → u64, (∀ i < 16, (delta i).toNat = d i) ∧
      c.output = tickPower conf ((c.input.bind lastEntries).getD 0) delta := by
  obtain ⟨hrun, hstep, -⟩ := h.snoc_inv
  refine ⟨_, fun i hi => ?_,
    (sampleFreqs_inv hstep).2.trans (readCpufreqStats_power hconf _ _ _)⟩
  have hpre := freqRun_count hconf hrun hi
  have hshown := hd i hi
  rw [ticksShown, ← hpre] at hshown
  rw [BitVec.toNat_sub_of_le, hshown]
  · omega
  · rw [BitVec.le_def]
    omega

end Run

/-- As floats it is within the power at the highest frequency for the ticks that advanced. -/
theorem freqRun_power_le {conf : Conf} (hconf : conf.cpufreqStats = true) (hrange : FloatRange conf)
    {before : List FreqCall} {c : FreqCall} {freqs : ℕ → CpuFreqData}
    (h : FreqRun conf.single (before ++ [c]) freqs) {d : ℕ → ℕ}
    (hd : ∀ i < 16, ticksShown c.input i = lastTicks (before.map Transition.input) i + d i) :
    c.output ≤ (1 + unitRoundoff) ^ 19 *
      (conf.maxcpupower * (∑ i ∈ Finset.range 16, d i : ℕ) / 100) := by
  have hmax : 0 ≤ conf.maxcpupower := hrange.nonneg.trans hrange.le
  obtain ⟨delta, hdelta, hpower⟩ := freqRun_power
    (show conf.single.cpufreqStats = true from hconf) h hd
  have hsub : (∑ i ∈ Finset.range ((c.input.bind lastEntries).getD 0), d i : ℕ) ≤
      ∑ i ∈ Finset.range 16, d i :=
    Finset.sum_le_sum_of_subset (Finset.range_mono (entries_le c.input))
  rw [hpower]
  refine (tickPower_bounds hrange (entries_le c.input) hdelta).2.trans ?_
  refine mul_le_mul_of_nonneg_left ?_ (pow_nonneg (by norm_num [unitRoundoff]) 19)
  refine div_le_div_of_nonneg_right (mul_le_mul_of_nonneg_left ?_ hmax) (by norm_num)
  exact_mod_cast hsub

/-! ## One CPU, with a table of fixed length -/

/-- Of the CPU directories one has a table, of `n` entries. -/
def OneTable (n : ℕ) (dirs : Option (List (Option FreqTable))) : Prop :=
  ∃ l t, dirs = some l ∧ openedTables l = [t] ∧ t.length = n

/-- The ticks of a sample. -/
def elapsedTicks (n : ℕ) (before : List (Option (List (Option FreqTable))))
    (dirs : Option (List (Option FreqTable))) : ℕ :=
  ∑ i ∈ Finset.range n, (ticksShown dirs i - lastTicks before i)

section OneCpu

theorem shown_of_single {dirs : List (Option FreqTable)} {t : FreqTable}
    (h : openedTables dirs = [t]) :
    (∀ i, shownTicks dirs i = tableTicks t i) ∧ lastEntries dirs = some (min 16 t.length) :=
  shown_of_last (show openedTables dirs = [] ++ [t] from h) fun _ hu => absurd hu List.not_mem_nil

variable {n : ℕ} {dirs : Option (List (Option FreqTable))}

theorem OneTable.lastEntries (h : OneTable n dirs) (hn : n ≤ 16) :
    (dirs.bind PTop.lastEntries).getD 0 = n := by
  obtain ⟨l, t, rfl, hl, rfl⟩ := h
  have hlast := (shown_of_single hl).2
  show (PTop.lastEntries l).getD 0 = t.length
  rw [hlast]
  exact Nat.min_eq_right hn

/-- Past the end of the table nothing is shown. -/
theorem OneTable.ticksShown_eq_zero (h : OneTable n dirs) {i : ℕ} (hi : n ≤ i) :
    ticksShown dirs i = 0 := by
  obtain ⟨l, t, rfl, hl, rfl⟩ := h
  have hshown := (shown_of_single hl).1 i
  show ((shownTicks l i).getD 0).toNat = 0
  rw [hshown, tableTicks, List.getElem?_eq_none_iff.mpr hi]
  rfl

theorem lastTicks_eq_zero {before : List (Option (List (Option FreqTable)))}
    (h : ∀ dirs ∈ before, OneTable n dirs) {i : ℕ} (hi : n ≤ i) : lastTicks before i = 0 := by
  unfold lastTicks
  split
  · rfl
  · rename_i dirs hlast
    exact (h dirs (List.mem_of_getLast? hlast)).ticksShown_eq_zero hi

variable {conf : Conf} {before : List FreqCall} {c : FreqCall} {freqs : ℕ → CpuFreqData}

/-- **The power of a sample** in exact arithmetic is that of its ticks, unless they wrap as a
whole. -/
theorem oneTable_power (hconf : conf.cpufreqStats = true) (hn : 2 ≤ n) (hn' : n ≤ 16)
    (h : FreqRun conf.exact (before ++ [c]) freqs) (hbefore : ∀ b ∈ before, OneTable n b.input)
    (hc : OneTable n c.input)
    (hmono : ∀ i < n, lastTicks (before.map Transition.input) i ≤ ticksShown c.input i)
    (hwrap : 2 ^ 64 ∣ elapsedTicks n (before.map Transition.input) c.input →
      elapsedTicks n (before.map Transition.input) c.input = 0) :
    c.output = (∑ i ∈ Finset.range n, entryPower conf n i *
      ((ticksShown c.input i : ℚ) - lastTicks (before.map Transition.input) i)) / 100 := by
  set last := lastTicks (before.map Transition.input) with hlast
  set d : ℕ → ℕ := fun i => ticksShown c.input i - last i with hd
  have houtside : ∀ i, n ≤ i → ticksShown c.input i = 0 ∧ last i = 0 := by
    intro i hi
    refine ⟨hc.ticksShown_eq_zero hi, lastTicks_eq_zero (n := n) (fun dirs hdirs => ?_) hi⟩
    obtain ⟨b, hb, rfl⟩ := List.mem_map.mp hdirs
    exact hbefore b hb
  have hsplit : ∀ i < 16, ticksShown c.input i = last i + d i := by
    intro i _
    rcases Nat.lt_or_ge i n with hi | hi
    · exact (Nat.add_sub_cancel' (hmono i hi)).symm
    · obtain ⟨hc₀, hl₀⟩ := houtside i hi
      show ticksShown c.input i = last i + (ticksShown c.input i - last i)
      rw [hc₀, hl₀]
  have htotal : ∑ i ∈ Finset.range 16, d i = ∑ i ∈ Finset.range n, d i := by
    refine (Finset.sum_subset (Finset.range_mono hn') fun i _ hi => ?_).symm
    have hni : n ≤ i := Nat.le_of_not_lt fun hlt => hi (Finset.mem_range.mpr hlt)
    show ticksShown c.input i - last i = 0
    rw [(houtside i hni).1, Nat.zero_sub]
  have hterm : ∑ i ∈ Finset.range n, entryPower conf n i * (d i : ℚ) =
      ∑ i ∈ Finset.range n, entryPower conf n i * ((ticksShown c.input i : ℚ) - last i) := by
    refine Finset.sum_congr rfl fun i hi => ?_
    rw [hd, Nat.cast_sub (hmono i (Finset.mem_range.mp hi))]
  obtain ⟨delta, hdelta, hpower⟩ := freqRun_power
    (show conf.exact.cpufreqStats = true from hconf) h hsplit
  rw [hpower, hc.lastEntries hn', tickPower_eq hdelta hn', htotal, ← hterm]
  by_cases hdvd : 2 ^ 64 ∣ ∑ i ∈ Finset.range n, d i
  · -- then no entry has advanced
    have hzero : ∑ i ∈ Finset.range n, d i = 0 := hwrap hdvd
    rw [if_neg fun hguard => hguard.2 hdvd]
    have hall : ∀ i ∈ Finset.range n, d i = 0 := Finset.sum_eq_zero_iff.mp hzero
    rw [Finset.sum_eq_zero fun i hi => by rw [hall i hi, Nat.cast_zero, mul_zero], zero_div]
  · rw [if_pos ⟨hn, hdvd⟩]

end OneCpu

/-- **The sums telescope**, whatever the samples are. -/
theorem sum_output_telescope {conf : Conf} {n : ℕ} {cs : List FreqCall}
    (h : EachAfter (fun before c => c.output = (∑ i ∈ Finset.range n, entryPower conf n i *
      ((ticksShown c.input i : ℚ) - lastTicks (before.map Transition.input) i)) / 100) cs) :
    (cs.map Transition.output).sum = (∑ i ∈ Finset.range n, entryPower conf n i *
      (lastTicks (cs.map Transition.input) i : ℚ)) / 100 := by
  induction cs using List.reverseRecOn with
  | nil => simp [lastTicks]
  | append_singleton cs c ih =>
      obtain ⟨hcs, hc⟩ := eachAfter_snoc.mp h
      simp only [List.map_append, List.map_singleton, List.sum_append, List.sum_singleton,
        lastTicks_concat]
      rw [ih hcs, hc, ← add_div, ← Finset.sum_add_distrib]
      congr 1
      refine Finset.sum_congr rfl fun i _ => ?_
      ring

/-- **Ticks are conserved** in exact arithmetic: the powers of the samples of a run add up
to the weighted final counts, and each is within the power range for the ticks of its
sample. -/
theorem cpupower_conserved {conf : Conf} (hconf : conf.cpufreqStats = true)
    (hrange : PowerRange conf) {n : ℕ} (hn : 2 ≤ n) (hn' : n ≤ 16) {cs : List FreqCall}
    {freqs : ℕ → CpuFreqData} (h : FreqRun conf.exact cs freqs)
    (htable : ∀ c ∈ cs, OneTable n c.input)
    (hmono : EachAfter (fun before dirs => ∀ i < n, lastTicks before i ≤ ticksShown dirs i)
      (cs.map Transition.input))
    (hwrap : EachAfter (fun before dirs => 2 ^ 64 ∣ elapsedTicks n before dirs →
      elapsedTicks n before dirs = 0) (cs.map Transition.input)) :
    (cs.map Transition.output).sum = (∑ i ∈ Finset.range n, entryPower conf n i *
        (lastTicks (cs.map Transition.input) i : ℚ)) / 100 ∧
      EachAfter (fun before c =>
        conf.mincpupower * (elapsedTicks n (before.map Transition.input) c.input : ℚ) / 100 ≤
            c.output ∧
          c.output ≤
            conf.maxcpupower * (elapsedTicks n (before.map Transition.input) c.input : ℚ) / 100)
        cs := by
  rw [eachAfter_map] at hmono hwrap
  have hpower : EachAfter (fun before c => c.output = (∑ i ∈ Finset.range n,
      entryPower conf n i *
        ((ticksShown c.input i : ℚ) - lastTicks (before.map Transition.input) i)) / 100) cs := by
    rintro before c after rfl
    exact oneTable_power hconf hn hn' h.up_to
      (fun b hb => htable b (List.mem_append_left _ hb))
      (htable c (List.mem_append_right _ List.mem_cons_self)) (hmono before c after rfl)
      (hwrap before c after rfl)
  refine ⟨sum_output_telescope hpower, ?_⟩
  intro before c after hcs
  have hcast : ∑ i ∈ Finset.range n, entryPower conf n i *
      ((ticksShown c.input i : ℚ) - lastTicks (before.map Transition.input) i) =
      ∑ i ∈ Finset.range n, entryPower conf n i *
        ((ticksShown c.input i - lastTicks (before.map Transition.input) i : ℕ) : ℚ) := by
    refine Finset.sum_congr rfl fun i hi => ?_
    rw [Nat.cast_sub (hmono before c after hcs i (Finset.mem_range.mp hi))]
  obtain ⟨hlow, hhigh⟩ := weighted_bounds (fun i hi => entryPower_bounds hrange.le hn hi)
    fun i => ticksShown c.input i - lastTicks (before.map Transition.input) i
  rw [hpower before c after hcs, hcast]
  constructor
  · exact div_le_div_of_nonneg_right hlow (by norm_num)
  · exact div_le_div_of_nonneg_right hhigh (by norm_num)

/-- A table of two entries, twice. -/
def steadySamples : List (Option (List (Option FreqTable))) :=
  [some [none, some [(2000, 10), (1000, 50)]], some [none, some [(2000, 30), (1000, 60)]]]

theorem steadySamples_oneTable : ∀ dirs ∈ steadySamples, OneTable 2 dirs := by
  intro dirs hdirs
  rcases List.mem_pair.mp hdirs with rfl | rfl
  · exact ⟨_, _, rfl, rfl, rfl⟩
  · exact ⟨_, _, rfl, rfl, rfl⟩

theorem cpupower_conserved_steady :
    ∃ cs freqs, FreqRun (Conf.exact { cpufreqStats := true }) cs freqs ∧
      cs.map Transition.input = steadySamples ∧
      (cs.map Transition.output).sum = (∑ i ∈ Finset.range 2,
        entryPower { cpufreqStats := true } 2 i * (lastTicks steadySamples i : ℚ)) / 100 := by
  obtain ⟨cs, freqs, h, hinput, -⟩ := exists_run_of_trace
    (sampleFreqs (Conf.exact { cpufreqStats := true })) (fun _ => {}) steadySamples
    (fun _ => True) (by decide)
  have htable : ∀ c ∈ cs, OneTable 2 c.input :=
    fun c hc => steadySamples_oneTable _ (hinput ▸ List.mem_map_of_mem hc)
  have hboth := cpupower_conserved rfl powerRange_constants le_rfl (by decide) h htable
    (hinput ▸ by decide) (hinput ▸ by decide)
  exact ⟨cs, freqs, h, hinput, hinput ▸ hboth.1⟩

/-- Two entries with `2 ^ 63` ticks each. -/
def halfAndHalf : Option (List (Option FreqTable)) := some [some [(2000, 2 ^ 63), (1000, 2 ^ 63)]]

/-- Ticks that add up to `2 ^ 64` count for nothing. -/
theorem wrapped_ticks_count_nothing :
    ∃ c freqs, FreqRun (Conf.exact { cpufreqStats := true }) [c] freqs ∧ OneTable 2 c.input ∧
      (∀ i < 2, lastTicks [] i ≤ ticksShown c.input i) ∧ c.output = 0 ∧
      ¬ Conf.mincpupower {} * (elapsedTicks 2 [] c.input : ℚ) / 100 ≤ c.output ∧
      ¬ c.output = (∑ i ∈ Finset.range 2,
        entryPower { cpufreqStats := true } 2 i * (lastTicks [c.input] i : ℚ)) / 100 := by
  have hpower : (readCpufreqStats (Conf.exact { cpufreqStats := true }) halfAndHalf (fun _ => {})
      {}).2.cpupower = 0 := by decide +kernel
  refine ⟨⟨fun _ => {}, halfAndHalf, _, _⟩, _, Run.init.step rfl, ⟨_, _, rfl, rfl, rfl⟩,
    by decide +kernel, hpower, ?_, ?_⟩
  · show ¬ _ ≤ (readCpufreqStats (Conf.exact { cpufreqStats := true }) halfAndHalf (fun _ => {})
      {}).2.cpupower
    rw [hpower]
    decide +kernel
  · show ¬ (readCpufreqStats (Conf.exact { cpufreqStats := true }) halfAndHalf (fun _ => {})
      {}).2.cpupower = _
    rw [hpower]
    decide +kernel

/-! ## One CPU, with a table of any length -/

section AnyLength

variable {conf : Conf} {t t' : FreqTable}

end AnyLength

end PTop
