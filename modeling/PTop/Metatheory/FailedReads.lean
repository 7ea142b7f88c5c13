import PTop.Framework.Sources
import PTop.Metatheory.CpuPower

/-!
# What a failed read leaves behind

Differences are formed against what the call before has stored. A call that fails
stores zeros, so the next difference is taken against zero and not against the last
value that was read.
-/

namespace PTop

open Framework

/-! ## Calls of `read_cpufreq_stats` that fail -/

/-- A call with what it could have read: the ticks of each CPU at each frequency so
far, and the CPU directories in `readdir` order with the files that open. -/
structure FreqSample where
  ticks : ℕ → ℕ → ℕ
  dirs : Option (List (ℕ × Option FreqTable))

namespace FreqSample

def files (s : FreqSample) : Option (List (Option FreqTable)) := s.dirs.map (List.map Prod.snd)

/-- The directory opens, and so does a file. -/
def opens (s : FreqSample) : Bool :=
  match s.dirs with
  | none => false
  | some l => l.any fun d => d.2.isSome

/-- The files show the ticks of their CPUs, which are among `cpus`. -/
structure Sound (cpus : Finset ℕ) (s : FreqSample) : Prop where
  cpus : ∀ l ∈ s.dirs, ∀ d ∈ l, d.1 ∈ cpus
  ticks : ∀ l ∈ s.dirs, ∀ d ∈ l, ∀ t ∈ d.2, ∀ i, ∀ v ∈ tableTicks t i, v.toNat = s.ticks d.1 i

/-- It is enough to look at the lines there are. -/
theorem sound_iff {cpus : Finset ℕ} {s : FreqSample} : s.Sound cpus ↔
    ∀ l ∈ s.dirs, ∀ d ∈ l, d.1 ∈ cpus ∧
      ∀ t ∈ d.2, ∀ line ∈ t.zipIdx, line.1.2.toNat = s.ticks d.1 line.2 := by
  constructor
  · intro h l hl d hd
    refine ⟨h.cpus l hl d hd, fun t ht line hline => h.ticks l hl d hd t ht line.2 _ ?_⟩
    exact congrArg (Option.map Prod.snd) (List.mem_zipIdx_iff_getElem?.mp hline)
  · intro h
    refine ⟨fun l hl d hd => (h l hl d hd).1, fun l hl d hd t ht i v hv => ?_⟩
    obtain ⟨line, hline, rfl⟩ := Option.map_eq_some_iff.mp hv
    exact (h l hl d hd).2 t ht (line, i) (List.mem_zipIdx_iff_getElem?.mpr hline)

instance (cpus : Finset ℕ) (s : FreqSample) : Decidable (s.Sound cpus) :=
  decidable_of_iff _ sound_iff.symm

/-- What entry `i` shows, and of which CPU. -/
def shown (s : FreqSample) (i : ℕ) : Option (ℕ × u64) :=
  s.dirs.bind fun l => lastWrite
    (l.filterMap fun d => d.2.map fun t j => (tableTicks t j).map fun v => (d.1, v)) i

theorem shown_ticks (s : FreqSample) (i : ℕ) :
    ticksShown s.files i = (((s.shown i).map Prod.snd).getD 0).toNat := by
  rw [ticksShown, files, shown]
  cases s.dirs with
  | none => rfl
  | some l =>
      show ((shownTicks (l.map Prod.snd) i).getD 0).toNat = _
      rw [Option.bind_some, ← lastWrite_map]
      congr 3
      rw [shownTicks]
      congr 1
      rw [openedTables, List.filterMap_map, List.map_filterMap, List.map_filterMap]
      apply List.filterMap_congr
      rintro ⟨cpu, file⟩ _
      cases file with
      | none => rfl
      | some t =>
          show some (tableTicks t) = some fun j => ((tableTicks t j).map _).map _
          congr 1
          funext j
          cases tableTicks t j <;> rfl

theorem Sound.of_shown {cpus : Finset ℕ} {s : FreqSample} (h : s.Sound cpus) {i cpu : ℕ} {v : u64}
    (hs : s.shown i = some (cpu, v)) : cpu ∈ cpus ∧ v.toNat = s.ticks cpu i := by
  obtain ⟨l, hl, hlast⟩ := Option.bind_eq_some_iff.mp hs
  obtain ⟨w, hw, hwi⟩ := mem_of_lastWrite hlast
  obtain ⟨d, hd, hdw⟩ := List.mem_filterMap.mp hw
  obtain ⟨t, ht, rfl⟩ := Option.map_eq_some_iff.mp hdw
  obtain ⟨v', hv', heq⟩ := Option.map_eq_some_iff.mp hwi
  cases heq
  exact ⟨h.cpus l hl d hd, h.ticks l hl d hd t ht i v hv'⟩

/-- A call that fails shows nothing. -/
theorem shown_of_not_opens {s : FreqSample} (h : s.opens = false) (i : ℕ) : s.shown i = none := by
  rw [shown, Option.bind_eq_none_iff]
  intro l hl
  have hclosed : ∀ d ∈ l, d.2 = none := by
    rw [opens, hl] at h
    intro d hd
    simpa using List.any_eq_false.mp h d hd
  have hnil : (l.filterMap fun d => d.2.map fun t j =>
      (tableTicks t j).map fun v => (d.1, v)) = [] := by
    rw [List.filterMap_eq_nil_iff]
    intro d hd
    rw [hclosed d hd, Option.map_none]
  rw [hnil]
  rfl

/-- The ticks that a call shows are ticks of its CPUs. -/
theorem Sound.ticksShown_eq {cpus : Finset ℕ} {s : FreqSample} (h : s.Sound cpus) (i : ℕ) :
    ticksShown s.files i =
      match s.shown i with
      | none => 0
      | some (cpu, _) => s.ticks cpu i := by
  rw [shown_ticks]
  cases hs : s.shown i with
  | none => rfl
  | some p => exact (h.of_shown hs).2

theorem ticksShown_of_not_opens {s : FreqSample} (h : s.opens = false) (i : ℕ) :
    ticksShown s.files i = 0 := by
  rw [shown_ticks, shown_of_not_opens h]
  rfl

end FreqSample

/-- The last call that was successful. -/
def lastOpened (before : List FreqSample) : Option FreqSample :=
  (before.filter FreqSample.opens).getLast?

theorem lastOpened_concat (front : List FreqSample) (p : FreqSample) :
    lastOpened (front ++ [p]) = if p.opens then some p else lastOpened front := by
  rw [lastOpened, List.filter_append]
  cases hp : p.opens with
  | true =>
      rw [List.filter_cons_of_pos hp, List.filter_nil, List.getLast?_concat]
      rfl
  | false =>
      rw [List.filter_cons_of_neg (by simp [hp]), List.filter_nil, List.append_nil]
      rfl

/-- The ticks at that call; none before the first. -/
def lastSeen (before : List FreqSample) : ℕ → ℕ → ℕ :=
  match lastOpened before with
  | none => fun _ _ => 0
  | some s => s.ticks

/-- The ticks of all CPUs since the last successful call, in the entries the array has. -/
def ticksSince (cpus : Finset ℕ) (before : List FreqSample) (s : FreqSample) : ℕ :=
  ∑ cpu ∈ cpus, ∑ i ∈ Finset.range 16, (s.ticks cpu i - lastSeen before cpu i)

/-- What the CPU that entry `i` shows had counted there at the last successful call. -/
def lastCounted (before : List FreqSample) (s : FreqSample) (i : ℕ) : ℕ :=
  match s.shown i with
  | none => 0
  | some (cpu, _) => lastSeen before cpu i

/-- What the call before has left in the array is not behind the last successful call of
the CPUs shown now, nor ahead of what they show: no call has failed in between, unless
nothing had been counted, and an entry shows the CPU it showed then, or one like it. -/
def BaselineKept (before : List FreqSample) (s : FreqSample) : Prop :=
  ∀ i < 16, lastCounted before s i ≤ lastTicks (before.map FreqSample.files) i ∧
    lastTicks (before.map FreqSample.files) i ≤ ticksShown s.files i

instance (before : List FreqSample) (s : FreqSample) : Decidable (BaselineKept before s) :=
  inferInstanceAs (Decidable (∀ i < 16, _ ∧ _))

/-- Before the first successful call the baseline is kept. -/
theorem baselineKept_of_none {before : List FreqSample} (s : FreqSample)
    (h : lastOpened before = none) : BaselineKept before s := by
  have hseen : ∀ i, lastCounted before s i = 0 := by
    intro i
    rw [lastCounted]
    cases s.shown i with
    | none => rfl
    | some p =>
        rw [lastSeen, h]
  have hlast : ∀ i, lastTicks (before.map FreqSample.files) i = 0 := by
    intro i
    rcases List.eq_nil_or_concat' before with rfl | ⟨front, p, rfl⟩
    · rfl
    · -- the last call has failed, so the array has been cleared
      have hp : p.opens = false := by
        by_contra hopens
        rw [lastOpened_concat, if_pos (by simpa using hopens)] at h
        cases h
      rw [List.map_append, List.map_singleton, lastTicks_concat,
        FreqSample.ticksShown_of_not_opens hp]
  intro i _
  rw [hseen, hlast]
  exact ⟨le_rfl, Nat.zero_le _⟩

/-- What an entry has advanced over the array is no more than what its CPU has. -/
theorem BaselineKept.sum_advance_le {cpus : Finset ℕ} {before : List FreqSample} {s : FreqSample}
    (h : BaselineKept before s) (hs : s.Sound cpus) :
    ∑ i ∈ Finset.range 16, (ticksShown s.files i - lastTicks (before.map FreqSample.files) i) ≤
      ticksSince cpus before s := by
  rw [ticksSince, Finset.sum_comm]
  refine Finset.sum_le_sum fun i hi => ?_
  have hle := (h i (Finset.mem_range.mp hi)).1
  rw [lastCounted] at hle
  rw [hs.ticksShown_eq]
  cases hshown : s.shown i with
  | none => exact (Nat.zero_sub _).trans_le (Nat.zero_le _)
  | some p =>
      rw [hshown] at hle
      refine (Nat.sub_le_sub_left hle _).trans ?_
      exact Finset.single_le_sum (f := fun cpu => s.ticks cpu i - lastSeen before cpu i)
        (fun _ _ => Nat.zero_le _) (hs.of_shown hshown).1

/-- One call, with what it could have read. -/
def sampleStep (conf : Conf) (s : FreqSample) (freqs : ℕ → CpuFreqData) :
    Except Stop ((ℕ → CpuFreqData) × ℚ) := sampleFreqs conf s.files freqs

abbrev SampleCall := Transition (ℕ → CpuFreqData) FreqSample ℚ

abbrev SampleRun (conf : Conf) : List SampleCall → (ℕ → CpuFreqData) → Prop :=
  Run (Steps (sampleStep conf)) fun _ => {}

theorem sampleRun_freqRun {conf : Conf} {cs : List SampleCall} {freqs : ℕ → CpuFreqData}
    (h : SampleRun conf cs freqs) :
    FreqRun conf (cs.map fun c => ⟨c.pre, c.input.files, c.post, c.output⟩) freqs :=
  h.project FreqSample.files (fun freqs => freqs) (fun power => power) fun hstep => hstep

/-- **Power after failed calls**: up to nineteen roundings, each successful call for which
the baseline is kept is within the power at the highest frequency for the ticks since the
last successful one. -/
theorem cpupower_after_failures {conf : Conf} (hconf : conf.cpufreqStats = true)
    (hrange : FloatRange conf) {cpus : Finset ℕ} {cs : List SampleCall}
    {freqs : ℕ → CpuFreqData} (h : SampleRun conf.single cs freqs)
    (hsound : ∀ c ∈ cs, c.input.Sound cpus) :
    EachAfter (fun before c => c.input.opens = true →
      (lastOpened (before.map Transition.input) ≠ none →
        BaselineKept (before.map Transition.input) c.input) →
      c.output ≤ (1 + unitRoundoff) ^ 19 *
        (conf.maxcpupower * ticksSince cpus (before.map Transition.input) c.input / 100)) cs := by
  rintro before c after rfl - hkept
  have hkept : BaselineKept (before.map Transition.input) c.input := by
    by_cases hnone : lastOpened (before.map Transition.input) = none
    · exact baselineKept_of_none c.input hnone
    · exact hkept hnone
  have hc : c.input.Sound cpus := hsound c (List.mem_append_right _ List.mem_cons_self)
  have hrun := sampleRun_freqRun h.up_to
  rw [List.map_append, List.map_singleton] at hrun
  refine (freqRun_power_le hconf hrange hrun (d := fun i => ticksShown c.input.files i -
    lastTicks ((before.map Transition.input).map FreqSample.files) i) fun i hi => ?_).trans ?_
  · have hle := (hkept i hi).2
    rw [List.map_map] at hle ⊢
    rw [List.map_map]
    exact (Nat.add_sub_cancel' hle).symm
  · refine mul_le_mul_of_nonneg_left ?_ (pow_nonneg (by norm_num [unitRoundoff]) 19)
    refine div_le_div_of_nonneg_right (mul_le_mul_of_nonneg_left ?_
      (hrange.nonneg.trans hrange.le)) (by norm_num)
    exact_mod_cast hkept.sum_advance_le hc

/-- A CPU with two frequencies, whose file opens or does not. -/
def twoSpeed (high low : u64) (readable : Bool) : FreqSample where
  ticks := fun _ i => match i with
    | 0 => high.toNat
    | 1 => low.toNat
    | _ => 0
  dirs := some [(0, if readable then some [(2000, high), (1000, low)] else none)]

/-- Two CPUs with the same counts, whose files open; `swapped` is the order of the files. -/
def twins (high low : u64) (swapped : Bool) : FreqSample where
  ticks := (twoSpeed high low true).ticks
  dirs := some [(if swapped then 1 else 0, some [(2000, high), (1000, low)]),
    (if swapped then 0 else 1, some [(2000, high), (1000, low)])]

/-- Three calls: no file opens in the first, and the other two read the files of two CPUs
in different orders. -/
def lateStart : List FreqSample :=
  [⟨(twins 5 5 true).ticks, none⟩, twins 10 5 false, twins 30 7 true]

/-- Three calls: the file does not open in the second. -/
def interrupted : List FreqSample := [twoSpeed 10 0 true, twoSpeed 15 0 false, twoSpeed 20 0 true]

theorem cpupower_after_failures_lateStart :
    ∃ cs freqs, SampleRun (Conf.single { cpufreqStats := true }) cs freqs ∧
      cs.map Transition.input = lateStart ∧
      EachAfter (fun before c => c.input.opens = true → c.output ≤ (1 + unitRoundoff) ^ 19 *
        (Conf.maxcpupower {} * ticksSince {0, 1} (before.map Transition.input) c.input / 100))
        cs := by
  obtain ⟨cs, freqs, h, hinput, hkept⟩ := exists_run_of_trace
    (sampleStep (Conf.single { cpufreqStats := true })) (fun _ => {}) lateStart
    (fun cs => EachAfter (fun before c => c.input.opens = true →
      BaselineKept (before.map Transition.input) c.input) cs) (by decide +kernel)
  have hsound : ∀ s ∈ lateStart, s.Sound {0, 1} := by decide
  have hsound : ∀ c ∈ cs, c.input.Sound {0, 1} :=
    fun c hc => hsound c.input (hinput ▸ List.mem_map_of_mem hc)
  refine ⟨cs, freqs, h, hinput, ?_⟩
  intro before c after hcs hopens
  exact cpupower_after_failures rfl floatRange_constants h hsound before c after hcs hopens
    fun _ => hkept before c after hcs hopens

/-- Two CPUs, of which the first has counted; `swapped` is the order of the files. -/
def oneBusy (swapped : Bool) : FreqSample where
  ticks := fun cpu i => if cpu = 0 ∧ i = 0 then 100 else 0
  dirs :=
    let busy := (0, some [(2000, 100), (1000, 0)])
    let idle := (1, some [(2000, 0), (1000, 0)])
    some (if swapped then [idle, busy] else [busy, idle])

/-- Two calls between which nothing is counted. -/
def inOtherOrder : List FreqSample := [oneBusy false, oneBusy true]

/-- The float of ten ticks is above their power; the ticks before a failed call are counted
again after it; and without a failure, so are those of the CPU whose file comes last now. -/
theorem failed_call_forgets_baseline :
    (∃ cs freqs, SampleRun (Conf.single { cpufreqStats := true }) cs freqs ∧
      cs.map Transition.input = interrupted ∧ (∀ s ∈ interrupted, s.Sound {0}) ∧
      EachAfter (fun before s => ∀ cpu ∈ ({0} : Finset ℕ), ∀ i < 16, lastSeen before cpu i ≤
        s.ticks cpu i) interrupted ∧
      cs.map Transition.output =
        [Rounding.single (245 / 100), 0, Rounding.single (490 / 100)] ∧
      245 / 100 < Rounding.single (245 / 100) ∧
      ¬ EachAfter (fun before c => c.input.opens = true → c.output ≤ Conf.maxcpupower {} / 100 *
        ticksSince {0} (before.map Transition.input) c.input) cs) ∧
    ∃ cs freqs, SampleRun (Conf.single { cpufreqStats := true }) cs freqs ∧
      cs.map Transition.input = inOtherOrder ∧
      (∀ s ∈ inOtherOrder, s.Sound {0, 1} ∧ s.opens = true) ∧
      cs.map Transition.output = [0, 49 / 2] ∧
      ¬ EachAfter (fun before c => c.input.opens = true → c.output ≤ Conf.maxcpupower {} / 100 *
        ticksSince {0, 1} (before.map Transition.input) c.input) cs := by
  constructor
  · obtain ⟨cs, freqs, h, hinput, houtput, hnot⟩ := exists_run_of_trace
      (sampleStep (Conf.single { cpufreqStats := true })) (fun _ => {}) interrupted
      (fun cs => cs.map Transition.output =
          [Rounding.single (245 / 100), 0, Rounding.single (490 / 100)] ∧
        ¬ EachAfter (fun before c => c.input.opens = true →
          c.output ≤ Conf.maxcpupower {} / 100 *
            ticksSince {0} (before.map Transition.input) c.input) cs) (by decide +kernel)
    exact ⟨cs, freqs, h, hinput, by decide, by decide, houtput, by decide +kernel, hnot⟩
  · obtain ⟨cs, freqs, h, hinput, houtput, hnot⟩ := exists_run_of_trace
      (sampleStep (Conf.single { cpufreqStats := true })) (fun _ => {}) inOtherOrder
      (fun cs => cs.map Transition.output = [0, 49 / 2] ∧
        ¬ EachAfter (fun before c => c.input.opens = true →
          c.output ≤ Conf.maxcpupower {} / 100 *
            ticksSince {0, 1} (before.map Transition.input) c.input) cs) (by decide +kernel)
    exact ⟨cs, freqs, h, hinput, by decide, houtput, hnot⟩

/-! ## Counters of the machine that cannot be read -/

/-- A counter of the kernel: where it stands in each cycle. -/
abbrev KernelCounter := { f : ℕ → ℕ // Monotone f }

/-- The counters behind the sample of the machine: of the interface, and of each CPU. -/
structure KernelCounters where
  rcv : KernelCounter
  snd : KernelCounter
  misses : ℕ → KernelCounter

/-- A cycle cannot read the counters, or reads where they stand. -/
structure KernelCounters.Reads (kc : KernelCounters) (cpuFd : List PCFile)
    (before : List PtopCycle) (c : PtopCycle) : Prop where
  net : c.input.net = none ∨ c.input.net =
    some (reading 64 (kc.rcv.1 before.length), reading 64 (kc.snd.1 before.length))
  misses : ∀ k < cpuFd.length, c.input.cpuCounter k = none ∨
    c.input.cpuCounter k = some (reading 64 ((kc.misses k).1 before.length))

instance (kc : KernelCounters) (cpuFd : List PCFile) (before : List PtopCycle) (c : PtopCycle) :
    Decidable (kc.Reads cpuFd before c) :=
  decidable_of_iff (_ ∧ _) ⟨fun h => ⟨h.1, h.2⟩, fun h => ⟨h.net, h.misses⟩⟩

/-- A counter of the interface, read in the cycles that find the interface. -/
def netSource (k : KernelCounter) : Source PtopCycle where
  counter := k.1
  grows := k.2
  readable := fun c => c.input.net.isSome

/-- The counter of a CPU, read in the cycles in which its descriptor answers. -/
def cpuSource (kc : KernelCounters) (p : PCFile × ℕ) : Source PtopCycle where
  counter := (kc.misses p.2).1
  grows := (kc.misses p.2).2
  readable := fun c => 0 < p.1 && (c.input.cpuCounter p.2).isSome

theorem netSource_stored {kc : KernelCounters} {cpuFd : List PCFile} {before : List PtopCycle}
    {c : PtopCycle} (h : kc.Reads cpuFd before c) :
    (netSource kc.rcv).stored 64 before c = (c.input.net.getD (0, 0)).1 ∧
      (netSource kc.snd).stored 64 before c = (c.input.net.getD (0, 0)).2 := by
  rcases h.net with hnet | hnet
  · have hno : c.input.net.isSome = false := congrArg Option.isSome hnet
    rw [Source.stored_of_not_readable _ hno, Source.stored_of_not_readable _ hno, hnet]
    exact ⟨rfl, rfl⟩
  · have hread : c.input.net.isSome = true := congrArg Option.isSome hnet
    rw [Source.stored_of_readable _ hread, Source.stored_of_readable _ hread, hnet]
    exact ⟨rfl, rfl⟩

theorem cpuSource_stored {kc : KernelCounters} {cpuFd : List PCFile} {before : List PtopCycle}
    {c : PtopCycle} (h : kc.Reads cpuFd before c) {p : PCFile × ℕ} (hp : p.2 < cpuFd.length) :
    (cpuSource kc p).stored 64 before c = readCounter p.1 (c.input.cpuCounter p.2) := by
  rw [readCounter]
  by_cases hfd : p.1 ≤ 0
  · rw [if_pos hfd, Source.stored_of_not_readable]
    exact Bool.and_eq_false_iff.mpr (Or.inl (decide_eq_false (not_lt.mpr hfd)))
  · rw [if_neg hfd]
    rcases h.misses p.2 hp with hv | hv
    · rw [hv, Source.stored_of_not_readable]
      · rfl
      · exact Bool.and_eq_false_iff.mpr (Or.inr (congrArg Option.isSome hv))
    · rw [hv, Source.stored_of_readable]
      · rfl
      · exact Bool.and_eq_true_iff.mpr ⟨decide_eq_true (not_le.mp hfd), congrArg Option.isSome hv⟩

/-- The columns of a row of the machine that come from counters. -/
inductive Figure where
  | netrcv
  | netsend
  | memaccess

namespace Figure

def column : Figure → SysInfo → u64
  | netrcv => SysInfo.totalnetrcv
  | netsend => SysInfo.totalnetsnd
  | memaccess => SysInfo.memaccess

/-- What a cycle reads for the column. -/
def read (cpuFd : List PCFile) (inp : CycleInput) : Figure → u64
  | netrcv => (inp.net.getD (0, 0)).1
  | netsend => (inp.net.getD (0, 0)).2
  | memaccess => readCpuCounter cpuFd inp.cpuCounter

/-- The counters that it adds up. -/
def sources (kc : KernelCounters) (cpuFd : List PCFile) : Figure → List (Source PtopCycle)
  | netrcv => [netSource kc.rcv]
  | netsend => [netSource kc.snd]
  | memaccess => cpuFd.zipIdx.map (cpuSource kc)

/-- The row records no more than the counters have advanced by since each was last read. -/
def RecordedWithin (kc : KernelCounters) (cpuFd : List PCFile) (fig : Figure)
    (before : List PtopCycle) (c : PtopCycle) : Prop :=
  (fig.column c.output.sysRow).toNat ≤
    ((fig.sources kc cpuFd).map fun src => src.advance before).sum

instance (kc : KernelCounters) (cpuFd : List PCFile) (fig : Figure) (before : List PtopCycle)
    (c : PtopCycle) : Decidable (RecordedWithin kc cpuFd fig before c) :=
  inferInstanceAs (Decidable (_ ≤ _))

/-- A cycle reads what the counters store. -/
theorem read_eq {kc : KernelCounters} {cpuFd : List PCFile} {before : List PtopCycle}
    {c : PtopCycle} (h : kc.Reads cpuFd before c) (fig : Figure) :
    fig.read cpuFd c.input = storedSum 64 (fig.sources kc cpuFd) before c := by
  cases fig with
  | netrcv =>
      rw [read, sources, storedSum, List.map_singleton, List.sum_singleton]
      exact (netSource_stored h).1.symm
  | netsend =>
      rw [read, sources, storedSum, List.map_singleton, List.sum_singleton]
      exact (netSource_stored h).2.symm
  | memaccess =>
      rw [read, sources, storedSum, readCpuCounter, List.map_map]
      refine congrArg List.sum (List.map_congr_left fun p hp => ?_)
      exact (cpuSource_stored h (List.snd_lt_of_mem_zipIdx hp)).symm

section Cycle

variable {conf : Conf} {inp : CycleInput} {s s' : PtopState} {out : CycleOutput}

/-- **What a cycle makes of the column**: the sample keeps what was read, and the row holds
the difference from what the cycle before has kept. -/
theorem cycle_column (h : Steps (mainLoop conf) inp s s' out) (fig : Figure) :
    s'.cpuFd = s.cpuFd ∧ fig.column (s'.sysStats (!s'.curr)) = fig.read s.cpuFd inp ∧
      fig.column out.sysRow =
        u64Subcount (fig.read s.cpuFd inp) (fig.column (s.sysStats (!s.curr))) := by
  obtain ⟨sys, pids, st, w, shown, hc, rfl, rfl⟩ := mainLoop_ok_iff.mp h
  have hframe := sampleSystem_frame hc.cpu
  have hother : (!s.curr) ≠ s.curr := by cases s.curr <;> decide
  have hshown := showStage_frame hc.shown
  obtain ⟨sy, -, -, hsample⟩ := sampleSystem_sample hc.cpu
  have hread : fig.column (sys.sysStats s.curr) = fig.read s.cpuFd inp := by
    rw [hsample]
    cases fig <;> rfl
  refine ⟨?_, ?_, ?_⟩
  · show shown.cpuFd = s.cpuFd
    rw [hshown]
    exact hframe.cpuFd
  · show fig.column (shown.sysStats (!(!shown.curr))) = _
    rw [Bool.not_not, hshown, ← hread]
    simp only [writeSystemStats, SysState.addTotals, Function.update_self, hframe.curr]
    cases fig <;> rfl
  · rw [← hread, ← hframe.prev]
    simp only [outputOf, writeSystemStats, SysState.addTotals, Function.update_self, hframe.curr,
      Function.update_of_ne hother]
    cases fig <;> rfl

end Cycle

section Run

variable {conf : Conf} {cpuFd : List PCFile} {kc : KernelCounters} {cs : List PtopCycle}
  {s : PtopState}

/-- **The sample kept holds what was stored last.** -/
theorem run_column (h : PtopRun conf cpuFd cs s) (hreads : EachAfter (kc.Reads cpuFd) cs)
    (fig : Figure) : s.cpuFd = cpuFd ∧
      fig.column (s.sysStats (!s.curr)) = lastStoredSum 64 (fig.sources kc cpuFd) cs := by
  induction h with
  | init =>
      refine ⟨rfl, ?_⟩
      rw [lastStoredSum_nil]
      cases fig <;> rfl
  | @step cs s inp s' out hrun hstep ih =>
      obtain ⟨hreads, hc⟩ := eachAfter_snoc.mp hreads
      obtain ⟨hfd, -⟩ := ih hreads
      obtain ⟨hfd', hkept, -⟩ := cycle_column hstep fig
      rw [hfd] at hfd' hkept
      refine ⟨hfd', ?_⟩
      rw [hkept, lastStoredSum_concat, ← read_eq hc]

/-- **The column of a row** in a run. -/
theorem run_recorded {before after : List PtopCycle} {c : PtopCycle}
    (h : PtopRun conf cpuFd (before ++ c :: after) s)
    (hreads : EachAfter (kc.Reads cpuFd) (before ++ c :: after)) (fig : Figure) :
    fig.column c.output.sysRow = u64Subcount (storedSum 64 (fig.sources kc cpuFd) before c)
      (lastStoredSum 64 (fig.sources kc cpuFd) before) := by
  obtain ⟨hrun, hstep⟩ := h.at_step
  obtain ⟨hfd, hkept⟩ := run_column hrun hreads.of_append fig
  obtain ⟨-, -, hrow⟩ := cycle_column hstep fig
  rw [hrow, hfd, hkept, read_eq (hreads before c after rfl)]

/-- A counter that shows something and cannot be read in the next cycle. -/
theorem lost_counter_exceeds {src : Source PtopCycle} {before : List PtopCycle} {c : PtopCycle}
    (hlt : ∀ k, src.counter k < MAXU64VAL.toNat) (hread : src.readable c = false)
    (hpos : src.lastRead before ≠ 0) :
    src.advance before <
      (u64Subcount (src.stored 64 before c) (reading 64 (src.lastRead before))).toNat := by
  have hmax : MAXU64VAL.toNat = 0x1111111111111111 := rfl
  have hle := src.lastRead_le before
  have hnow := hlt before.length
  have hlast : (reading 64 (src.lastRead before)).toNat = src.lastRead before := by
    rw [toNat_reading]
    omega
  have hzero : src.stored 64 before c < reading 64 (src.lastRead before) := by
    rw [Source.stored, hread, BitVec.lt_def, hlast]
    exact Nat.pos_of_ne_zero hpos
  rw [u64Subcount, subcountWith_of_lt MAXU64VAL hzero, Source.stored, hread, Source.advance,
    BitVec.toNat_add, BitVec.toNat_sub, hlast, hmax]
  show _ < (0x1111111111111111 + (2 ^ 64 - src.lastRead before + 0) % 2 ^ 64) % 2 ^ 64
  omega

/-- **What the rows record of counters that cannot always be read** is within their advance
as long as what is stored stays in step with them; and of a counter on its own, which has
not counted up to the constant of the wrap-around branch, in no other run. -/
theorem recorded_within (h : PtopRun conf cpuFd cs s) (hreads : EachAfter (kc.Reads cpuFd) cs)
    (fig : Figure) :
    (EachAfter (Kept 64 (fig.sources kc cpuFd)) cs → EachAfter (RecordedWithin kc cpuFd fig) cs) ∧
      ∀ src, fig.sources kc cpuFd = [src] → (∀ k, src.counter k < MAXU64VAL.toNat) →
        EachAfter (RecordedWithin kc cpuFd fig) cs → EachAfter (Kept 64 [src]) cs := by
  constructor
  · rintro hkept before c after rfl
    have hstored := (hkept before c after rfl).toNat_storedSum hkept.of_append
    have hle : (lastStoredSum 64 (fig.sources kc cpuFd) before).toNat ≤
        (storedSum 64 (fig.sources kc cpuFd) before c).toNat := by
      rw [hstored]
      exact Nat.le_add_right _ _
    rw [RecordedWithin, run_recorded h hreads, u64Subcount,
      toNat_subcountWith_of_le MAXU64VAL (BitVec.le_def.mpr hle), hstored, Nat.add_sub_cancel_left]
    exact List.sum_le_sum fun src _ => src.seen_le before c
  · intro src hsrc hlt hwithin
    induction cs using List.reverseRecOn generalizing s with
    | nil => exact eachAfter_nil _
    | append_singleton before c ih =>
        have hrecorded := run_recorded h hreads fig
        obtain ⟨hbefore, hc⟩ := eachAfter_snoc.mp hwithin
        have hkept := ih h.snoc_inv.1 (eachAfter_snoc.mp hreads).1 hbefore
        refine eachAfter_snoc.mpr ⟨hkept, ?_⟩
        rw [kept_singleton_iff (fun k => (hlt k).trans (by decide)) hkept]
        by_contra hlost
        rw [not_or, Bool.not_eq_true] at hlost
        -- the row holds the difference from the last reading down to zero
        refine absurd hc (not_le.mpr ?_)
        rw [hrecorded, hsrc, storedSum, lastStoredSum, List.map_singleton, List.map_singleton,
          List.map_singleton, List.sum_singleton, List.sum_singleton, List.sum_singleton,
          lastStored_eq List.mem_cons_self hkept]
        exact lost_counter_exceeds hlt hlost.1 hlost.2

end Run

end Figure

/-- A counter that stands at `start` and grows by `rate` in each cycle. -/
def steadyCounter (start rate : ℕ) : KernelCounter :=
  ⟨fun k => start + rate * k, fun _ _ h => Nat.add_le_add_left (Nat.mul_le_mul_left rate h) start⟩

def steadyCounters : KernelCounters where
  rcv := steadyCounter 100 25
  snd := steadyCounter 40 10
  misses := fun _ => steadyCounter 7 3

/-- A cycle in which the interface and the counter of the first CPU can be read or not. -/
def meteredCycle (busy : u64) (net : Option (u64 × u64)) (misses : Option u64) : CycleInput :=
  { plainCycle busy [resident] fun _ => plainFiles {} {} with
    net := net, cpuCounter := fun _ => misses }

/-- The interface comes up in the second cycle. -/
def comingUp : List CycleInput :=
  [meteredCycle 100 none none, meteredCycle 200 (some (125, 50)) none,
    meteredCycle 300 (some (150, 60)) (some 13)]

/-- Interface and counter are gone in the second cycle only. -/
def flickering : List CycleInput :=
  [meteredCycle 100 (some (100, 40)) (some 7), meteredCycle 200 none none,
    meteredCycle 300 (some (150, 60)) (some 13)]

theorem recorded_within_comingUp :
    ∃ cs s, PtopRun {} [3, -1] cs s ∧ cs.map Transition.input = comingUp ∧
      ∀ fig, EachAfter (Figure.RecordedWithin steadyCounters [3, -1] fig) cs := by
  obtain ⟨cs, s, hrun, hinput, hreads, hrcv, hsnd, hmisses⟩ := exists_run_of_trace (mainLoop {})
    (systemInit [3, -1]) comingUp
    (fun cs => EachAfter (steadyCounters.Reads [3, -1]) cs ∧
      EachAfter (Kept 64 (Figure.netrcv.sources steadyCounters [3, -1])) cs ∧
      EachAfter (Kept 64 (Figure.netsend.sources steadyCounters [3, -1])) cs ∧
      EachAfter (Kept 64 (Figure.memaccess.sources steadyCounters [3, -1])) cs)
    (by decide +kernel)
  refine ⟨cs, s, hrun, hinput, fun fig => (Figure.recorded_within hrun hreads fig).1 ?_⟩
  cases fig with
  | netrcv => exact hrcv
  | netsend => exact hsnd
  | memaccess => exact hmisses

/-- All that was counted before is recorded again when the counters are back. -/
theorem recovered_counters_replayed :
    ∃ cs s, PtopRun {} [3] cs s ∧ cs.map Transition.input = flickering ∧
      EachAfter (steadyCounters.Reads [3]) cs ∧
      ¬ EachAfter (Figure.netrcv.RecordedWithin steadyCounters [3]) cs ∧
      ¬ EachAfter (Figure.netsend.RecordedWithin steadyCounters [3]) cs ∧
      ¬ EachAfter (Figure.memaccess.RecordedWithin steadyCounters [3]) cs :=
  exists_run_of_trace (mainLoop {}) (systemInit [3]) flickering _ (by decide +kernel)

end PTop
