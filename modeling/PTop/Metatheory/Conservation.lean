import PTop.Metatheory.Absence
import Mathlib.Algebra.BigOperators.Group.List.Basic
import Mathlib.Tactic.FieldSimp
import Mathlib.Tactic.Linarith
import Mathlib.Tactic.Ring

/-!
# What a process is charged over a run

While a process is listed and readable in every cycle, the slot that a cycle
compares with holds the running maxima of its times and the last values of its
byte counters. So the deltas of its rows telescope, and the rows that the
activity test suppresses are rows of zero deltas.
-/

namespace PTop

open Framework AvlTree

/-! ## Histories -/

/-- The largest of the readings so far. -/
def runMax (xs : List ℕ) : ℕ := xs.foldl max 0

/-- The last of the readings so far. -/
def lastOf (xs : List ℕ) : ℕ := xs.getLastD 0

@[simp] theorem runMax_snoc (xs : List ℕ) (x : ℕ) : runMax (xs ++ [x]) = max (runMax xs) x := by
  simp [runMax]

@[simp] theorem lastOf_snoc (xs : List ℕ) (x : ℕ) : lastOf (xs ++ [x]) = x := by
  simp [lastOf]

/-! ## The figures that are conserved -/

/-- The times and the byte counters of a sample. -/
structure Figures where
  utime : ℕ := 0
  stime : ℕ := 0
  readBytes : ℕ := 0
  writeBytes : ℕ := 0

def PidStats.figures (st : PidStats) : Figures where
  utime := st.utime.toNat
  stime := st.stime.toNat
  readBytes := st.readBytes.toNat
  writeBytes := st.writeBytes.toNat

/-- What a process answers in a cycle. -/
def rawFigures (pid : Pid) (inp : CycleInput) : Figures where
  utime := ((inp.files pid).stat.getD {}).utime.toNat
  stime := ((inp.files pid).stat.getD {}).stime.toNat
  readBytes := ((inp.files pid).io.getD {}).readBytes.toNat
  writeBytes := ((inp.files pid).io.getD {}).writeBytes.toNat

/-- Times are kept at their maximum, byte counters at their last value. -/
def Figures.next (kept new : Figures) : Figures where
  utime := max kept.utime new.utime
  stime := max kept.stime new.stime
  readBytes := new.readBytes
  writeBytes := new.writeBytes

/-- The figures kept after some cycles. -/
def keptFigures (pid : Pid) (inps : List CycleInput) : Figures where
  utime := runMax (inps.map fun inp => (rawFigures pid inp).utime)
  stime := runMax (inps.map fun inp => (rawFigures pid inp).stime)
  readBytes := lastOf (inps.map fun inp => (rawFigures pid inp).readBytes)
  writeBytes := lastOf (inps.map fun inp => (rawFigures pid inp).writeBytes)

theorem keptFigures_snoc (pid : Pid) (inps : List CycleInput) (inp : CycleInput) :
    keptFigures pid (inps ++ [inp]) = (keptFigures pid inps).next (rawFigures pid inp) := by
  simp [keptFigures, Figures.next]

/-- The next reading is not behind: no time by 100 or more, no byte counter at all. -/
structure Follows (kept new : Figures) : Prop where
  utime : kept.utime < new.utime + 100
  stime : kept.stime < new.stime + 100
  readBytes : kept.readBytes ≤ new.readBytes
  writeBytes : kept.writeBytes ≤ new.writeBytes

/-- The two times do not increase by `2 ^ 64` together. -/
def JiffiesFit (kept new : Figures) : Prop :=
  ((kept.next new).utime - kept.utime) + ((kept.next new).stime - kept.stime) < 2 ^ 64

instance (kept new : Figures) : Decidable (JiffiesFit kept new) :=
  inferInstanceAs (Decidable (_ < _))

theorem storedSample_figures (conf : Conf) {pid : Pid} {inp : CycleInput} (fd : PCFile)
    (h : Readable (inp.files pid)) :
    (storedSample conf pid (inp.files pid) fd).figures = rawFigures pid inp := by
  obtain ⟨s, n, t, i, hs, hn, ht, hi⟩ := h.exists_answers
  rw [storedSample, if_pos h]
  cases n <;>
    simp [PidStats.figures, rawFigures, readFiles, readProcPidStat, readProcPidStatus,
      readProcPidIo, hs, hn, ht, hi]

/-- The clamp turns readings into running maxima. -/
theorem toNat_clampTime {old new : u64} (h : old.toNat < new.toNat + 100) :
    (clampTime old new).toNat = max old.toNat new.toNat := by
  unfold clampTime
  by_cases hlt : new < old
  · have hlt' := BitVec.lt_def.mp hlt
    have hdiff : old - new < 100 := by
      rw [BitVec.lt_def, BitVec.toNat_sub_of_le (BitVec.le_of_lt hlt)]
      show old.toNat - new.toNat < 100
      omega
    rw [if_pos ⟨hlt, hdiff⟩, max_eq_left hlt'.le]
  · rw [if_neg fun hc => hlt hc.1, max_eq_right (by simpa [BitVec.lt_def] using hlt)]

theorem clampSample_figures {old new : PidStats} (h : Follows old.figures new.figures) :
    (clampSample old new).figures = old.figures.next new.figures := by
  have hu := toNat_clampTime h.utime
  have hs := toNat_clampTime h.stime
  simp only [PidStats.figures, clampSample, Figures.next, hu, hs]

theorem next_of_sameActivity {old new : PidStats} (h : SameActivity old new) :
    new.figures = old.figures.next new.figures := by
  obtain ⟨⟨hu, hs⟩, -⟩ := h
  simp only [PidStats.figures, Figures.next, hu, hs, max_self]

/-! ## One cycle -/

/-- The jiffies charged to a process in a cycle. -/
def cpuCharge (pid : Pid) (out : CycleOutput) : ℚ :=
  ((rowsOf pid out.rows).map fun r => r.cpu.toRat * (out.itv.toNat : ℚ) / 100).sum

def readCharge (pid : Pid) (out : CycleOutput) : ℚ :=
  ((rowsOf pid out.rows).map fun r => r.readBytes.toRat).sum

def writeCharge (pid : Pid) (out : CycleOutput) : ℚ :=
  ((rowsOf pid out.rows).map fun r => r.writeBytes.toRat).sum

/-- A cycle charges what leads from one set of figures to another. -/
structure Charged (pid : Pid) (out : CycleOutput) (kept kept' : Figures) : Prop where
  cpu : cpuCharge pid out + (kept.utime + kept.stime) = kept'.utime + kept'.stime
  readBytes : readCharge pid out + kept.readBytes = kept'.readBytes
  writeBytes : writeCharge pid out + kept.writeBytes = kept'.writeBytes

/-- A percentage of an interval, turned back into what it is a percentage of. -/
theorem percent_mul_itv {itv : u64} (h : itv ≠ 0) (d : ℕ) :
    (XFloat.ofNat d * percentUnit itv).toRat * itv.toNat / 100 = d := by
  have hne : (itv.toNat : ℚ) ≠ 0 := by
    rw [Nat.cast_ne_zero]
    exact fun h0 => h (BitVec.eq_of_toNat_eq h0)
  have hunit : percentUnit itv = .fin (100 / itv.toNat) := XFloat.fin_div_fin 100 hne
  rw [hunit]
  show (d : ℚ) * (100 / itv.toNat) * itv.toNat / 100 = d
  field_simp

theorem toNat_u64Subcount_of_le {new old : u64} (h : old.toNat ≤ new.toNat) :
    (u64Subcount new old).toNat = new.toNat - old.toNat :=
  toNat_subcountWith_of_le MAXU64VAL (BitVec.le_def.mpr h)

/-- **A row charges the increases.** -/
theorem charged_of_row {conf : Conf} {pid : Pid} {out : CycleOutput} {time : u32}
    {old new : PidStats} (hitv : out.itv ≠ 0)
    (hrow : rowsOf pid out.rows = [processRow conf.exact time out.itv old (clampSample old new)])
    (h : Follows old.figures new.figures) (hfits : JiffiesFit old.figures new.figures) :
    Charged pid out old.figures (old.figures.next new.figures) := by
  have hclampu := toNat_clampTime h.utime
  have hclamps := toNat_clampTime h.stime
  have hleu : old.utime.toNat ≤ max old.utime.toNat new.utime.toNat := le_max_left _ _
  have hles : old.stime.toNat ≤ max old.stime.toNat new.stime.toNat := le_max_left _ _
  have hdu := toNat_u64Subcount_of_le (hclampu ▸ hleu)
  have hds := toNat_u64Subcount_of_le (hclamps ▸ hles)
  rw [hclampu] at hdu
  rw [hclamps] at hds
  have hfits' : max old.utime.toNat new.utime.toNat - old.utime.toNat +
      (max old.stime.toNat new.stime.toNat - old.stime.toNat) < 2 ^ 64 := hfits
  have hr : old.readBytes.toNat ≤ new.readBytes.toNat := h.readBytes
  have hw : old.writeBytes.toNat ≤ new.writeBytes.toNat := h.writeBytes
  constructor
  · have hcpu : (processRow conf.exact time out.itv old (clampSample old new)).cpu =
        XFloat.ofNat (u64Subcount (clampTime old.utime new.utime) old.utime +
          u64Subcount (clampTime old.stime new.stime) old.stime).toNat * percentUnit out.itv := rfl
    rw [cpuCharge, hrow, List.map_singleton, List.sum_singleton, hcpu, percent_mul_itv hitv,
      BitVec.toNat_add, hdu, hds, Nat.mod_eq_of_lt hfits']
    simp only [PidStats.figures, Figures.next]
    push_cast [hleu, hles]
    ring
  · have hread : (processRow conf.exact time out.itv old (clampSample old new)).readBytes =
        XFloat.ofNat (u64Subcount new.readBytes old.readBytes).toNat := rfl
    rw [readCharge, hrow, List.map_singleton, List.sum_singleton, hread,
      toNat_u64Subcount_of_le hr, XFloat.toRat_ofNat, Nat.cast_sub hr]
    exact sub_add_cancel _ _
  · have hwrite : (processRow conf.exact time out.itv old (clampSample old new)).writeBytes =
        XFloat.ofNat (u64Subcount new.writeBytes old.writeBytes).toNat := rfl
    rw [writeCharge, hrow, List.map_singleton, List.sum_singleton, hwrite,
      toNat_u64Subcount_of_le hw, XFloat.toRat_ofNat, Nat.cast_sub hw]
    exact sub_add_cancel _ _

/-- A cycle without a row charges nothing. -/
theorem charged_of_no_row {pid : Pid} {out : CycleOutput} (hrow : rowsOf pid out.rows = [])
    (kept : Figures) : Charged pid out kept kept := by
  refine ⟨?_, ?_, ?_⟩
  · rw [cpuCharge, hrow]
    exact zero_add _
  · rw [readCharge, hrow]
    exact zero_add _
  · rw [writeCharge, hrow]
    exact zero_add _

/-- The slot the next cycle compares with. -/
def keptSlot (s : PtopState) (pid : Pid) : PidStats := slotOf s pid (!s.curr)

theorem keptSlot_of_none {s : PtopState} {pid : Pid} (h : entries s.tree pid.toElement = none) :
    keptSlot s pid = {} := by
  rw [keptSlot, slotOf, h]
  rfl

/-- The process looks idle: no compared counter differs from the kept sample. -/
def LooksIdle (conf : Conf) (pid : Pid) (s : PtopState) (inp : CycleInput) : Prop :=
  isActive (keptSlot s pid) (readFiles conf pid.val (inp.files pid)).2 ≤ 0

instance (conf : Conf) (pid : Pid) (s : PtopState) (inp : CycleInput) :
    Decidable (LooksIdle conf pid s inp) := inferInstanceAs (Decidable (_ ≤ _))

/-- What a cycle does about a process it lists and can read: `kept` and `kept'`
are compared with before and after it, `new` is the sample it stores. -/
inductive ListedCycle (conf : Conf) (pid : Pid) (inp : CycleInput) (out : CycleOutput)
    (kept new kept' : PidStats) : Prop where
  | reported (differs : ¬ SameActivity kept new)
      (row : rowsOf pid out.rows = [processRow conf (BitVec.ofInt 32 inp.ctime) out.itv kept
        (clampSample kept new)])
      (slot : kept' = clampSample kept new)
  | idle (same : SameActivity kept new) (row : rowsOf pid out.rows = []) (slot : kept' = new)

section Cycle

variable {conf : Conf} {inp : CycleInput} {s s' : PtopState} {out : CycleOutput} {pid : Pid}

variable (conf pid) in
/-- The memory figures take no part in the activity test. -/
theorem sameActivity_storedSample (fd : PCFile) (h : Readable (inp.files pid)) :
    SameActivity (keptSlot s pid) (storedSample conf pid (inp.files pid) fd) ↔
      LooksIdle conf pid s inp := by
  have hpid : (readFiles conf pid.val (inp.files pid)).2.pid ≠ 0 := by
    rw [(readFiles_of_readable conf pid h).2]
    exact pid.property
  rw [LooksIdle, isActive_nonpos_iff, storedSample, if_pos h, or_iff_right hpid]
  rfl

/-- The descriptor kept about a process. -/
def keptFd (s : PtopState) (pid : Pid) : PCFile :=
  ((entries s.tree pid.toElement).getD freshEntry).fd

/-- **A process that is listed and readable** is reported or idle. -/
theorem CycleFacts.listedCycle (hf : CycleFacts conf inp s s' out) (hs : StateOk s)
    (hp : pid ∈ inp.listing) (hread : Readable (inp.files pid)) :
    ListedCycle conf pid inp out (keptSlot s pid)
      (storedSample conf pid (inp.files pid) (keptFd s pid)) (keptSlot s' pid) := by
  have he := hf.sampled_listed hp
  have hrows := hf.rowsOf_eq hs pid
  rw [he, Option.bind_some] at hrows
  have hslot : keptSlot s' pid = (writtenEntry (cycleArgs inp s out)
      (sampledEntry conf pid (inp.files pid) s.curr
        ((entries s.tree pid.toElement).getD freshEntry))).pstList s.curr := by
    rw [keptSlot, slotOf, hf.entries_after, he, hf.curr, Bool.not_not]
    rfl
  -- the two samples compared: the kept one and the one just read
  have hcurr : (sampledEntry conf pid (inp.files pid) s.curr
      ((entries s.tree pid.toElement).getD freshEntry)).curr (cycleArgs inp s out) =
      storedSample conf pid (inp.files pid) (keptFd s pid) := sampledEntry_curr
  have hprev : (sampledEntry conf pid (inp.files pid) s.curr
      ((entries s.tree pid.toElement).getD freshEntry)).prev (cycleArgs inp s out) =
      keptSlot s pid := sampledEntry_prev
  have hpid : (storedSample conf pid (inp.files pid) (keptFd s pid)).pid ≠ 0 := by
    rw [keptFd, storedSample_pid, if_pos hread]
    exact pid.property
  generalize sampledEntry conf pid (inp.files pid) s.curr
    ((entries s.tree pid.toElement).getD freshEntry) = e at *
  have hactive := active_iff (a := cycleArgs inp s out) (p := e)
  rw [hcurr, hprev, and_iff_right hpid] at hactive
  by_cases hact : Active (cycleArgs inp s out) e
  · rw [rowOf, if_pos hact, Option.toList_some, hcurr, hprev] at hrows
    rw [writtenEntry, if_pos hact, hcurr, hprev] at hslot
    exact .reported (hactive.mp hact) hrows (hslot.trans (PidEntry.setSlot_same e s.curr _))
  · rw [rowOf, if_neg hact, Option.toList_none] at hrows
    rw [writtenEntry, if_neg hact] at hslot
    exact .idle (not_not.mp fun hdiff => hact (hactive.mpr hdiff)) hrows (hslot.trans hcurr)

/-- **One cycle keeps the figures and charges their increases.** -/
theorem CycleFacts.charged (hf : CycleFacts conf.exact inp s s' out) (hs : StateOk s)
    (hp : pid ∈ inp.listing) (hread : Readable (inp.files pid)) (hitv : out.itv ≠ 0)
    (h : Follows (keptSlot s pid).figures (rawFigures pid inp))
    (hfits : JiffiesFit (keptSlot s pid).figures (rawFigures pid inp)) :
    (keptSlot s' pid).figures = (keptSlot s pid).figures.next (rawFigures pid inp) ∧
      Charged pid out (keptSlot s pid).figures (keptSlot s' pid).figures := by
  rw [← storedSample_figures conf.exact (keptFd s pid) hread] at h hfits ⊢
  cases hf.listedCycle hs hp hread with
  | reported _ hrow hslot =>
      rw [hslot, clampSample_figures h]
      exact ⟨rfl, charged_of_row hitv hrow h hfits⟩
  | idle hsame hrow hslot =>
      -- the activity test suppresses a row only when no counter has moved
      rw [hslot]
      refine ⟨next_of_sameActivity hsame, ?_⟩
      have hkept : (storedSample conf.exact pid (inp.files pid) (keptFd s pid)).figures =
          (keptSlot s pid).figures := by
        obtain ⟨⟨hu, hst⟩, -, -, -, -, ⟨hr, hw, -⟩, -⟩ := hsame
        simp only [PidStats.figures, hu, hst, hr, hw]
      rw [hkept]
      exact charged_of_no_row hrow _

end Cycle

/-! ## A run -/

/-- A process never listed has neither an entry nor a row. -/
theorem run_never_listed {conf : Conf} {cpuFd : List PCFile} {cs : List PtopCycle} {s : PtopState}
    (h : PtopRun conf cpuFd cs s) {pid : Pid} :
    (∀ c ∈ cs, pid ∉ c.input.listing) →
      entries s.tree pid.toElement = none ∧ ∀ c ∈ cs, rowsOf pid c.output.rows = [] := by
  induction h with
  | init => exact fun _ => ⟨rfl, by simp⟩
  | @step cs s inp s' out hrun hstep ih =>
      intro hpids
      obtain ⟨hnone, hrows⟩ := ih fun c hc => hpids c (List.mem_append_left _ hc)
      have hs := run_stateOk hrun
      have hf := (stateOk_step hs hstep).2
      have hp : pid ∉ inp.listing := hpids ⟨s, inp, s', out⟩ (by simp)
      have he : entries out.sampled pid.toElement = none := (hf.sampled_unlisted hp).trans hnone
      constructor
      · rw [hf.entries_after, he]
        rfl
      · intro c hc
        rcases List.mem_append.mp hc with hc | hc
        · exact hrows c hc
        cases List.mem_singleton.mp hc
        rw [hf.rowsOf_eq hs pid, he]
        rfl

/-- A process that is there in every cycle and whose readings do not fall behind. -/
structure Steady (pid : Pid) (inps : List CycleInput) : Prop where
  listed : ∀ inp ∈ inps, pid ∈ inp.listing ∧ Readable (inp.files pid)
  follows : EachAfter (fun before inp => Follows (keptFigures pid before) (rawFigures pid inp)) inps

theorem Steady.of_snoc {pid : Pid} {inps : List CycleInput} {inp : CycleInput}
    (h : Steady pid (inps ++ [inp])) : Steady pid inps where
  listed i hi := h.listed i (List.mem_append_left _ hi)
  follows := (eachAfter_snoc.mp h.follows).1

/-- The increases of the two times fit a 64-bit counter in every cycle. -/
def SteadyFits (pid : Pid) (inps : List CycleInput) : Prop :=
  EachAfter (fun before inp => JiffiesFit (keptFigures pid before) (rawFigures pid inp)) inps

/-- What the cycles `cs` charge is what the counters show after the cycles `mid`. -/
structure ChargedTotal (pid : Pid) (cs mid : List PtopCycle) : Prop where
  cpu : (cs.map fun c => cpuCharge pid c.output).sum =
    runMax (mid.map fun c => (rawFigures pid c.input).utime) +
      runMax (mid.map fun c => (rawFigures pid c.input).stime)
  readBytes : (cs.map fun c => readCharge pid c.output).sum =
    lastOf (mid.map fun c => (rawFigures pid c.input).readBytes)
  writeBytes : (cs.map fun c => writeCharge pid c.output).sum =
    lastOf (mid.map fun c => (rawFigures pid c.input).writeBytes)

theorem chargedTotal_iff {pid : Pid} {cs mid : List PtopCycle} : ChargedTotal pid cs mid ↔
    (cs.map fun c => cpuCharge pid c.output).sum =
        (keptFigures pid (mid.map Transition.input)).utime +
          (keptFigures pid (mid.map Transition.input)).stime ∧
      (cs.map fun c => readCharge pid c.output).sum =
        (keptFigures pid (mid.map Transition.input)).readBytes ∧
      (cs.map fun c => writeCharge pid c.output).sum =
        (keptFigures pid (mid.map Transition.input)).writeBytes := by
  simp only [keptFigures, List.map_map, Function.comp_def]
  exact ⟨fun h => ⟨h.cpu, h.readBytes, h.writeBytes⟩, fun h => ⟨h.1, h.2.1, h.2.2⟩⟩

/-- Cycles before the process is first listed charge nothing. -/
theorem chargedTotal_before {pid : Pid} {pre : List PtopCycle}
    (hrows : ∀ c ∈ pre, rowsOf pid c.output.rows = []) : ChargedTotal pid pre [] := by
  have hzero : ∀ charge : PtopCycle → ℚ,
      (∀ c, rowsOf pid c.output.rows = [] → charge c = 0) → (pre.map charge).sum = 0 := by
    intro charge hcharge
    exact sum_map_eq_zero fun c hc => hcharge c (hrows c hc)
  constructor
  · refine (hzero _ ?_).trans (add_zero 0).symm
    intro c hc
    rw [cpuCharge, hc]
    rfl
  · apply hzero
    intro c hc
    rw [readCharge, hc]
    rfl
  · apply hzero
    intro c hc
    rw [writeCharge, hc]
    rfl

/-- One more cycle. -/
theorem ChargedTotal.snoc {pid : Pid} {cs mid : List PtopCycle} {c : PtopCycle}
    (h : ChargedTotal pid cs mid) (hc : Charged pid c.output
      (keptFigures pid (mid.map Transition.input))
      (keptFigures pid ((mid ++ [c]).map Transition.input))) :
    ChargedTotal pid (cs ++ [c]) (mid ++ [c]) := by
  obtain ⟨hcpu, hread, hwrite⟩ := chargedTotal_iff.mp h
  refine chargedTotal_iff.mpr ⟨?_, ?_, ?_⟩
  · rw [List.map_append, List.sum_append, hcpu, ← hc.cpu, List.map_singleton, List.sum_singleton]
    exact add_comm _ _
  · rw [List.map_append, List.sum_append, hread, ← hc.readBytes, List.map_singleton,
      List.sum_singleton]
    exact add_comm _ _
  · rw [List.map_append, List.sum_append, hwrite, ← hc.writeBytes, List.map_singleton,
      List.sum_singleton]
    exact add_comm _ _

/-- The kept figures and the charges, cycle by cycle. -/
theorem charged_run {conf : Conf} {cpuFd : List PCFile} {pre : List PtopCycle} {pid : Pid}
    (hpre : ∀ c ∈ pre, pid ∉ c.input.listing) {mid : List PtopCycle} :
    ∀ {s : PtopState}, PtopRun conf.exact cpuFd (pre ++ mid) s →
      Steady pid (mid.map Transition.input) → SteadyFits pid (mid.map Transition.input) →
      (∀ c ∈ mid, c.output.itv ≠ 0) →
        (keptSlot s pid).figures = keptFigures pid (mid.map Transition.input) ∧
          ChargedTotal pid (pre ++ mid) mid := by
  induction mid using List.reverseRecOn with
  | nil =>
      intro s h _ _ _
      rw [List.append_nil] at h ⊢
      obtain ⟨hnone, hrows⟩ := run_never_listed h hpre
      refine ⟨?_, chargedTotal_before hrows⟩
      rw [keptSlot_of_none hnone]
      rfl
  | append_singleton mid c ih =>
      intro s h hsteady hfits hitv
      rw [List.map_append, List.map_singleton] at hsteady hfits
      rw [← List.append_assoc] at h ⊢
      obtain ⟨hrun, hstep, rfl⟩ := h.snoc_inv
      -- the slot compared with holds the figures of `mid`, by induction
      obtain ⟨hkept, htotal⟩ := ih hrun hsteady.of_snoc (eachAfter_snoc.mp hfits).1
        fun d hd => hitv d (List.mem_append_left _ hd)
      obtain ⟨hp, hread⟩ := hsteady.listed c.input (by simp)
      have hs := run_stateOk hrun
      obtain ⟨hnext, hcharged⟩ := (stateOk_step hs hstep).2.charged hs hp hread
        (hitv c (List.mem_append_right _ (List.mem_singleton_self c)))
        (hkept ▸ (eachAfter_snoc.mp hsteady.follows).2) (hkept ▸ (eachAfter_snoc.mp hfits).2)
      have hkept' : (keptSlot c.post pid).figures =
          keptFigures pid ((mid ++ [c]).map Transition.input) := by
        rw [hnext, hkept, List.map_append, List.map_singleton, keptFigures_snoc]
      rw [hkept, hkept'] at hcharged
      exact ⟨hkept', htotal.snoc hcharged⟩

/-- **Conservation.** In exact arithmetic, a process that is not listed at first, and
then listed and readable in every cycle, is charged over the run what its counters
show: the maxima of its times and the last values of its byte counters. -/
theorem charges_conserved {conf : Conf} {cpuFd : List PCFile} {pre mid : List PtopCycle}
    {s : PtopState} {pid : Pid} (h : PtopRun conf.exact cpuFd (pre ++ mid) s)
    (hpre : ∀ c ∈ pre, pid ∉ c.input.listing) (hsteady : Steady pid (mid.map Transition.input))
    (hfits : SteadyFits pid (mid.map Transition.input)) (hitv : ∀ c ∈ mid, c.output.itv ≠ 0) :
    ChargedTotal pid (pre ++ mid) mid :=
  (charged_run hpre h hsteady hfits hitv).2

/-- A process that arrives in the second cycle; its user time drops once, by 5. -/
def arriving : List CycleInput :=
  [plainCycle 100 [resident] fun _ => plainFiles {} {},
    plainCycle 200 [visitor, resident] fun _ =>
      plainFiles { utime := 30, stime := 7 } { readBytes := 10, writeBytes := 4 },
    plainCycle 300 [resident, visitor] fun _ =>
      plainFiles { utime := 25, stime := 9 } { readBytes := 64, writeBytes := 4 }]

theorem charges_conserved_arriving :
    ∃ pre mid s, PtopRun (Conf.exact {}) [] (pre ++ mid) s ∧
      (pre ++ mid).map Transition.input = arriving ∧ mid.length = 2 ∧
      ChargedTotal visitor (pre ++ mid) mid := by
  obtain ⟨cs, s, hrun, hinput, hlen, hpre, hitv⟩ := exists_run_of_trace (mainLoop (Conf.exact {}))
    (systemInit []) arriving
    (fun cs => cs.length = 3 ∧ (∀ c ∈ cs.take 1, visitor ∉ c.input.listing) ∧
      ∀ c ∈ cs.drop 1, c.output.itv ≠ 0) (by decide +kernel)
  have hmid : (cs.drop 1).map Transition.input = arriving.drop 1 := by rw [List.map_drop, hinput]
  rw [← List.take_append_drop 1 cs] at hrun hinput
  refine ⟨cs.take 1, cs.drop 1, s, hrun, hinput, by rw [List.length_drop, hlen],
    charges_conserved hrun hpre ?_ ?_ hitv⟩
  · rw [hmid]
    refine ⟨by decide, eachAfter_pair.mpr ⟨?_, ?_⟩⟩ <;>
      exact ⟨by decide, by decide, by decide, by decide⟩
  · rw [hmid]
    exact eachAfter_pair.mpr ⟨by decide, by decide⟩

/-- A process first seen with `2 ^ 63` jiffies of either kind. -/
def overflowing : List CycleInput :=
  [plainCycle 100 [visitor] fun _ =>
    plainFiles { utime := 0x8000000000000000, stime := 0x8000000000000000 } {}]

/-- The two differences wrap when they are added: the process is charged nothing. -/
theorem jiffies_overflow :
    ∃ cs s, PtopRun (Conf.exact {}) [] cs s ∧ cs.map Transition.input = overflowing ∧
      (∀ c ∈ cs, c.input.listing.Nodup) ∧ Steady visitor (cs.map Transition.input) ∧
      (∀ c ∈ cs, c.output.itv ≠ 0) ∧ ¬ ChargedTotal visitor cs cs := by
  obtain ⟨cs, s, hrun, hinput, hnodup, hitv, hwrong⟩ := exists_run_of_trace
    (mainLoop (Conf.exact {})) (systemInit []) overflowing
    (fun cs => (∀ c ∈ cs, c.input.listing.Nodup) ∧ (∀ c ∈ cs, c.output.itv ≠ 0) ∧
      (cs.map fun c => cpuCharge visitor c.output).sum ≠
        runMax (cs.map fun c => (rawFigures visitor c.input).utime) +
          runMax (cs.map fun c => (rawFigures visitor c.input).stime)) (by decide +kernel)
  refine ⟨cs, s, hrun, hinput, hnodup, ?_, hitv, fun htotal => hwrong htotal.cpu⟩
  rw [hinput]
  exact ⟨by decide, eachAfter_singleton.mpr
    ⟨by decide, by decide, by decide, by decide⟩⟩

end PTop
