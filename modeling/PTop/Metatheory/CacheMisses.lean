import PTop.Metatheory.Conservation
import Mathlib.Algebra.BigOperators.Intervals

/-!
# What the counter of a process is compared with

The counter of a process lives from an open to a close, and starts again at
zero; the last reading of it stays in the sample when the counter is closed. A
row takes the difference of two readings, whatever counters they came from.
-/

namespace PTop

open Framework AvlTree

/-! ## The counters of a process -/

/-- The cycle samples the process. -/
def Sampled (pid : Pid) (c : PtopCycle) : Prop :=
  pid ∈ c.input.listing ∧ Readable (c.input.files pid)

instance (pid : Pid) (c : PtopCycle) : Decidable (Sampled pid c) :=
  inferInstanceAs (Decidable (_ ∧ _))

/-- The number of cycles up to the last one that sampled the process. -/
def lastSampled (pid : Pid) (before : List PtopCycle) : ℕ :=
  (before.rdropWhile fun d => ¬ Sampled pid d).length

theorem lastSampled_snoc (pid : Pid) (before : List PtopCycle) (d : PtopCycle) :
    lastSampled pid (before ++ [d]) =
      if Sampled pid d then before.length + 1 else lastSampled pid before := by
  rw [lastSampled, length_rdropWhile_concat]
  by_cases hd : Sampled pid d
  · simp [hd]
  · simp [hd, lastSampled]

theorem lastSampled_le (pid : Pid) (before : List PtopCycle) :
    lastSampled pid before ≤ before.length := (List.rdropWhile_prefix _ _).length_le

/-- What a cycle from `s` that samples the process reads from its counter. -/
def countRead (s : PtopState) (pid : Pid) (inp : CycleInput) : u64 :=
  readCounter (fdAfter (inp.files pid) (keptFd s pid)) (inp.files pid).counter

/-- The counters of a process as the kernel keeps them: `value k` is where the
open one stands when cycle `k` reads it, and `misses k` is what the ones that
were open have counted since the cycle before. -/
structure CountsUp (value misses : ℕ → ℕ) (pid : Pid) (before : List PtopCycle) (c : PtopCycle) :
    Prop where
  /-- A read that does not fail. -/
  reads : Sampled pid c → countRead c.pre pid c.input ≠ 0 →
    (countRead c.pre pid c.input).toNat = value before.length
  /-- A counter opened in this cycle started at 0. -/
  opened : Sampled pid c → keptFd c.pre pid ≤ 0 → 0 < (c.input.files pid).perfOpen →
    value before.length ≤ misses before.length
  held : 0 < keptFd c.pre pid →
    value before.length = value (before.length - 1) + misses before.length

instance (value misses : ℕ → ℕ) (pid : Pid) (before : List PtopCycle) (c : PtopCycle) :
    Decidable (CountsUp value misses pid before c) :=
  decidable_of_iff (_ ∧ _ ∧ _) ⟨fun h => ⟨h.1, h.2.1, h.2.2⟩, fun h => ⟨h.reads, h.opened, h.held⟩⟩

/-- The misses counted from the last sample of the process to this cycle. -/
def missesSince (misses : ℕ → ℕ) (pid : Pid) (before : List PtopCycle) : ℕ :=
  ∑ i ∈ Finset.Ico (lastSampled pid before) (before.length + 1), misses i

/-- Every row of the process in the cycle reports misses counted since its last sample. -/
def AccessesCovered (misses : ℕ → ℕ) (pid : Pid) (before : List PtopCycle) (c : PtopCycle) : Prop :=
  ∀ r ∈ rowsOf pid c.output.rows, r.cpuAccesses.toNat ≤ missesSince misses pid before

instance (misses : ℕ → ℕ) (pid : Pid) (before : List PtopCycle) (c : PtopCycle) :
    Decidable (AccessesCovered misses pid before c) :=
  List.decidableBAll _ (rowsOf pid c.output.rows)

/-! ## The rows -/

/-- The reading of the sample compared with. -/
def keptCount (s : PtopState) (pid : Pid) : u64 := (keptSlot s pid).mem.cpuAccesses

/-- The reading left in the slot that the next cycle writes. -/
def staleCount (s : PtopState) (pid : Pid) : u64 := (slotOf s pid s.curr).mem.cpuAccesses

/-- The difference reported, where a reading of 0 counts as none. -/
def accessesFrom (kept read : u64) : u64 := if read > 0 then u64Subcount read kept else 0

theorem accessesFrom_le {kept read : u64} {base D : ℕ} (hbase : base ≤ kept.toNat)
    (hle : kept ≤ read) (hD : read.toNat ≤ base + D) : (accessesFrom kept read).toNat ≤ D := by
  unfold accessesFrom
  split
  · rw [toNat_u64Subcount_of_le (BitVec.le_def.mp hle), Nat.sub_le_iff_le_add]
    calc read.toNat ≤ base + D := hD
      _ ≤ D + kept.toNat := by rw [Nat.add_comm]; exact Nat.add_le_add_left hbase D
  · exact Nat.zero_le D

theorem accessesFrom_same (kept : u64) : (accessesFrom kept kept).toNat = 0 :=
  Nat.le_zero.mp (accessesFrom_le (le_refl kept.toNat) (BitVec.le_refl kept) (le_refl _))

section Cycle

variable {conf : Conf} {inp : CycleInput} {s s' : PtopState} {out : CycleOutput} {pid : Pid}

/-- **A row compares the two samples of its entry.** -/
theorem CycleFacts.cpuAccesses_eq (hf : CycleFacts conf inp s s' out) (hs : StateOk s)
    {r : ProcessInfo} (hr : r ∈ rowsOf pid out.rows) :
    ∃ e, entries out.sampled pid.toElement = some e ∧ Active (cycleArgs inp s out) e ∧
      r.cpuAccesses = accessesFrom (e.pstList (!s.curr)).mem.cpuAccesses
        (e.pstList s.curr).mem.cpuAccesses := by
  rw [hf.rowsOf_eq hs, Option.mem_toList] at hr
  obtain ⟨e, he, hrow⟩ := Option.bind_eq_some_iff.mp hr
  refine ⟨e, he, ?_⟩
  unfold rowOf at hrow
  split at hrow
  · rename_i hact
    cases hrow
    exact ⟨hact, rfl⟩
  · cases hrow

/-- A process that is sampled has a row only if it does not look idle. -/
theorem CycleFacts.cpuAccesses_sampled (hf : CycleFacts conf inp s s' out) (hs : StateOk s)
    (hp : pid ∈ inp.listing) (hread : Readable (inp.files pid)) {r : ProcessInfo}
    (hr : r ∈ rowsOf pid out.rows) :
    r.cpuAccesses = accessesFrom (keptCount s pid) (countRead s pid inp) ∧
      ¬ LooksIdle conf pid s inp := by
  constructor
  · obtain ⟨e, he, -, hr⟩ := hf.cpuAccesses_eq hs hr
    rw [hf.sampled_listed hp] at he
    cases he
    rw [hr, sampledEntry_prev, sampledEntry_curr, storedSample, if_pos hread]
    rfl
  · intro hidle
    cases hf.listedCycle hs hp hread with
    | reported hdiffers _ _ =>
        exact hdiffers ((sameActivity_storedSample conf pid (keptFd s pid) hread).mpr hidle)
    | idle _ hrow _ =>
        rw [hrow] at hr
        exact absurd hr List.not_mem_nil

/-- A process that is listed but cannot be read has no row. -/
theorem CycleFacts.no_row_unread (hf : CycleFacts conf inp s s' out) (hs : StateOk s)
    (hp : pid ∈ inp.listing) (hread : ¬ Readable (inp.files pid)) {r : ProcessInfo} :
    r ∉ rowsOf pid out.rows := by
  intro hr
  obtain ⟨e, he, hact, -⟩ := hf.cpuAccesses_eq hs hr
  rw [hf.sampled_listed hp] at he
  cases he
  refine (active_iff.mp hact).1 ?_
  show (((sampledEntry conf pid (inp.files pid) s.curr _).pstList s.curr).pid : u32) = 0
  rw [sampledEntry_curr, storedSample_pid, if_neg hread]

/-- A process that is not listed is shown with what is left in its slots. -/
theorem CycleFacts.cpuAccesses_unlisted (hf : CycleFacts conf inp s s' out) (hs : StateOk s)
    (hp : pid ∉ inp.listing) {r : ProcessInfo} (hr : r ∈ rowsOf pid out.rows) :
    r.cpuAccesses = accessesFrom (keptCount s pid) (staleCount s pid) ∧
      ¬ Quiet ⟨s, inp, s', out⟩ pid := by
  obtain ⟨e, he, hact, hr⟩ := hf.cpuAccesses_eq hs hr
  rw [hf.sampled_unlisted hp] at he
  constructor
  · rw [hr, keptCount, keptSlot, staleCount, slotOf, slotOf, he]
    rfl
  · intro hquiet
    exact absurd hact (not_lt.mpr (hquiet e he))

/-- A cycle that does not sample a process can close its counter but opens none. -/
theorem CycleFacts.keptFd_unsampled (hf : CycleFacts conf inp s s' out)
    (hsampled : ¬ Sampled pid ⟨s, inp, s', out⟩) (hfd : 0 < keptFd s' pid) :
    0 < keptFd s pid := by
  -- whatever is written, a descriptor that is kept was there before
  have hwritten : ∀ e, 0 < (writtenEntry (cycleArgs inp s out) e).fd → 0 < e.fd := by
    intro e he
    unfold writtenEntry at he
    split at he
    · exact he
    · exact absurd he (show ¬ (0 : Int) < -1 by decide)
  rw [keptFd, hf.entries_after] at hfd
  by_cases hp : pid ∈ inp.listing
  · rw [hf.sampled_listed hp, Option.map_some, Option.getD_some] at hfd
    have hfd := hwritten _ hfd
    rwa [sampledEntry, PidEntry.setSlot, if_neg fun hread => hsampled ⟨hp, hread⟩] at hfd
  · rw [hf.sampled_unlisted hp] at hfd
    rw [keptFd]
    cases he : entries s.tree pid.toElement with
    | none => rwa [he] at hfd
    | some e =>
        rw [he] at hfd
        exact hwritten e hfd

end Cycle

/-! ## A run -/

/-- Where the open counter stood when it was last read; 0 if none is open. -/
def openBase (value : ℕ → ℕ) (pid : Pid) (before : List PtopCycle) (s : PtopState) : ℕ :=
  if 0 < keptFd s pid then value (lastSampled pid before - 1) else 0

/-- Where a row is written, the reading compared with is one of the counter that is
read, and not older than the last sample. -/
structure SoundBaseline (conf : Conf) (value : ℕ → ℕ) (pid : Pid) (before : List PtopCycle)
    (c : PtopCycle) : Prop where
  sampled : Sampled pid c → LooksIdle conf pid c.pre c.input ∨
    countRead c.pre pid c.input = 0 ∨
    openBase value pid before c.pre ≤ (keptCount c.pre pid).toNat ∧
      keptCount c.pre pid ≤ countRead c.pre pid c.input
  unlisted : pid ∉ c.input.listing → Quiet c pid ∨ staleCount c.pre pid = 0 ∨
    staleCount c.pre pid = keptCount c.pre pid

section Run

variable {conf : Conf} {cpuFd : List PCFile} {value misses : ℕ → ℕ} {pid : Pid}

/-- **A counter that is held** has been sampled, and has moved since by the misses counted. -/
theorem run_held {cs : List PtopCycle} {s : PtopState} (h : PtopRun conf cpuFd cs s) :
    EachAfter (CountsUp value misses pid) cs → 0 < keptFd s pid →
      value (cs.length - 1) = value (lastSampled pid cs - 1) +
        ∑ i ∈ Finset.Ico (lastSampled pid cs) cs.length, misses i := by
  induction h with
  | init =>
      intro _ hfd
      exact absurd hfd (show ¬ (0 : Int) < -1 by decide)
  | @step cs s inp s' out hrun hstep ih =>
      intro hcount hfd
      obtain ⟨hcount, hc⟩ := eachAfter_snoc.mp hcount
      rw [lastSampled_snoc, List.length_append, List.length_singleton, Nat.add_sub_cancel]
      by_cases hsampled : Sampled pid ⟨s, inp, s', out⟩
      · rw [if_pos hsampled, Finset.Ico_self, Finset.sum_empty, Nat.add_sub_cancel, add_zero]
      · -- the counter was there before this cycle, which only adds to it
        have hfd := (stateOk_step (run_stateOk hrun) hstep).2.keptFd_unsampled hsampled hfd
        rw [if_neg hsampled, Finset.sum_Ico_succ_top (lastSampled_le pid cs), hc.held hfd,
          ih hcount hfd, add_assoc]

/-- What is read exceeds the base by no more than the misses counted since the last sample. -/
theorem countRead_le {before : List PtopCycle} {c : PtopCycle} (h : PtopRun conf cpuFd before c.pre)
    (hbefore : EachAfter (CountsUp value misses pid) before)
    (hc : CountsUp value misses pid before c) (hsampled : Sampled pid c)
    (hread : countRead c.pre pid c.input ≠ 0) :
    (countRead c.pre pid c.input).toNat ≤
      openBase value pid before c.pre + missesSince misses pid before := by
  have hopen : 0 < fdAfter (c.input.files pid) (keptFd c.pre pid) := by
    by_contra hclosed
    rw [countRead, readCounter, if_pos (not_lt.mp hclosed)] at hread
    exact hread rfl
  rw [hc.reads hsampled hread, missesSince, openBase,
    Finset.sum_Ico_succ_top (lastSampled_le pid before)]
  by_cases hfd : 0 < keptFd c.pre pid
  · rw [if_pos hfd, hc.held hfd, run_held h hbefore hfd, add_assoc]
  · -- a counter that has just been opened
    have hperf : 0 < (c.input.files pid).perfOpen := by
      rwa [fdAfter, if_pos (not_lt.mp hfd)] at hopen
    rw [if_neg hfd, zero_add]
    exact (hc.opened hsampled (not_lt.mp hfd) hperf).trans (Nat.le_add_left _ _)

/-- **Rows report misses counted since the last sample** in every run in which no
row compares a reading with one of a counter closed since, with a failed one or
with one left from before the last sample. -/
theorem accesses_covered {cs : List PtopCycle} {s : PtopState} (h : PtopRun conf cpuFd cs s)
    (hcount : EachAfter (CountsUp value misses pid) cs)
    (hbase : EachAfter (SoundBaseline conf value pid) cs) :
    EachAfter (AccessesCovered misses pid) cs := by
  rintro before c after rfl r hr
  obtain ⟨hrun, hstep⟩ := h.at_step
  have hs := run_stateOk hrun
  have hf := (stateOk_step hs hstep).2
  obtain ⟨hsound, hstale⟩ := hbase before c after rfl
  by_cases hp : pid ∈ c.input.listing
  · by_cases hread : Readable (c.input.files pid)
    · obtain ⟨heq, hactive⟩ := hf.cpuAccesses_sampled hs hp hread hr
      rw [heq]
      by_cases hzero : countRead c.pre pid c.input = 0
      · rw [hzero]
        exact Nat.zero_le _
      · obtain ⟨hle, hkept⟩ :=
          ((hsound ⟨hp, hread⟩).resolve_left hactive).resolve_left hzero
        exact accessesFrom_le hle hkept (countRead_le hrun hcount.of_append
          (hcount before c after rfl) ⟨hp, hread⟩ hzero)
    · exact absurd hr (hf.no_row_unread hs hp hread)
  · obtain ⟨heq, hnotquiet⟩ := hf.cpuAccesses_unlisted hs hp hr
    rw [heq]
    rcases hstale hp with hquiet | hzero | hsame
    · exact absurd hquiet hnotquiet
    · rw [hzero]
      exact Nat.zero_le _
    · rw [hsame]
      exact accessesFrom_same _ ▸ Nat.zero_le _

end Run

/-- A process that has used this time and whose counter stands at `count`. -/
def countedFiles (utime count : u64) : ProcFiles :=
  { plainFiles { utime := utime } {} with perfOpen := 5, counter := some count }

/-- A process that is active in two cycles, rests in two, at the end of which its counter
is closed, and is active again: in the fourth cycle a new counter is compared with the
old one, but there is no row. -/
def resting : List CycleInput :=
  [plainCycle 100 [visitor] fun _ => countedFiles 30 1000,
    plainCycle 200 [visitor] fun _ => countedFiles 45 1500,
    plainCycle 300 [visitor] fun _ => countedFiles 45 1700,
    plainCycle 400 [visitor] fun _ => countedFiles 45 3,
    plainCycle 500 [visitor] fun _ => countedFiles 60 5]

theorem accesses_covered_resting :
    ∃ cs s, PtopRun {} [] cs s ∧ cs.map Transition.input = resting ∧
      cs.map (fun c => (rowsOf visitor c.output.rows).map fun r => r.cpuAccesses.toNat) =
        [[1000], [500], [], [], [2]] ∧
      EachAfter (AccessesCovered (fun k => [1000, 500, 200, 3, 5].getD k 0) visitor) cs := by
  obtain ⟨cs, s, hrun, hinput, hcount, hsampled, hkept, hrows⟩ := exists_run_of_trace (mainLoop {})
    (systemInit []) resting
    (fun cs => EachAfter (CountsUp (fun k => [1000, 1500, 1700, 3, 5].getD k 0)
        (fun k => [1000, 500, 200, 3, 5].getD k 0) visitor) cs ∧
      (∀ c ∈ cs, Sampled visitor c) ∧
      EachAfter (fun before c => LooksIdle {} visitor c.pre c.input ∨
        openBase (fun k => [1000, 1500, 1700, 3, 5].getD k 0) visitor before c.pre ≤
            (keptCount c.pre visitor).toNat ∧
          keptCount c.pre visitor ≤ countRead c.pre visitor c.input) cs ∧
      cs.map (fun c => (rowsOf visitor c.output.rows).map fun r => r.cpuAccesses.toNat) =
        [[1000], [500], [], [], [2]])
    (by decide +kernel)
  refine ⟨cs, s, hrun, hinput, hrows, accesses_covered hrun hcount ?_⟩
  intro before c after hcs
  refine ⟨fun _ => (hkept before c after hcs).imp_right Or.inr, fun hp => ?_⟩
  exact absurd (hsampled c (hcs ▸ by simp)).1 hp

/-- A process that pauses in the second cycle: its counter is closed, and the
one opened in the third cycle has counted 3 misses. -/
def pausing : List CycleInput :=
  [plainCycle 100 [visitor] fun _ => countedFiles 30 1000,
    plainCycle 200 [visitor] fun _ => countedFiles 30 1000,
    plainCycle 300 [visitor] fun _ => countedFiles 60 3]

/-- The 3 misses are compared with the 1000 of the counter closed before. -/
theorem closed_counter_compared :
    ∃ cs s, PtopRun {} [] cs s ∧ cs.map Transition.input = pausing ∧
      EachAfter (CountsUp (fun k => [1000, 1000, 3].getD k 0) (fun k => [1000, 0, 3].getD k 0)
        visitor) cs ∧
      ¬ EachAfter (AccessesCovered (fun k => [1000, 0, 3].getD k 0) visitor) cs :=
  exists_run_of_trace (mainLoop {}) (systemInit []) pausing _ (by decide +kernel)

end PTop
