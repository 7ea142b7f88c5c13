import PTop.Metatheory.Runs

/-!
# Processes that vanish, and processes that come back

A node outlives its process, and a cycle refreshes one slot of the processes it
lists. What `write_stat` then sees of a process that is not listed, or what a
process that comes back is compared with, is whatever the other cycles left.
-/

namespace PTop

open Framework AvlTree

/-! ## A process that is not listed -/

/-- The cycle is silent about a process: no row, nothing added to the totals at
its node, and no descriptor kept there. -/
structure Silent (conf : Conf) (c : PtopCycle) (pid : Pid) : Prop where
  row : ∀ r ∈ c.output.rows, r.pid ≠ pid.val
  totals : ∀ e, entries c.output.sampled pid.toElement = some e → ∀ w,
    (writePosition conf (cycleArgs c.input c.pre c.output) e w).2.totaldiskread =
        w.totaldiskread ∧
      (writePosition conf (cycleArgs c.input c.pre c.output) e w).2.totaldiskwrite =
        w.totaldiskwrite
  closed : ∀ e, entries c.post.tree pid.toElement = some e → e.fd ≤ 0

/-- Before the cycle, the samples kept about a process do not look active. -/
def Quiet (c : PtopCycle) (pid : Pid) : Prop :=
  ∀ e, entries c.pre.tree pid.toElement = some e →
    isActive (e.pstList (!c.pre.curr)) (e.pstList c.pre.curr) ≤ 0

section Cycle

variable {conf : Conf} {inp : CycleInput} {s s' : PtopState} {out : CycleOutput} {pid : Pid}

/-- The entry of a process that is not listed is the one of before. -/
theorem CycleFacts.sampled_unlisted (h : CycleFacts conf inp s s' out) (hp : pid ∉ inp.listing) :
    entries out.sampled pid.toElement = entries s.tree pid.toElement := by
  obtain ⟨pids, hproc, -, he⟩ := h.listing
  rw [CycleInput.listing, hproc, Option.getD_some] at hp
  rw [he]
  exact sampledMap_unlisted _ fun q hq hk => hp (Pid.toElement_inj.mp hk ▸ hq)

/-- The entry of a listed process has just been read. -/
theorem CycleFacts.sampled_listed (h : CycleFacts conf inp s s' out) (hp : pid ∈ inp.listing) :
    entries out.sampled pid.toElement = some (sampledEntry conf pid (inp.files pid) s.curr
      ((entries s.tree pid.toElement).getD freshEntry)) := by
  obtain ⟨pids, hproc, -, he⟩ := h.listing
  rw [CycleInput.listing, hproc, Option.getD_some] at hp
  rw [he]
  exact sampledMap_listed _ hp

theorem CycleFacts.forall_rows_pid_ne_iff (h : CycleFacts conf inp s s' out) (hs : StateOk s) :
    (∀ r ∈ out.rows, r.pid ≠ pid.val) ↔
      ∀ e, entries out.sampled pid.toElement = some e → ¬ Active (cycleArgs inp s out) e := by
  have hrows : (∀ r ∈ out.rows, r.pid ≠ pid.val) ↔ rowsOf pid out.rows = [] := by
    simp [rowsOf, List.filter_eq_nil_iff]
  rw [hrows, h.rowsOf_eq hs pid]
  cases he : entries out.sampled pid.toElement with
  | none => simp
  | some e =>
      by_cases hact : Active (cycleArgs inp s out) e
      · simp [rowOf, hact]
      · simp [rowOf, hact]

end Cycle

/-- **A cycle is silent about an unlisted process iff its samples look quiet.**
The row of a process that has vanished comes back whenever the two samples kept
at its node differ, as they do two cycles after it was last read. -/
theorem silent_iff_quiet {conf : Conf} {cpuFd : List PCFile} {cs : List PtopCycle} {s : PtopState}
    (h : PtopRun conf cpuFd cs s) {c : PtopCycle} (hc : c ∈ cs) {pid : Pid}
    (hp : pid ∉ c.input.listing) : Silent conf c pid ↔ Quiet c pid := by
  obtain ⟨hs, hf⟩ := run_cycle h hc
  have hsampled := hf.sampled_unlisted hp
  -- an entry that is not read is written as it was before the cycle
  have hquiet : Quiet c pid ↔ ∀ e, entries c.output.sampled pid.toElement = some e →
      ¬ Active (cycleArgs c.input c.pre c.output) e := by
    rw [hsampled]
    exact forall₂_congr fun e he => not_lt.symm
  rw [hquiet]
  constructor
  · intro hsilent
    exact (hf.forall_rows_pid_ne_iff hs).mp hsilent.row
  · intro hinactive
    refine ⟨(hf.forall_rows_pid_ne_iff hs).mpr hinactive, ?_, ?_⟩
    · intro e he w
      have hw := writePosition_snd conf (cycleArgs c.input c.pre c.output) e w
      have hact := hinactive e he
      rw [hw.totaldiskread, hw.totaldiskwrite, readShare, if_neg hact, writeShare, if_neg hact]
      exact ⟨BitVec.add_zero _, BitVec.add_zero _⟩
    · intro e he
      rw [hf.entries_after, Option.map_eq_some_iff] at he
      obtain ⟨e₀, he₀, rfl⟩ := he
      rw [writtenEntry, if_neg (hinactive e₀ he₀)]
      show (-1 : Int) ≤ 0
      decide

/-- Three cycles; the visitor is there in the first. -/
def vanishing : List CycleInput :=
  let files := fun _ => plainFiles { utime := 30 } {}
  [plainCycle 100 [resident, visitor] files, plainCycle 200 [resident] files,
    plainCycle 300 [resident] files]

theorem silent_iff_quiet_vanishing :
    ∃ cs s, PtopRun {} [] cs s ∧ cs.map Transition.input = vanishing ∧
      ∃ c ∈ cs, visitor ∉ c.input.listing ∧ (Silent {} c visitor ↔ Quiet c visitor) := by
  obtain ⟨cs, s, hrun, hinput, c, hc, hp⟩ := exists_run_of_trace (mainLoop {})
    (systemInit []) vanishing
    (fun cs => ∃ c ∈ cs, visitor ∉ c.input.listing) (by decide +kernel)
  exact ⟨cs, s, hrun, hinput, c, hc, hp, silent_iff_quiet hrun hc hp⟩

/-- The visitor has a row in the third cycle, two cycles after it left. -/
theorem vanished_reported :
    ∃ cs s, PtopRun {} [] cs s ∧ cs.map Transition.input = vanishing ∧
      ∃ c ∈ cs, visitor ∉ c.input.listing ∧ ¬ Silent {} c visitor := by
  obtain ⟨cs, s, hrun, hinput, c, hc, hp, r, hr, hpid⟩ := exists_run_of_trace (mainLoop {})
    (systemInit []) vanishing
    (fun cs => ∃ c ∈ cs, visitor ∉ c.input.listing ∧ ∃ r ∈ c.output.rows,
      r.pid = visitor.val) (by decide +kernel)
  exact ⟨cs, s, hrun, hinput, c, hc, hp, fun hsilent => hsilent.row r hr hpid⟩

/-! ## A process that comes back

The slot of the other buffer was last written in the most recent of the cycles
one, three, five, ... back that listed the process. -/

/-- What a process answered when the slot of the other buffer was last written;
the inputs are listed from the previous cycle backwards. -/
def lastAnswer (pid : Pid) : List CycleInput → Option ProcFiles
  | [] => none
  | [inp] => if pid ∈ inp.listing then some (inp.files pid) else none
  | inp :: _ :: rest => if pid ∈ inp.listing then some (inp.files pid) else lastAnswer pid rest

theorem lastAnswer_cons (pid : Pid) (inp : CycleInput) (rest : List CycleInput) :
    lastAnswer pid (inp :: rest) =
      if pid ∈ inp.listing then some (inp.files pid) else lastAnswer pid rest.tail := by
  cases rest <;> rfl

/-- Nothing was read: never listed there, or the stat file did not open. -/
def NothingRead (answer : Option ProcFiles) : Prop := ∀ f, answer = some f → f.stat = none

/-- A slot of the entry kept about a process. -/
def slotOf (s : PtopState) (pid : Pid) (i : Bool) : PidStats :=
  ((entries s.tree pid.toElement).getD freshEntry).pstList i

/-- The cycles of a run as inputs, the last one first. -/
def history (cs : List PtopCycle) : List CycleInput := (cs.map Transition.input).reverse

theorem history_snoc (cs : List PtopCycle) (c : PtopCycle) :
    history (cs ++ [c]) = c.input :: history cs := by
  simp [history]

/-- A slot into which nothing was read is zero. -/
structure ZeroSlots (cs : List PtopCycle) (s : PtopState) (pid : Pid) : Prop where
  other : NothingRead (lastAnswer pid (history cs)) → slotOf s pid (!s.curr) = {}
  this : NothingRead (lastAnswer pid (history cs).tail) → slotOf s pid s.curr = {}

section Step

variable {conf : Conf} {inp : CycleInput} {s s' : PtopState} {out : CycleOutput} {pid : Pid}

/-- The slot a cycle does not write. -/
theorem CycleFacts.slotOf_other (h : CycleFacts conf inp s s' out) :
    slotOf s' pid (!s.curr) = slotOf s pid (!s.curr) := by
  have hwritten : ∀ e : PidEntry, (writtenEntry (cycleArgs inp s out) e).pstList (!s.curr) =
      e.pstList (!s.curr) := by
    intro e
    unfold writtenEntry
    split
    · exact PidEntry.setSlot_other e s.curr _
    · rfl
  unfold slotOf
  rw [h.entries_after]
  by_cases hp : pid ∈ inp.listing
  · rw [h.sampled_listed hp, Option.map_some, Option.getD_some, hwritten, sampledEntry_prev]
  · rw [h.sampled_unlisted hp]
    cases entries s.tree pid.toElement with
    | none => rfl
    | some e => exact hwritten e

/-- The slot a cycle writes, if the sample in it has no pid. -/
theorem CycleFacts.slotOf_this (h : CycleFacts conf inp s s' out) {e : PidEntry}
    (he : entries out.sampled pid.toElement = some e) (hpid : (e.pstList s.curr).pid = 0) :
    slotOf s' pid s.curr = e.pstList s.curr := by
  have hact : ¬ Active (cycleArgs inp s out) e := by
    intro hact
    exact (active_iff.mp hact).1 hpid
  rw [slotOf, h.entries_after, he, Option.map_some, Option.getD_some, writtenEntry, if_neg hact]

theorem storedSample_of_stat_none {f : ProcFiles} {fd : PCFile} (h : f.stat = none) :
    storedSample conf pid f fd = {} := by
  have hr : ¬ Readable f := by
    intro hr
    simpa [h] using hr.1
  rw [storedSample, if_neg hr, readFiles, readProcPidStat, h]
  rfl

/-- **One cycle keeps the account of zero slots.** -/
theorem ZeroSlots.step {cs : List PtopCycle} (h : ZeroSlots cs s pid)
    (hf : CycleFacts conf inp s s' out) : ZeroSlots (cs ++ [⟨s, inp, s', out⟩]) s' pid := by
  constructor
  · -- the slot written now is the other slot of the next cycle
    rw [history_snoc, lastAnswer_cons, hf.curr, Bool.not_not]
    intro hnothing
    by_cases hp : pid ∈ inp.listing
    · rw [if_pos hp] at hnothing
      have hstat : (inp.files pid).stat = none := hnothing _ rfl
      have he := hf.sampled_listed hp
      rw [hf.slotOf_this he (by rw [sampledEntry_curr, storedSample_of_stat_none hstat]),
        sampledEntry_curr, storedSample_of_stat_none hstat]
    · rw [if_neg hp] at hnothing
      have hzero := h.this hnothing
      have he := hf.sampled_unlisted hp
      cases hs : entries s.tree pid.toElement with
      | none =>
          rw [slotOf, hf.entries_after, he, hs]
          rfl
      | some e =>
          have hslot : e.pstList s.curr = {} := by
            rw [slotOf, hs, Option.getD_some] at hzero
            exact hzero
          rw [hf.slotOf_this (he.trans hs) (by rw [hslot]), hslot]
  · rw [history_snoc, List.tail_cons, hf.curr, hf.slotOf_other]
    exact h.other

end Step

/-- **In every run, a slot into which nothing was read is zero.** -/
theorem run_zeroSlots {conf : Conf} {cpuFd : List PCFile} {cs : List PtopCycle} {s : PtopState}
    (h : PtopRun conf cpuFd cs s) (pid : Pid) : ZeroSlots cs s pid := by
  induction h with
  | init => exact ⟨fun _ => rfl, fun _ => rfl⟩
  | step hrun hstep ih => exact ih.step (stateOk_step (run_stateOk hrun) hstep).2

/-- The previous cycle listed the process. -/
def ListedBefore (before : List PtopCycle) (pid : Pid) : Prop :=
  ∃ d ∈ before.getLast?, pid ∈ d.input.listing

/-- The sample of the previous cycle if that listed the process, zero if not. -/
def baseline (before : List PtopCycle) (pid : Pid) : PidStats :=
  match before.getLast? with
  | some d => if pid ∈ d.input.listing then slotOf d.post pid d.pre.curr else {}
  | none => {}

/-- The row of the process, if there is one, holds the current sample compared
with `base`. -/
def ComparedWith (conf : Conf) (c : PtopCycle) (pid : Pid) (base : PidStats) : Prop :=
  ∀ r ∈ rowsOf pid c.output.rows,
    r = processRow conf (BitVec.ofInt 32 c.input.ctime) c.output.itv base
      (clampSample base
        (((entries c.output.sampled pid.toElement).getD freshEntry).pstList c.pre.curr))

instance (conf : Conf) (c : PtopCycle) (pid : Pid) (base : PidStats) :
    Decidable (ComparedWith conf c pid base) := List.decidableBAll _ (rowsOf pid c.output.rows)

/-- A listed process is compared with the slot of the other buffer. -/
theorem comparedWith_slotOf {conf : Conf} {c : PtopCycle} (hs : StateOk c.pre)
    (hf : CycleFacts conf c.input c.pre c.post c.output) {pid : Pid}
    (hp : pid ∈ c.input.listing) : ComparedWith conf c pid (slotOf c.pre pid (!c.pre.curr)) := by
  intro r hr
  rw [hf.rowsOf_eq hs pid, hf.sampled_listed hp, Option.bind_some, Option.mem_toList] at hr
  unfold rowOf at hr
  split at hr
  · cases hr
    have hprev : (sampledEntry conf pid (c.input.files pid) c.pre.curr
        ((entries c.pre.tree pid.toElement).getD freshEntry)).prev
          (cycleArgs c.input c.pre c.output) = slotOf c.pre pid (!c.pre.curr) := sampledEntry_prev
    rw [hf.sampled_listed hp, Option.getD_some, ← hprev]
    rfl
  · cases hr

/-- **Deltas are taken against the previous cycle, or against zero**, as long as
a process that was not listed in the previous cycle has left nothing in the slot
of the other buffer. -/
theorem row_baseline {conf : Conf} {cpuFd : List PCFile} {cs before after : List PtopCycle}
    {s : PtopState} {c : PtopCycle} (h : PtopRun conf cpuFd cs s) (hcs : cs = before ++ c :: after)
    {pid : Pid} (hp : pid ∈ c.input.listing)
    (hclean : ListedBefore before pid ∨ NothingRead (lastAnswer pid (history before))) :
    ComparedWith conf c pid (baseline before pid) := by
  subst hcs
  obtain ⟨hrun, hstep⟩ := h.at_step
  have hs := run_stateOk hrun
  have hbase : baseline before pid = slotOf c.pre pid (!c.pre.curr) := by
    by_cases hlast : ListedBefore before pid
    · -- the previous cycle wrote the slot that this one compares with
      obtain ⟨d, hd, hpd⟩ := hlast
      obtain ⟨bs, rfl⟩ := List.getLast?_eq_some_iff.mp hd
      obtain ⟨hbs, hdstep, hpost⟩ := hrun.snoc_inv
      have hcurr := (stateOk_step (run_stateOk hbs) hdstep).2.curr
      rw [baseline, hd, hpost, hcurr, Bool.not_not]
      exact if_pos hpd
    · -- the slot is older than the previous cycle, but nothing was read into it
      rw [(run_zeroSlots hrun pid).other (hclean.resolve_left hlast), baseline]
      split
      · rename_i d hd
        exact if_neg fun hpd => hlast ⟨d, hd, hpd⟩
      · rfl
  rw [hbase]
  exact comparedWith_slotOf hs (stateOk_step hs hstep).2 hp

/-- Four cycles; the visitor is there in the first and the fourth, as another process. -/
def returning : List CycleInput :=
  let before := fun _ => plainFiles { utime := 300 } {}
  let after := fun _ => plainFiles { utime := 500 } {}
  [plainCycle 100 [resident, visitor] before, plainCycle 200 [resident] before,
    plainCycle 300 [resident] before, plainCycle 400 [resident, visitor] after]

theorem row_baseline_returning :
    ∃ cs s, PtopRun {} [] cs s ∧ cs.map Transition.input = returning ∧
      ∃ before c after, cs = before ++ c :: after ∧ resident ∈ c.input.listing ∧
        ComparedWith {} c resident (baseline before resident) := by
  obtain ⟨cs, s, hrun, hinput, hlen, hp⟩ := exists_run_of_trace (mainLoop {})
    (systemInit []) returning
    (fun cs => cs.length = 4 ∧ (∀ c ∈ cs, resident ∈ c.input.listing)) (by decide +kernel)
  obtain ⟨d, c, hcs⟩ : ∃ d c, cs.drop 2 = [d, c] :=
    List.length_eq_two.mp (by rw [List.length_drop, hlen])
  have hsplit : cs = (cs.take 2 ++ [d]) ++ c :: [] := by
    rw [List.append_assoc, List.singleton_append, ← hcs, List.take_append_drop]
  have hmem : ∀ {x}, x ∈ [d, c] → resident ∈ x.input.listing := by
    intro x hx
    exact hp x (List.mem_of_mem_drop (hcs ▸ hx))
  exact ⟨cs, s, hrun, hinput, _, c, [], hsplit, hmem (by simp),
    row_baseline hrun hsplit (hmem (by simp)) (Or.inl ⟨d, by simp, hmem (by simp)⟩)⟩

/-- The new process is charged the difference to the sample of the old one. -/
theorem returning_compared_with_stale :
    ∃ cs s, PtopRun {} [] cs s ∧ cs.map Transition.input = returning ∧
      ∃ before c after, cs = before ++ c :: after ∧ visitor ∈ c.input.listing ∧
        Readable (c.input.files visitor) ∧
        ¬ ComparedWith {} c visitor (baseline before visitor) := by
  obtain ⟨cs, s, hrun, hinput, hlen, c, hc, hp, hread, hstale⟩ :=
    exists_run_of_trace (mainLoop {}) (systemInit []) returning
    (fun cs => cs.length = 4 ∧ ∃ c ∈ cs.drop 3, visitor ∈ c.input.listing ∧
      Readable (c.input.files visitor) ∧
      ¬ ComparedWith {} c visitor (baseline (cs.take 3) visitor)) (by decide +kernel)
  obtain ⟨d, hd⟩ : ∃ d, cs.drop 3 = [d] :=
    List.length_eq_one_iff.mp (by rw [List.length_drop, hlen])
  rw [hd, List.mem_singleton] at hc
  subst hc
  have hsplit : cs = cs.take 3 ++ c :: [] := by rw [← hd, List.take_append_drop]
  exact ⟨cs, s, hrun, hinput, _, c, [], hsplit, hp, hread, hstale⟩

end PTop
