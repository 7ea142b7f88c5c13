import PTop.Metatheory.Displays

/-!
# One session after another

The tables outlive the program: each session finds what the one before has left. What
`cleanstop` and `system_init` purge is enough for a session not to see the samples of an
earlier one, as long as the clock goes on in between, and what a display has written down
is never taken back.
-/

namespace PTop

open Framework

/-! ## A session -/

/-- All that the server keeps. -/
structure Store extends Database, EnergyTables

/-- How a session is started, the passes that come to their end, and the one that does not. -/
structure SessionInput where
  interval : Int := 1
  cpuFd : List PCFile := []
  init : Int × Int
  clean : Int × Int
  passes : List PassInput
  last : PassInput

structure SessionOutput where
  /-- The one that ends the session counts as it would have gone on. -/
  passes : List Pass
  code : Int

/-- Where some passes lead to. -/
def lastState (s₀ : ProgramState) (cs : List Pass) : ProgramState :=
  (cs.getLast?.map Transition.post).getD s₀

/-- A session from `main` to `cleanstop`, as a step of the tables. -/
def session (conf : Conf) (i : SessionInput) (st : Store) : Except Unit (Store × SessionOutput) :=
  let start := programStart i.interval i.cpuFd i.init i.clean st.toDatabase st.toEnergyTables
  match trace (pass conf i.interval) start i.passes with
  | .error _ => .error ()
  | .ok cs =>
      let s := lastState start cs
      match pass conf i.interval i.last s, pass conf i.interval i.last.carriedOn s with
      | .error (.clean code f), .ok (s', out) =>
          .ok ({ toDatabase := f.db, toEnergyTables := f.energies },
            { passes := cs ++ [⟨s, i.last.carriedOn, s', out⟩], code := code })
      | _, _ => .error ()

theorem lastState_eq {conf : Conf} {interval : Int} {s₀ s : ProgramState} {cs : List Pass}
    (h : ProgramRun conf interval s₀ cs s) : lastState s₀ cs = s := by
  cases h with
  | init => rfl
  | step _ _ => simp [lastState]

/-- Where a session starts. -/
def SessionInput.start (i : SessionInput) (st : Store) : ProgramState :=
  programStart i.interval i.cpuFd i.init i.clean st.toDatabase st.toEnergyTables

/-- What a session is: a run of the program, and a pass that ends in `cleanstop`. -/
theorem session_ok {conf : Conf} {i : SessionInput} {st st' : Store} {o : SessionOutput}
    (h : Steps (session conf) i st st' o) : ∃ cs s s' f out,
      ProgramRun conf i.interval (i.start st) cs s ∧ cs.map Transition.input = i.passes ∧
      pass conf i.interval i.last s = .error (.clean o.code f) ∧
      Steps (pass conf i.interval) i.last.carriedOn s s' out ∧
      o.passes = cs ++ [⟨s, i.last.carriedOn, s', out⟩] ∧
      st' = { toDatabase := f.db, toEnergyTables := f.energies } := by
  unfold Steps session at h
  dsimp only at h
  split at h
  · cases h
  · rename_i cs htrace
    split at h
    · rename_i code f s' out hend hon
      cases h
      obtain ⟨hinput, s, hrun⟩ := run_of_trace htrace
      rw [lastState_eq hrun] at hend hon
      rw [lastState_eq hrun]
      exact ⟨cs, s, s', f, out, hrun, hinput, hend, hon, rfl, rfl⟩
    · cases h

theorem session_sessionRun {conf : Conf} {i : SessionInput} {st st' : Store} {o : SessionOutput}
    (h : Steps (session conf) i st st' o) :
    SessionRun conf i.interval (i.start st) o.passes st'.toEnergyTables := by
  obtain ⟨cs, s, s', f, out, hrun, -, hend, hon, hpasses, rfl⟩ := session_ok h
  rw [hpasses]
  exact .ended hrun hend hon

/-- When a session takes samples. -/
def SessionInput.times (i : SessionInput) : List Int :=
  i.passes.map PassInput.ctime ++ [i.last.ctime]

theorem session_times {conf : Conf} {i : SessionInput} {st st' : Store} {o : SessionOutput}
    (h : Steps (session conf) i st st' o) : o.passes.map (fun c => c.input.ctime) = i.times := by
  obtain ⟨cs, s, s', f, out, -, hinput, -, -, hpasses, -⟩ := session_ok h
  rw [hpasses, SessionInput.times, ← hinput, List.map_append, List.map_map]
  rfl

/-! ## The rows of a session -/

/-- The queries of a cycle find rows of the run only. -/
theorem mem_queryDb {conf : Conf} {cpuFd : List PCFile} {before : List PtopCycle} {c : PtopCycle}
    {s : PtopState} (h : PtopRun conf cpuFd (before ++ [c]) s) :
    (∀ p ∈ (queryDb c).processInfo, ∃ d ∈ before ++ [c], p ∈ insertedRows d.output) ∧
      ∀ r ∈ (queryDb c).sysInfo, ∃ d ∈ before ++ [c], r = d.output.sysRow.toRow := by
  obtain ⟨hprocess, hsys⟩ := run_tables h.at_step.1
  have hps := tableAfter_sublist ProcessInfoRow.time (before.map processStep)
  have hss := tableAfter_sublist SysInfoRow.time (before.map sysStep)
  rw [← hprocess, everInserted_processStep] at hps
  rw [← hsys, everInserted_sysStep] at hss
  rw [queryDb_eq]
  constructor
  · intro p hp
    rcases List.mem_append.mp hp with hp | hp
    · obtain ⟨d, hd, hrow⟩ := List.mem_flatMap.mp (hps.subset hp)
      exact ⟨d, List.mem_append_left _ hd, hrow⟩
    · exact ⟨c, by simp, hp⟩
  · intro r hr
    rcases List.mem_append.mp hr with hr | hr
    · obtain ⟨d, hd, hrow⟩ := List.mem_map.mp (hss.subset hr)
      exact ⟨d, List.mem_append_left _ hd, hrow.symm⟩
    · exact ⟨c, by simp, List.mem_singleton.mp hr⟩

/-- **A session that starts clean leaves only rows of its own times.** -/
theorem session_rows {conf : Conf} {i : SessionInput} {st st' : Store} {o : SessionOutput}
    (h : Steps (session conf) i st st' o) (hold : OlderThan i.init i.clean st.toDatabase)
    (hrange : ∀ t ∈ i.times, 0 ≤ t ∧ t < 2 ^ 32) :
    (∀ p ∈ st'.processInfo, p.time ∈ i.times) ∧ ∀ r ∈ st'.sysInfo, r.time ∈ i.times := by
  have htimes := session_times h
  obtain ⟨cs, s, s', f, out, hrun, -, hend, hon, hpasses, rfl⟩ := session_ok h
  have hcycles := session_run (hrun.step hon) hold
  rw [← hpasses] at hcycles
  have hstamp : ∀ c ∈ o.passes.map Pass.cycle, stamp c.input ∈ i.times := by
    intro c hc
    obtain ⟨d, hd, rfl⟩ := List.mem_map.mp hc
    have hmem : d.input.ctime ∈ i.times := htimes ▸ List.mem_map_of_mem (f := fun c : Pass =>
      c.input.ctime) hd
    have hsame : stamp d.cycle.input = d.input.ctime := stamp_of_range (hrange _ hmem)
    rwa [hsame]
  -- the rows that are left are among those that the last display could have asked for
  obtain ⟨t, cout, hsample, hclean, -⟩ := pass_cleaned hend
  obtain ⟨t', s₁, hsample', -, -⟩ := pass_stages hon
  cases (show samplePass conf i.last.cycle s.toPtopState = .ok (t', out.cycle) from
    hsample').symm.trans hsample
  have hdb : t.db = queryDb (Pass.cycle ⟨s, i.last.carriedOn, s', out⟩) :=
    (samplePass_frame hsample).db
  have hmem := hcycles
  rw [hpasses, List.map_append, List.map_singleton] at hmem
  obtain ⟨hps, hss⟩ := mem_queryDb hmem
  have hall : cs.map Pass.cycle ++ [Pass.cycle ⟨s, i.last.carriedOn, s', out⟩] =
      o.passes.map Pass.cycle := by rw [hpasses, List.map_append, List.map_singleton]
  rw [← hdb, hall] at hps hss
  constructor
  · intro p hp
    obtain ⟨c, hc, hrow⟩ := hps p (hclean.processInfo.subset hp)
    rw [processRow_stamp hcycles hc p hrow]
    exact hstamp c hc
  · intro r hr
    obtain ⟨c, hc, rfl⟩ := hss r (hclean.sysInfo.subset hr)
    rw [sysRow_stamp hcycles hc]
    exact hstamp c hc

/-! ## The history of an installation -/

/-- A session in the life of the tables. -/
abbrev Session := Transition Store SessionInput SessionOutput

/-- One session starts after another has taken its last sample. -/
def StartsAfter (i j : SessionInput) : Prop := ∀ t ∈ i.times, t < j.init.1 ∧ t < j.init.2

instance (i j : SessionInput) : Decidable (StartsAfter i j) :=
  inferInstanceAs (Decidable (∀ t ∈ i.times, _))

/-- The rows in the tables are of the times of some sessions. -/
structure RowsOf (hs : List Session) (db : Database) : Prop where
  process : ∀ p ∈ db.processInfo, ∃ a ∈ hs, p.time ∈ a.input.times
  sys : ∀ r ∈ db.sysInfo, ∃ a ∈ hs, r.time ∈ a.input.times

/-- A later session purges them all. -/
theorem RowsOf.olderThan {hs : List Session} {db : Database} (h : RowsOf hs db) {i : SessionInput}
    (hlater : ∀ a ∈ hs, StartsAfter a.input i) : OlderThan i.init i.clean db := by
  constructor
  · intro p hp
    obtain ⟨a, ha, ht⟩ := h.process p hp
    exact Or.inl (hlater a ha _ ht).1
  · intro r hr
    obtain ⟨a, ha, ht⟩ := h.sys r hr
    exact Or.inl (hlater a ha _ ht).2

/-- What a session has seen and what it has left for good, with the pass that ended it. -/
structure Undisturbed (conf : Conf) (st : Store) (a : Session) : Prop where
  fresh : ∃ s, PtopRun conf a.input.cpuFd (a.output.passes.map Pass.cycle) s
  device : a.pre.deviceEnergy ++ (drawing a.output.passes).map
    (fun c => (c.screen a.input.interval).device.toRow) <+: st.deviceEnergy
  process : a.pre.processEnergy ++ (drawing a.output.passes).flatMap
    (fun c => (c.screen a.input.interval).rows) <+: st.processEnergy

/-- **Sessions do not see each other's samples, and keep each other's energies.** On a clock
that goes on between one session and the next, each session of a history is a run of the loop
on empty tables, and all that its displays have written down stays where it is. -/
theorem sessions_apart {conf : Conf} {hs : List Session} {st : Store}
    (h : Run (Steps (session conf)) {} hs st)
    (hrange : ∀ a ∈ hs, ∀ t ∈ a.input.times, 0 ≤ t ∧ t < 2 ^ 32)
    (hlater : hs.Pairwise fun a b => StartsAfter a.input b.input) :
    RowsOf hs st.toDatabase ∧ ∀ a ∈ hs, Undisturbed conf st a := by
  induction h with
  | init =>
      exact ⟨⟨fun p hp => absurd hp List.not_mem_nil, fun r hr => absurd hr List.not_mem_nil⟩,
        fun a ha => absurd ha List.not_mem_nil⟩
  | @step hs st i st' o _ hstep ih =>
      rw [List.pairwise_append] at hlater
      rw [List.forall_mem_append, List.forall_mem_singleton] at hrange
      obtain ⟨hrows, hapart⟩ := ih hrange.1 hlater.1
      have hold : OlderThan i.init i.clean st.toDatabase :=
        hrows.olderThan fun a ha => hlater.2.2 a ha _ (List.mem_singleton_self _)
      obtain ⟨hps, hss⟩ := session_rows hstep hold hrange.2
      have hsession := session_sessionRun hstep
      obtain ⟨hdevice, hprocess⟩ := session_energies hsession
      refine ⟨⟨fun p hp => ⟨_, List.mem_append_right _ (List.mem_singleton_self _), hps p hp⟩,
        fun r hr => ⟨_, List.mem_append_right _ (List.mem_singleton_self _), hss r hr⟩⟩, ?_⟩
      rw [List.forall_mem_append, List.forall_mem_singleton]
      constructor
      · intro a ha
        have hkept := hapart a ha
        refine ⟨hkept.fresh, hkept.device.trans ?_, hkept.process.trans ?_⟩
        · rw [hdevice]
          exact List.prefix_append ..
        · rw [hprocess]
          exact List.prefix_append ..
      · obtain ⟨s, hrun, -⟩ := hsession.exists_run
        refine ⟨⟨_, session_run hrun hold⟩, ?_, ?_⟩
        · rw [hdevice]
          exact List.prefix_refl _
        · rw [hprocess]
          exact List.prefix_refl _

/-- Two sessions of six seconds, which the user ends at the second display. -/
def twoSessions : List SessionInput :=
  [1, 101].map fun n : ℕ =>
    { init := (98 + n, 98 + n)
      clean := (98 + n, 98 + n)
      passes := [n, n + 1, n + 2, n + 3, n + 4].map meteredSecond
      last := { meteredSecond (n + 5) with term := { lastchar := some MQUIT } } }

theorem sessions_apart_twoSessions :
    ∃ hs st, Run (Steps (session { cpufreqStats := true })) {} hs st ∧
      hs.map Transition.input = twoSessions ∧
      (∀ a ∈ hs, (drawing a.output.passes).length = 2 ∧
        ∀ c ∈ drawing a.output.passes, 0 < (c.screen 1).device.ecpu) ∧
      RowsOf hs st.toDatabase ∧ ∀ a ∈ hs, Undisturbed { cpufreqStats := true } st a := by
  obtain ⟨hs, st, hrun, hinput, hrange, hlater, hdraws⟩ := exists_run_of_trace
    (session { cpufreqStats := true }) {} twoSessions
    (fun hs => (∀ a ∈ hs, ∀ t ∈ a.input.times, 0 ≤ t ∧ t < 2 ^ 32) ∧
      (hs.Pairwise fun a b => StartsAfter a.input b.input) ∧
      ∀ a ∈ hs, (drawing a.output.passes).length = 2 ∧
        ∀ c ∈ drawing a.output.passes, 0 < (c.screen 1).device.ecpu) (by decide +kernel)
  exact ⟨hs, st, hrun, hinput, hdraws, sessions_apart hrun hrange hlater⟩

end PTop
