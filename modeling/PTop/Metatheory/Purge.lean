import PTop.Framework.Retention
import PTop.Metatheory.EnergyShare

/-!
# What the purges leave to the queries

`freeup_all` deletes what is older than a fixed number of seconds every so many
cycles, and a query asks for as many seconds as the sample interval has. The two
tables are logs with purges, so a window is complete iff every purge spared it.
-/

namespace PTop

open Framework

/-! ## The tables of a run -/

/-- The cycle ends with a purge. -/
def Purges (c : PtopCycle) : Prop := c.pre.cycle % CLEAN_INTERVAL = 0

instance (c : PtopCycle) : Decidable (Purges c) := inferInstanceAs (Decidable (_ = _))

/-- What a cycle does to the two tables. -/
def processStep (c : PtopCycle) : TableStep ProcessInfoRow Int where
  rows := insertedRows c.output
  horizon := if Purges c then some (c.input.purgeTime.1 - CLEAN_INTERVAL) else none

def sysStep (c : PtopCycle) : TableStep SysInfoRow Int where
  rows := [c.output.sysRow.toRow]
  horizon := if Purges c then some (c.input.purgeTime.2 - CLEAN_INTERVAL) else none

theorem mem_processStep_horizon {c : PtopCycle} {t : Int} : t ∈ (processStep c).horizon ↔
    Purges c ∧ t = c.input.purgeTime.1 - CLEAN_INTERVAL := by
  unfold processStep
  by_cases hpurge : Purges c
  · simp [hpurge, eq_comm]
  · simp [hpurge]

theorem mem_sysStep_horizon {c : PtopCycle} {t : Int} : t ∈ (sysStep c).horizon ↔
    Purges c ∧ t = c.input.purgeTime.2 - CLEAN_INTERVAL := by
  unfold sysStep
  by_cases hpurge : Purges c
  · simp [hpurge, eq_comm]
  · simp [hpurge]

theorem cycle_tables {conf : Conf} {c : PtopCycle}
    (h : Steps (mainLoop conf) c.input c.pre c.post c.output) :
    c.post.db.processInfo = (processStep c).apply ProcessInfoRow.time c.pre.db.processInfo ∧
      c.post.db.sysInfo = (sysStep c).apply SysInfoRow.time c.pre.db.sysInfo := by
  have hdb := cycle_db h
  by_cases hpurge : Purges c
  · have hp : (processStep c).horizon = some (c.input.purgeTime.1 - CLEAN_INTERVAL) := if_pos hpurge
    have hs : (sysStep c).horizon = some (c.input.purgeTime.2 - CLEAN_INTERVAL) := if_pos hpurge
    have hstage : ∀ db, purgeStage c.pre.cycle c.input db =
        freeupAll (BitVec.ofNat 32 CLEAN_INTERVAL) c.input.purgeTime db := fun _ => if_pos hpurge
    rw [hdb, hstage, TableStep.apply_of_some hp, TableStep.apply_of_some hs]
    exact ⟨rfl, rfl⟩
  · have hp : (processStep c).horizon = none := if_neg hpurge
    have hs : (sysStep c).horizon = none := if_neg hpurge
    have hstage : ∀ db, purgeStage c.pre.cycle c.input db = db := fun _ => if_neg hpurge
    rw [hdb, hstage, TableStep.apply_of_none hp, TableStep.apply_of_none hs]
    exact ⟨rfl, rfl⟩

/-- **The tables are logs with purges.** -/
theorem run_tables {conf : Conf} {cpuFd : List PCFile} {cs : List PtopCycle} {s : PtopState}
    (h : PtopRun conf cpuFd cs s) :
    s.db.processInfo = tableAfter ProcessInfoRow.time (cs.map processStep) ∧
      s.db.sysInfo = tableAfter SysInfoRow.time (cs.map sysStep) := by
  induction h with
  | init => exact ⟨rfl, rfl⟩
  | @step cs s inp s' out hrun hstep ih =>
      obtain ⟨hps, hss⟩ := cycle_tables (c := ⟨s, inp, s', out⟩) hstep
      rw [List.map_append, List.map_append, List.map_singleton, List.map_singleton,
        tableAfter_snoc, tableAfter_snoc, ← ih.1, ← ih.2]
      exact ⟨hps, hss⟩

/-- The tables as the display finds them: after the inserts of the cycle and
before its purge. -/
def queryDb (c : PtopCycle) : Database :=
  insertSysInfo c.output.sysRow (c.output.rows.foldl (fun db r => insertPs r db) c.pre.db)

theorem queryDb_eq (c : PtopCycle) : queryDb c =
    { processInfo := c.pre.db.processInfo ++ insertedRows c.output
      sysInfo := c.pre.db.sysInfo ++ [c.output.sysRow.toRow] } := by
  rw [queryDb, foldl_insertPs]
  rfl

/-- Every row that the cycles `cs` inserted with a time in the window is there. -/
structure WindowComplete (cs : List PtopCycle) (db : Database) (length now : Int) : Prop where
  processInfo : db.processInfo.filter (fun p => inWindow length now p.time) =
    (cs.flatMap fun c => insertedRows c.output).filter fun p => inWindow length now p.time
  sysInfo : db.sysInfo.filter (fun s => inWindow length now s.time) =
    (cs.map fun c => c.output.sysRow.toRow).filter fun s => inWindow length now s.time

/-! ## The clock -/

/-- The time stamp of the rows of a cycle. -/
def stamp (inp : CycleInput) : Int := (BitVec.ofInt 32 inp.ctime).toNat

/-- The readings of the clock in a cycle. -/
def cycleReadings (c : PtopCycle) : List Int :=
  c.input.ctime :: if Purges c then [c.input.purgeTime.1, c.input.purgeTime.2] else []

/-- The clock never goes back. -/
def ClockNondecreasing (cs : List PtopCycle) : Prop := (cs.flatMap cycleReadings).Pairwise (· ≤ ·)

instance (cs : List PtopCycle) : Decidable (ClockNondecreasing cs) :=
  inferInstanceAs (Decidable (List.Pairwise _ _))

theorem ClockNondecreasing.purge_le {cs : List PtopCycle} (h : ClockNondecreasing cs)
    {c : PtopCycle} (hc : c ∈ cs) (hpurge : Purges c) :
    c.input.purgeTime.1 ≤ c.input.purgeTime.2 := by
  have hcycle := (List.pairwise_flatMap.mp h).1 c hc
  rw [cycleReadings, if_pos hpurge] at hcycle
  simpa using (List.pairwise_cons.mp hcycle).2

theorem ClockNondecreasing.of_append {cs ds : List PtopCycle}
    (h : ClockNondecreasing (cs ++ ds)) : ClockNondecreasing cs := by
  rw [ClockNondecreasing, List.flatMap_append] at h
  exact (List.pairwise_append.mp h).1

/-- A purge is not later than the start of a later cycle. -/
theorem ClockNondecreasing.purge_le_ctime {before : List PtopCycle} {c : PtopCycle}
    (h : ClockNondecreasing (before ++ [c])) {d : PtopCycle} (hd : d ∈ before)
    (hpurge : Purges d) : d.input.purgeTime.2 ≤ c.input.ctime := by
  have hcycles := (List.pairwise_flatMap.mp h).2
  have hpair := (List.pairwise_append.mp hcycles).2.2 d hd c (List.mem_singleton_self c)
  refine hpair _ ?_ _ List.mem_cons_self
  rw [cycleReadings, if_pos hpurge]
  simp

section Stamps

variable {conf : Conf} {cpuFd : List PCFile} {cs : List PtopCycle} {s : PtopState}

theorem sysRow_stamp (h : PtopRun conf cpuFd cs s) {c : PtopCycle} (hc : c ∈ cs) :
    c.output.sysRow.toRow.time = stamp c.input := by
  obtain ⟨before, after, rfl⟩ := List.append_of_mem hc
  obtain ⟨sys, pids, st, w, shown, -, -, hout⟩ := mainLoop_ok_iff.mp h.at_step.2
  rw [hout]
  rfl

theorem processRow_stamp (h : PtopRun conf cpuFd cs s) {c : PtopCycle} (hc : c ∈ cs) :
    ∀ p ∈ insertedRows c.output, p.time = stamp c.input := by
  intro p hp
  rw [← sysRow_stamp h hc]
  obtain ⟨before, after, rfl⟩ := List.append_of_mem hc
  obtain ⟨hrun, hstep⟩ := h.at_step
  exact insertedRows_time (run_stateOk hrun) hstep p hp

end Stamps

/-! ## Which purges spare a window -/

/-- The purge of a cycle leaves alone the rows of the window that were inserted
in this cycle or before it. -/
def SparesWindow (length now : Int) (earlier : List PtopCycle) (d : PtopCycle) : Prop :=
  Purges d → ∀ e ∈ earlier ++ [d], inWindow length now (stamp e.input) →
    d.input.purgeTime.2 - CLEAN_INTERVAL ≤ stamp e.input

section Window

variable {conf : Conf} {cpuFd : List PCFile} {before after : List PtopCycle} {c : PtopCycle}
  {s : PtopState} {length now : Int}

theorem everInserted_processStep (cs : List PtopCycle) :
    everInserted (cs.map processStep) = cs.flatMap fun c => insertedRows c.output := by
  rw [everInserted, List.flatMap_map]
  rfl

theorem everInserted_sysStep (cs : List PtopCycle) :
    everInserted (cs.map sysStep) = cs.map fun c => c.output.sysRow.toRow := by
  rw [everInserted, List.flatMap_map, List.map_eq_flatMap]
  rfl

/-- What the queries of a cycle miss is what the purges before it took. -/
theorem windowComplete_iff_spares (h : PtopRun conf cpuFd (before ++ c :: after) s) :
    WindowComplete (before ++ [c]) (queryDb c) length now ↔
      EachAfter (Spares ProcessInfoRow.time fun p => inWindow length now p.time)
          (before.map processStep) ∧
        EachAfter (Spares SysInfoRow.time fun s => inWindow length now s.time)
          (before.map sysStep) := by
  obtain ⟨hps, hss⟩ := run_tables h.at_step.1
  have hp : (before.flatMap fun c => insertedRows c.output) ++ insertedRows c.output =
      (before ++ [c]).flatMap fun c => insertedRows c.output := by
    rw [List.flatMap_append, List.flatMap_singleton]
  have hs : (before.map fun c => c.output.sysRow.toRow) ++ [c.output.sysRow.toRow] =
      (before ++ [c]).map fun c => c.output.sysRow.toRow := by
    rw [List.map_append, List.map_singleton]
  -- the rows of the cycle itself are there in any case
  rw [← window_eq_iff, ← window_eq_iff, ← hps, ← hss, everInserted_processStep,
    everInserted_sysStep, ← filter_append_cancel (insertedRows c.output),
    ← filter_append_cancel [c.output.sysRow.toRow], hp, hs]
  constructor
  · rintro ⟨hprocess, hsys⟩
    rw [queryDb_eq] at hprocess hsys
    exact ⟨hprocess, hsys⟩
  · rintro ⟨hprocess, hsys⟩
    rw [queryDb_eq]
    exact ⟨hprocess, hsys⟩

/-- A purge spares the machine's rows iff it spares the window. -/
theorem spares_sysStep_iff (h : PtopRun conf cpuFd (before ++ [c]) s) :
    Spares SysInfoRow.time (fun s => inWindow length now s.time) (before.map sysStep) (sysStep c) ↔
      SparesWindow length now before c := by
  have hrows : everInserted (before.map sysStep) ++ (sysStep c).rows =
      (before ++ [c]).map fun c => c.output.sysRow.toRow := by
    rw [everInserted_sysStep, List.map_append]
    rfl
  rw [Spares, SparesWindow, hrows]
  constructor
  · intro hspares hpurge e he hwin
    rw [← sysRow_stamp h he] at hwin ⊢
    exact hspares _ (mem_sysStep_horizon.mpr ⟨hpurge, rfl⟩) _ (List.mem_map_of_mem he) hwin
  · intro hspares t ht r hr hwin
    obtain ⟨hpurge, rfl⟩ := mem_sysStep_horizon.mp ht
    obtain ⟨e, he, rfl⟩ := List.mem_map.mp hr
    rw [sysRow_stamp h he] at hwin ⊢
    exact hspares hpurge e he hwin

/-- It then spares the rows of the processes too, since their purge is not later. -/
theorem spares_processStep (h : PtopRun conf cpuFd (before ++ [c]) s)
    (hclock : Purges c → c.input.purgeTime.1 ≤ c.input.purgeTime.2)
    (hspares : SparesWindow length now before c) :
    Spares ProcessInfoRow.time (fun p => inWindow length now p.time) (before.map processStep)
      (processStep c) := by
  have hrows : everInserted (before.map processStep) ++ (processStep c).rows =
      (before ++ [c]).flatMap fun c => insertedRows c.output := by
    rw [everInserted_processStep, List.flatMap_append, List.flatMap_singleton]
    rfl
  intro t ht p hp hwin
  obtain ⟨hpurge, rfl⟩ := mem_processStep_horizon.mp ht
  rw [hrows] at hp
  obtain ⟨e, he, hpe⟩ := List.mem_flatMap.mp hp
  have hwin' : inWindow length now p.time := hwin
  rw [processRow_stamp h he p hpe] at hwin' ⊢
  calc c.input.purgeTime.1 - CLEAN_INTERVAL
      ≤ c.input.purgeTime.2 - CLEAN_INTERVAL := sub_le_sub_right (hclock hpurge) _
    _ ≤ stamp e.input := hspares hpurge e he hwin'

/-- A cycle of a run and the cycles before it. -/
theorem run_to_cycle {earlier later : List PtopCycle} {d : PtopCycle}
    (h : PtopRun conf cpuFd (earlier ++ d :: later) s) :
    ∃ t, PtopRun conf cpuFd (earlier ++ [d]) t := by
  rw [List.append_cons] at h
  exact h.of_append

/-- Purges that spare the window leave it complete. -/
theorem windowComplete_of_sparesWindow (h : PtopRun conf cpuFd (before ++ c :: after) s)
    (hclock : ClockNondecreasing (before ++ c :: after))
    (hspares : EachAfter (SparesWindow length now) before) :
    WindowComplete (before ++ [c]) (queryDb c) length now := by
  obtain ⟨t, hrun⟩ := h.of_append
  refine (windowComplete_iff_spares h).mpr ⟨eachAfter_map _ |>.mpr ?_, eachAfter_map _ |>.mpr ?_⟩
  · rintro earlier d later rfl
    obtain ⟨t', hd⟩ := run_to_cycle hrun
    exact spares_processStep hd (hclock.purge_le (by simp)) (hspares earlier d later rfl)
  · rintro earlier d later rfl
    obtain ⟨t', hd⟩ := run_to_cycle hrun
    exact (spares_sysStep_iff hd).mpr (hspares earlier d later rfl)

/-- **The window of a query is complete iff every earlier purge spared it.** -/
theorem window_complete_iff (h : PtopRun conf cpuFd (before ++ c :: after) s)
    (hclock : ClockNondecreasing (before ++ c :: after)) :
    WindowComplete (before ++ [c]) (queryDb c) length now ↔
      EachAfter (SparesWindow length now) before := by
  constructor
  · intro hcomplete
    have hsys := (eachAfter_map _).mp ((windowComplete_iff_spares h).mp hcomplete).2
    obtain ⟨t, hrun⟩ := h.of_append
    rintro earlier d later rfl
    obtain ⟨t', hd⟩ := run_to_cycle hrun
    exact (spares_sysStep_iff hd).mp (hsys earlier d later rfl)
  · exact windowComplete_of_sparesWindow h hclock

/-- **Short intervals lose nothing**: a purge keeps the rows of as many seconds as
there are cycles between purges. -/
theorem windowComplete_of_short (h : PtopRun conf cpuFd (before ++ c :: after) s)
    (hclock : ClockNondecreasing (before ++ c :: after)) (hshort : length ≤ CLEAN_INTERVAL + 1) :
    WindowComplete (before ++ [c]) (queryDb c) length c.input.ctime := by
  refine windowComplete_of_sparesWindow h hclock ?_
  rintro earlier d later rfl hpurge e - hwin
  have hclock' : ClockNondecreasing ((earlier ++ d :: later) ++ [c]) := by
    rw [List.append_cons] at hclock
    exact hclock.of_append
  have hle := hclock'.purge_le_ctime (d := d) (by simp) hpurge
  -- a row of the window is younger than the query by less than its length
  have hwin' : c.input.ctime - length < stamp e.input := by
    rw [inWindow, Bool.and_eq_true] at hwin
    exact of_decide_eq_true hwin.1
  omega

end Window

/-- Two cycles after a purge that comes 40 seconds after the first 30 cycles. -/
def hurried : List CycleInput :=
  (List.range 33).map fun k =>
    { plainCycle 0 [resident] fun _ => plainFiles {} {} with
      ctime := if k < 30 then 0 else 40, purgeTime := (40, 40) }

theorem window_complete_iff_hurried :
    ∃ before c s, PtopRun {} [] (before ++ [c]) s ∧
      (before ++ [c]).map Transition.input = hurried ∧
      (WindowComplete (before ++ [c]) (queryDb c) 50 40 ↔
        EachAfter (SparesWindow 50 40) before) := by
  obtain ⟨cs, s, hrun, hinput, hclock, hne⟩ := exists_run_of_trace (mainLoop {}) (systemInit [])
    hurried (fun cs => ClockNondecreasing cs ∧ cs ≠ []) (by decide +kernel)
  rw [← List.dropLast_append_getLast hne] at hrun hinput hclock
  exact ⟨_, _, s, hrun, hinput, window_complete_iff hrun hclock⟩

/-- The display of cycle 33 asks for 50 seconds; the purge of cycle 31 has taken
the rows of the first 30 cycles, 40 seconds old. -/
theorem purge_takes_window :
    ∃ before c s, PtopRun {} [] (before ++ [c]) s ∧
      (before ++ [c]).map Transition.input = hurried ∧ ClockNondecreasing (before ++ [c]) ∧
      c.pre.screen = true ∧ c.pre.cycle % 3 = 0 ∧
      ¬ WindowComplete (before ++ [c]) (queryDb c) 50 c.input.ctime := by
  obtain ⟨cs, s, hrun, hinput, hlen, hclock, c, hc, hscreen, hcycle, hlost⟩ :=
    exists_run_of_trace (mainLoop {}) (systemInit []) hurried
    (fun cs => cs.length = 33 ∧ ClockNondecreasing cs ∧
      ∃ c ∈ cs.drop 32, c.pre.screen = true ∧ c.pre.cycle % 3 = 0 ∧
        (queryDb c).sysInfo.filter (fun s => inWindow 50 c.input.ctime s.time) ≠
          (cs.map fun c => c.output.sysRow.toRow).filter
            fun s => inWindow 50 c.input.ctime s.time) (by decide +kernel)
  obtain ⟨d, hd⟩ : ∃ d, cs.drop 32 = [d] :=
    List.length_eq_one_iff.mp (by rw [List.length_drop, hlen])
  rw [hd, List.mem_singleton] at hc
  subst hc
  have hsplit : cs = cs.take 32 ++ [c] := by rw [← hd, List.take_append_drop]
  rw [hsplit] at hrun hinput hclock hlost
  exact ⟨_, c, s, hrun, hinput, hclock, hscreen, hcycle, fun hcomplete => hlost hcomplete.sysInfo⟩

end PTop
