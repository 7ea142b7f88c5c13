import PTop.Metatheory.Sessions
import PTop.Metatheory.SharedSeconds
import PTop.Model.Statements

/-!
# Connections that cannot be opened

Every statement travels over a connection of its own, and the program goes on when
there is none. Whichever of them get lost, the program samples what it would have sampled,
and the tables hold some of the rows that were sent: what the energy of the processes
adds up to is still within the energy of the machine.
-/

namespace PTop

open Framework

/-- A cycle of the loop over such connections. -/
abbrev ConnectedCycle := Transition PtopState ConnectedInput CycleOutput

/-- The runs over tables that were found. -/
abbrev ConnectedRun (conf : Conf) (cpuFd : List PCFile) (found : Database) :
    List ConnectedCycle → PtopState → Prop :=
  Run (Steps (mainLoopOver conf)) { systemInit cpuFd with db := found }

theorem mainLoopOver_ok_iff {conf : Conf} {inp : ConnectedInput} {s s' : PtopState}
    {out : CycleOutput} : Steps (mainLoopOver conf) inp s s' out ↔
      ∃ t, Steps (mainLoop conf) inp.toCycleInput s t out ∧
        s' = { t with db := (arrived inp.createConn
          (cycleStatements s.cycle inp.toCycleInput out)).foldl Statement.run s.db } := by
  unfold Steps mainLoopOver
  constructor
  · intro h
    obtain ⟨⟨t, o⟩, hloop, h⟩ := except_bind_eq_ok.mp h
    cases h
    exact ⟨t, hloop, rfl⟩
  · rintro ⟨t, hloop, rfl⟩
    rw [hloop]
    rfl

/-! ## What arrives -/

theorem arrived_sublist (createConn : ℕ → Bool) (sent : List Statement) :
    (arrived createConn sent).Sublist sent := by
  have hsub : (arrived createConn sent).Sublist (sent.zipIdx.map Prod.fst) :=
    List.filter_sublist.map _
  rwa [List.zipIdx_map_fst] at hsub

theorem arrived_all (sent : List Statement) : arrived (fun _ => true) sent = sent := by
  rw [arrived, List.filter_true, List.zipIdx_map_fst]

/-- All the statements of a cycle. -/
theorem run_cycleStatements (cycle : ℕ) (inp : CycleInput) (out : CycleOutput) (db : Database) :
    (cycleStatements cycle inp out).foldl Statement.run db = purgeStage cycle inp
      (insertSysInfo out.sysRow (out.rows.foldl (fun db r => insertPs r db) db)) := by
  unfold cycleStatements purgeStage
  rw [List.foldl_append, List.foldl_map, List.foldl_cons]
  split <;> rfl

/-- **Where every connection can be opened**, this is the loop. -/
theorem mainLoopOver_all (conf : Conf) (inp : CycleInput) (s : PtopState) :
    mainLoopOver conf { inp with createConn := fun _ => true } s = mainLoop conf inp s := by
  unfold mainLoopOver
  cases h : mainLoop conf inp s with
  | error e => rfl
  | ok next =>
      obtain ⟨s', out⟩ := next
      have hdb : s'.db = (arrived (fun _ => true) (cycleStatements s.cycle inp out)).foldl
          Statement.run s.db := by
        rw [cycle_db h, arrived_all, run_cycleStatements, foldl_insertPs]
        rfl
      show Except.ok ({ s' with db := _ }, out) = Except.ok (s', out)
      rw [← hdb]

/-! ## The rows of a statement -/

def Statement.processRows : Statement → List ProcessInfoRow
  | insertPs pst => if pst.floats.all XFloat.isFinite then [pst.toRow] else []
  | _ => []

def Statement.sysRows : Statement → List SysInfoRow
  | insertSysInfo st => [st.toRow]
  | _ => []

theorem processInfo_run (db : Database) (stmt : Statement) :
    (stmt.run db).processInfo.Sublist (db.processInfo ++ stmt.processRows) := by
  cases stmt with
  | insertPs pst =>
      show (PTop.insertPs pst db).processInfo.Sublist (_ ++ if _ then [pst.toRow] else [])
      rw [PTop.insertPs]
      split
      · exact .refl _
      · exact List.sublist_append_left _ _
  | insertSysInfo st => exact List.sublist_append_left _ _
  | freeupPs interval now => exact List.filter_sublist.trans (List.sublist_append_left _ _)
  | freeupSysInfo interval now => exact List.sublist_append_left _ _

theorem sysInfo_run (db : Database) (stmt : Statement) :
    (stmt.run db).sysInfo.Sublist (db.sysInfo ++ stmt.sysRows) := by
  cases stmt with
  | insertPs pst =>
      show (PTop.insertPs pst db).sysInfo.Sublist (db.sysInfo ++ [])
      rw [PTop.insertPs, List.append_nil]
      split <;> exact .refl _
  | insertSysInfo st => exact .refl _
  | freeupPs interval now => exact List.sublist_append_left _ _
  | freeupSysInfo interval now => exact List.filter_sublist.trans (List.sublist_append_left _ _)

theorem processRows_insertPs (rows : List ProcessInfo) :
    (rows.map Statement.insertPs).flatMap Statement.processRows =
      (rows.filter fun r => r.floats.all XFloat.isFinite).map ProcessInfo.toRow := by
  induction rows with
  | nil => rfl
  | cons r rows ih =>
      rw [List.map_cons, List.flatMap_cons, ih, List.filter_cons]
      show (if r.floats.all XFloat.isFinite then [r.toRow] else []) ++ _ = _
      split <;> rfl

theorem processRows_cycleStatements (cycle : ℕ) (inp : CycleInput) (out : CycleOutput) :
    (cycleStatements cycle inp out).flatMap Statement.processRows = insertedRows out := by
  unfold cycleStatements
  rw [List.flatMap_append, List.flatMap_cons, processRows_insertPs]
  split <;> exact List.append_nil _

theorem sysRows_cycleStatements (cycle : ℕ) (inp : CycleInput) (out : CycleOutput) :
    (cycleStatements cycle inp out).flatMap Statement.sysRows = [out.sysRow.toRow] := by
  have hrows : (out.rows.map Statement.insertPs).flatMap Statement.sysRows = [] := by
    rw [List.flatMap_map]
    exact List.flatMap_eq_nil_iff.mpr fun _ _ => rfl
  unfold cycleStatements
  rw [List.flatMap_append, List.flatMap_cons, hrows]
  split <;> rfl

/-! ## Runs -/

section Runs

variable {conf : Conf} {cpuFd : List PCFile} {found : Database} {cs : List ConnectedCycle}
  {s : PtopState}

/-- All that was sent, behind what was found. -/
def written (found : Database) (outs : List CycleOutput) : Database where
  processInfo := found.processInfo ++ outs.flatMap insertedRows
  sysInfo := found.sysInfo ++ outs.map fun out => out.sysRow.toRow

theorem written_snoc (found : Database) (outs : List CycleOutput) (out : CycleOutput) :
    written found (outs ++ [out]) =
      { processInfo := (written found outs).processInfo ++ insertedRows out
        sysInfo := (written found outs).sysInfo ++ [out.sysRow.toRow] } := by
  simp only [written, List.flatMap_append, List.flatMap_singleton, List.map_append,
    List.map_singleton, List.append_assoc]

/-- The tables hold some of the rows that were sent, in their order. -/
theorem run_sublist (h : ConnectedRun conf cpuFd found cs s) :
    s.db.processInfo.Sublist (written found (cs.map Transition.output)).processInfo ∧
      s.db.sysInfo.Sublist (written found (cs.map Transition.output)).sysInfo := by
  induction h with
  | init => simp [written]
  | @step cs s inp s' out hrun hstep ih =>
      obtain ⟨t, hloop, rfl⟩ := mainLoopOver_ok_iff.mp hstep
      have harrived := arrived_sublist inp.createConn
        (cycleStatements s.cycle inp.toCycleInput out)
      have hprocess := foldl_sublist_of_sublist processInfo_run harrived s.db
      have hsys := foldl_sublist_of_sublist sysInfo_run harrived s.db
      rw [processRows_cycleStatements] at hprocess
      rw [sysRows_cycleStatements] at hsys
      rw [List.map_append, List.map_singleton, written_snoc]
      exact ⟨hprocess.trans (ih.1.append (.refl _)), hsys.trans (ih.2.append (.refl _))⟩

/-- The same state, but for the tables. -/
def SameRest (s t : PtopState) : Prop := s = { t with db := s.db }

/-- The loop does the same on other tables. -/
theorem mainLoop_tables {inp : CycleInput} {s t s' : PtopState} {out : CycleOutput}
    (hR : SameRest s t) (h : Steps (mainLoop conf) inp s s' out) :
    ∃ t', Steps (mainLoop conf) inp t t' out ∧ SameRest s' t' := by
  obtain ⟨sys, pids, st, w, shown, hc, rfl, rfl⟩ := mainLoop_ok_iff.mp h
  rw [hR] at hc
  exact ⟨_, mainLoop_ok_iff.mpr ⟨sys, pids, st, w, shown, (cycleOf_tables s.db).mp hc, rfl, rfl⟩, rfl⟩

theorem SameRest.symm {s t : PtopState} (h : SameRest s t) : SameRest t s := by
  rw [SameRest, h]

/-- **What gets lost is missed nowhere else**: the loop does what it would have done over
connections that never fail. -/
theorem connections_unread (conf : Conf) :
    Bisimulation (Steps (mainLoopOver conf)) (Steps (mainLoop conf)) SameRest
      (fun inp inp' => inp.toCycleInput = inp') Eq where
  matched := by
    rintro s t inp _ s' o t' o' hR rfl hs ht
    obtain ⟨u, hloop, rfl⟩ := mainLoopOver_ok_iff.mp hs
    obtain ⟨v, htwin, hrest⟩ := mainLoop_tables hR hloop
    cases ht.symm.trans htwin
    refine ⟨?_, rfl⟩
    rw [SameRest, hrest]
  enabled := by
    rintro s t inp _ hR rfl
    constructor
    · rintro ⟨s', o, hs⟩
      obtain ⟨u, hloop, -⟩ := mainLoopOver_ok_iff.mp hs
      obtain ⟨v, htwin, -⟩ := mainLoop_tables hR hloop
      exact ⟨v, o, htwin⟩
    · rintro ⟨t', o, ht⟩
      obtain ⟨v, hloop, -⟩ := mainLoop_tables hR.symm ht
      exact ⟨_, o, mainLoopOver_ok_iff.mpr ⟨v, hloop, rfl⟩⟩

/-- The run of the loop over connections that never fail. -/
theorem exists_connected_run (h : ConnectedRun conf cpuFd found cs s) :
    ∃ ds t, PtopRun conf cpuFd ds t ∧
      cs.map (fun c => c.input.toCycleInput) = ds.map Transition.input ∧
      cs.map Transition.output = ds.map Transition.output ∧ SameRest s t := by
  have hb := connections_unread conf
  have h₀ : SameRest { systemInit cpuFd with db := found } (systemInit cpuFd) := rfl
  have hinputs : List.Forall₂ (fun c j => c.input.toCycleInput = id j) cs
      (cs.map fun c => c.input.toCycleInput) := forall₂_eq_iff_map.mpr (List.map_id _).symm
  obtain ⟨ds, t, hrun, hds, hR⟩ := hb.run_follow h₀ h hinputs
  have hsame := (forall₂_eq_iff_map (f := fun c : ConnectedCycle => c.input.toCycleInput)
    (g := Transition.input)).mpr hds.symm
  exact ⟨ds, t, hrun, hds.symm, forall₂_eq_iff_map.mp (hb.run_agree h₀ h hrun hsame).2, hR⟩

/-- **Connections may fail at any time**: the program then takes the samples and counts that
it would have taken over connections that never fail, and its tables hold some of the rows
found and sent, in their order and none twice. -/
theorem connections_may_fail (h : ConnectedRun conf cpuFd found cs s) :
    (∃ ds t, PtopRun conf cpuFd ds t ∧
      cs.map (fun c => c.input.toCycleInput) = ds.map Transition.input ∧
      cs.map Transition.output = ds.map Transition.output ∧ SameRest s t) ∧
    s.db.processInfo.Sublist
      (found.processInfo ++ cs.flatMap fun c => insertedRows c.output) ∧
    s.db.sysInfo.Sublist (found.sysInfo ++ cs.map fun c => c.output.sysRow.toRow) := by
  have hsub := run_sublist h
  rw [written, List.flatMap_map, List.map_map] at hsub
  exact ⟨exists_connected_run h, hsub⟩

end Runs

/-- The inputs of `metered` over connections of which one fails in each cycle: that for the
second process, and that for the machine. -/
def meteredOver : List ConnectedInput :=
  List.zipWith (fun inp lost => { inp with createConn := fun n => n ≠ lost }) metered [1, 2]

theorem connections_may_fail_metered :
    ∃ cs s, ConnectedRun { cpufreqStats := true } [] {} cs s ∧
      cs.map Transition.input = meteredOver ∧
      s.db.processInfo.length = 3 ∧ (cs.flatMap fun c => insertedRows c.output).length = 4 ∧
      s.db.processInfo.Sublist ([] ++ cs.flatMap fun c => insertedRows c.output) := by
  obtain ⟨cs, s, hrun, hinput, hsent, c, hc, hlen⟩ := exists_run_of_trace
    (mainLoopOver { cpufreqStats := true }) (systemInit []) meteredOver
    (fun cs => (cs.flatMap fun c => insertedRows c.output).length = 4 ∧
      ∃ c ∈ cs.getLast?, c.post.db.processInfo.length = 3) (by decide +kernel)
  obtain ⟨before, rfl⟩ := List.getLast?_eq_some_iff.mp hc
  obtain ⟨-, -, rfl⟩ := hrun.snoc_inv
  exact ⟨_, c.post, hrun, hinput, hlen, hsent, (connections_may_fail hrun).2.1⟩

/-! ## The energy over what arrived -/

theorem Accounted.of_sublist {stamps : List u32} {db db' : Database} (h : Accounted stamps db)
    (hps : db'.processInfo.Sublist db.processInfo) (hss : db'.sysInfo.Sublist db.sysInfo) :
    Accounted stamps db' where
  processTimes p hp := h.processTimes p (hps.subset hp)
  sysTimes s hs := h.sysTimes s (hss.subset hs)
  nonneg p hp := h.nonneg p (hps.subset hp)
  covered s hs := (h.covered s (hss.subset hs)).of_sublist hps h.nonneg

/-- All that was sent is accounted for, if no two cycles have the same time stamp and none
has that of a row that was found. -/
theorem accounted_written {found : Database} {stamps : List u32} (hfound : Accounted stamps found)
    {outs : List CycleOutput}
    (htimes : ∀ out ∈ outs, ∀ p ∈ insertedRows out, p.time = out.sysRow.toRow.time)
    (hdistinct : (outs.map fun out => out.sysRow.time).Nodup)
    (hnew : ∀ out ∈ outs, out.sysRow.time ∉ stamps) (hshared : ∀ out ∈ outs, ∃ ds, SharedAs out ds) :
    Accounted (stamps ++ outs.map fun out => out.sysRow.time) (written found outs) := by
  induction outs using List.reverseRecOn with
  | nil => simpa [written] using hfound
  | append_singleton outs out ih =>
      simp only [List.mem_append, List.mem_singleton, or_imp, forall_and, forall_eq] at htimes hnew hshared
      rw [List.map_append, List.map_singleton] at hdistinct ⊢
      have hlast := List.nodup_append.mp hdistinct
      have hacc := ih htimes.1 hlast.1 hnew.1 hshared.1
      obtain ⟨ds, hds⟩ := hshared.2
      rw [written_snoc, ← List.append_assoc]
      refine hacc.insert hds htimes.2 fun hmem => ?_
      rcases List.mem_append.mp hmem with hmem | hmem
      · exact hnew.2 hmem
      · exact hlast.2.2 _ hmem _ (List.mem_singleton_self _) rfl

/-- The rows of a cycle have the time of the machine's. -/
theorem run_insertedRows_time {conf : Conf} {cpuFd : List PCFile} {cs : List PtopCycle}
    {s : PtopState} (h : PtopRun conf cpuFd cs s) :
    ∀ out ∈ cs.map Transition.output, ∀ p ∈ insertedRows out, p.time = out.sysRow.toRow.time := by
  intro out hout
  obtain ⟨c, hc, rfl⟩ := List.mem_map.mp hout
  obtain ⟨before, after, rfl⟩ := List.append_of_mem hc
  obtain ⟨hbefore, hstep⟩ := h.at_step
  exact insertedRows_time (run_stateOk hbefore) hstep

/-- **However many statements get lost, the energy of the processes is within the energy of
the machine**, for any processes and any window: a process pays only in seconds for which the
row of the machine has arrived too. The tables may be those of earlier sessions. -/
theorem energy_within_system_over {conf : Conf} {cpuFd : List PCFile} {found : Database}
    {cs : List ConnectedCycle} {s : PtopState} (h : ConnectedRun conf cpuFd found cs s)
    {stamps : List u32} (hfound : Accounted stamps found)
    (hdistinct : (cs.map fun c => c.output.sysRow.time).Nodup)
    (hnew : ∀ c ∈ cs, c.output.sysRow.time ∉ stamps)
    (hshared : ∀ c ∈ cs, ∃ ds, SharedAs c.output ds) (pids : Finset Int) (length now : Int) :
    ∑ pid ∈ pids, CPUEnergy s.db pid length now ≤ (systemEnergy s.db length now).ecpu := by
  obtain ⟨ds, t, hrun, -, houtputs, -⟩ := exists_connected_run h
  have htimes := run_insertedRows_time hrun
  rw [← houtputs] at htimes
  obtain ⟨hps, hss⟩ := run_sublist h
  have hstamps : ((cs.map Transition.output).map fun out => out.sysRow.time).Nodup := by
    rwa [List.map_map]
  have hacc := (accounted_written hfound htimes hstamps (List.forall_mem_map.mpr hnew)
    (List.forall_mem_map.mpr hshared)).of_sublist hps hss
  exact sum_CPUEnergy_le hacc.nonneg hacc.covered pids length now

/-- A second that an earlier session has left behind. -/
def earlierSecond : Database where
  processInfo := [⟨1, 3, 0, 0, 0, 40, 0, 0, 0, 0⟩]
  sysInfo := [⟨3, 0, 0, 0, 0, 7, 0, 100, 50, 0⟩]

theorem accounted_earlierSecond : Accounted [3] earlierSecond where
  processTimes p hp := by
    obtain rfl := List.mem_singleton.mp hp
    exact ⟨3, List.mem_singleton_self 3, rfl⟩
  sysTimes s hs := by
    obtain rfl := List.mem_singleton.mp hs
    exact ⟨3, List.mem_singleton_self 3, rfl⟩
  nonneg p hp := by
    obtain rfl := List.mem_singleton.mp hp
    decide
  covered s hs := by
    obtain rfl := List.mem_singleton.mp hs
    exact ⟨⟨by decide, by decide, by decide, by decide, by decide⟩, by decide +kernel⟩

theorem energy_within_system_over_metered :
    ∃ cs s, ConnectedRun { cpufreqStats := true } [] earlierSecond cs s ∧
      cs.map Transition.input = meteredOver ∧ s.db.sysInfo.length = 2 ∧
      0 < CPUEnergy s.db 1 10 6 ∧
      ∑ pid ∈ {1, 7}, CPUEnergy s.db pid 10 6 ≤ (systemEnergy s.db 10 6).ecpu := by
  obtain ⟨cs, s, hrun, hinput, hdistinct, hnew, hshared, c, hc, hlen, hpos⟩ := exists_run_of_trace
    (mainLoopOver { cpufreqStats := true }) { systemInit [] with db := earlierSecond } meteredOver
    (fun cs => (cs.map fun c => c.output.sysRow.time).Nodup ∧
      (∀ c ∈ cs, c.output.sysRow.time ∉ [3]) ∧
      (∀ c ∈ cs, ∃ ds ∈ [[30, 30], [67, 67]], SharedAs c.output ds) ∧
      ∃ c ∈ cs.getLast?, c.post.db.sysInfo.length = 2 ∧ 0 < CPUEnergy c.post.db 1 10 6)
    (by decide +kernel)
  obtain ⟨before, rfl⟩ := List.getLast?_eq_some_iff.mp hc
  obtain ⟨-, -, rfl⟩ := hrun.snoc_inv
  exact ⟨_, c.post, hrun, hinput, hlen, hpos, energy_within_system_over hrun accounted_earlierSecond
    hdistinct hnew (fun d hd => (hshared d hd).imp fun ds h => h.2) {1, 7} 10 6⟩

end PTop
