import PTop.Framework.Alike
import PTop.Model.Refusals
import PTop.Metatheory.Connections
import PTop.Metatheory.Ledger

/-!
# A server that may refuse

Whatever the server refuses, a query of the display or a statement, the program takes the
same steps: it samples, draws, reads its keys and ends as it would have done. What differs
is in the tables and in the figures on the screen. The energies that reach the table of the
processes are still a part of what the machine has used; only where the two calls about the
machine itself are refused is that not written down beside them.
-/

namespace PTop

open Framework

/-! ## A server that refuses nothing -/

theorem through_all {α : Type} (xs : List α) : through (fun _ => true) xs = xs := by
  rw [through, List.filter_true, List.zipIdx_map_fst]

theorem energyScreenOver_all (db : Database) (tlength now : Int) (pstList : ℕ → ProcessInfo)
    (amount : Int) :
    energyScreenOver {} db tlength now pstList amount = energyScreen db tlength now pstList amount := by
  have hline : (fun p : ProcessInfo × ℕ => energyLineOver {} p.2 db tlength now
      (systemEnergy db tlength now) p.1) =
        energyLine db tlength now (systemEnergy db tlength now) ∘ Prod.fst := rfl
  have hlines : (showProcStat pstList amount).zipIdx.map (fun p => energyLineOver {} p.2 db tlength
      now (systemEnergy db tlength now) p.1) =
        (showProcStat pstList amount).map (energyLine db tlength now (systemEnergy db tlength now)) := by
    rw [hline, ← List.map_map, List.zipIdx_map_fst]
  exact congrArg (EnergyScreen.mk (systemEnergy db tlength now)) hlines

theorem persistOver_all (scr : EnergyScreen) (t : EnergyTables) : persistOver {} scr t = persist scr t := by
  rw [persistOver, through_all]
  rfl

theorem samplePassOver_all (conf : Conf) (inp : CycleInput) (s : PtopState) :
    samplePassOver conf {} inp s = samplePass conf inp s := by
  rw [samplePassOver]
  cases h : samplePass conf inp s with
  | error e => rfl
  | ok r =>
      have hdb := (samplePass_frame h).db
      simp only [bind, Except.bind, through_all, if_true, ← hdb]
      rfl

theorem keyStageOver_all (interval : Int) (inp : PassInput) (scr : EnergyScreen) (s : ProgramState) :
    keyStageOver interval { inp with conn := {} } scr s = keyStage interval inp scr s := by
  unfold keyStageOver
  split
  · rename_i hquit
    rw [keyStage, show inp.term.lastchar = some MQUIT from hquit]
    rfl
  · rfl

theorem drawStageOver_all (interval : Int) (inp : PassInput) (amount : Int) (s : ProgramState) :
    drawStageOver interval { inp with conn := {} } amount s = drawStage interval inp amount s := by
  unfold drawStageOver drawStage displayStageOver displayStage
  simp only [energyScreenOver_all, persistOver_all, keyStageOver_all]
  rfl

theorem pauseOver_all (interval : Int) (inp : PassInput) (s : ProgramState) :
    pauseOver interval { inp with conn := {} } s = pause interval inp s := by
  unfold pauseOver
  split
  · rename_i hsig
    rw [pause, show inp.signal = some .sigint from hsig]
    rfl
  · rename_i hsig
    rw [pause, show inp.signal = some .sigterm from hsig]
    rfl
  · rfl

/-- **Where the server refuses nothing**, this is the program. -/
theorem passOver_all (conf : Conf) (interval : Int) (inp : PassInput) (s : ProgramState) :
    passOver conf interval { inp with conn := {} } s = pass conf interval inp s := by
  unfold passOver pass
  simp only [samplePassOver_all, drawStageOver_all, pauseOver_all]
  rfl

/-! ## The same steps -/

/-- The same state, but for what is in the tables. -/
def SameProgram (s t : ProgramState) : Prop :=
  s = { t with db := s.db, energies := s.energies }

theorem SameProgram.cases {s t : ProgramState} (h : SameProgram s t) :
    ∃ db energies, s = { t with db := db, energies := energies } := ⟨_, _, h⟩

/-- What a line of the screen is about. -/
def EnergyLine.subject (line : EnergyLine) : u32 × Int × CString := (line.pid, line.time, line.cmdline)

/-- The same display, but for its figures. -/
structure SameDisplay (d d' : Display) : Prop where
  subjects : d.screen.lines.map EnergyLine.subject = d'.screen.lines.map EnergyLine.subject
  help : d.help = d'.help
  kill : d.kill = d'.kill

/-- The same output, but for the figures of the display. -/
structure SameAnswer (o o' : PassOutput) : Prop where
  cycle : o.cycle = o'.cycle
  display : Option.Rel SameDisplay o.display o'.display

/-- The same ending, but for what is in the tables. -/
inductive SameEnding : Ending → Ending → Prop where
  | stop (e : Stop) : SameEnding (.stop e) (.stop e)
  | clean (code : Int) {s t : ProgramState} (h : SameProgram s t) :
      SameEnding (.clean code s) (.clean code t)
  | killed (sig : Int) : SameEnding (.killed sig) (.killed sig)
  | asleep : SameEnding .asleep .asleep

/-- A pass up to the display does not read the tables. -/
theorem samplePass_tables (conf : Conf) (inp : CycleInput) (s : PtopState) (db : Database) :
    samplePass conf inp { s with db := db } = (samplePass conf inp s).map fun r =>
      ({ r.1 with db := insertSysInfo r.2.sysRow (r.2.rows.foldl (fun db r => insertPs r db) db) },
        r.2) := by
  unfold samplePass
  simp only [bind, Except.bind]
  cases readCpuStage inp s.toSysState with
  | error e => rfl
  | ok sys =>
      cases inp.proc with
      | none => rfl
      | some pids =>
          dsimp only
          cases readListing conf inp.files sys.curr pids s.toTreeState with
          | error e => rfl
          | ok st =>
              dsimp only
              cases writeStat conf ((readSystemStats conf inp sys).writeArgs inp.ctime) st.tree
                  (.start ((readSystemStats conf inp sys).sysStats (readSystemStats conf inp sys).curr)
                    s.pstList st.fdLog) <;> rfl

section Stages

variable {conf : Conf} {interval : Int} {inp : RefusedInput} {s t : ProgramState}

theorem samplePassOver_alike {inp : CycleInput} {s t : PtopState} (conn : Connections)
    (h : SameRest s t) : Alike Eq (fun a b => SameRest a.1 b.1 ∧ a.2 = b.2)
      (samplePassOver conf conn inp s) (samplePass conf inp t) := by
  rw [h, samplePassOver, samplePass_tables]
  cases samplePass conf inp t with
  | error e => exact .error rfl
  | ok r => exact .ok ⟨rfl, rfl⟩

theorem cleanstopOver_alike (h : SameProgram s t) (conn : Connections) (code : Int)
    (now : Int × Int) : SameEnding (cleanstopOver conn code now s) (cleanstop code now t) := by
  rw [h]
  exact .clean code rfl

/-- The screens of two displays are about the same processes. -/
theorem subjects_energyScreenOver (conn : Connections) (db db' : Database) (tlength now : Int)
    (pstList : ℕ → ProcessInfo) (amount : Int) :
    (energyScreenOver conn db tlength now pstList amount).lines.map EnergyLine.subject =
      (energyScreen db' tlength now pstList amount).lines.map EnergyLine.subject := by
  have hsubject : (fun p : ProcessInfo × ℕ => (energyLineOver conn p.2 db tlength now
      (systemEnergyOver conn.systemEnergy db tlength now) p.1).subject) =
        (fun pst : ProcessInfo => (pst.pid, now, pst.cmdline)) ∘ Prod.fst := rfl
  rw [energyScreenOver, energyScreen, List.map_map, List.map_map]
  show List.map (fun p : ProcessInfo × ℕ => _) _ = _
  rw [show EnergyLine.subject ∘ _ = _ from hsubject, ← List.map_map, List.zipIdx_map_fst]
  rfl

theorem keyStageOver_alike (h : SameProgram s t) {scr scr' : EnergyScreen}
    (hscr : scr.lines.map EnergyLine.subject = scr'.lines.map EnergyLine.subject) :
    Alike SameEnding (fun a b => SameProgram a.1 b.1 ∧ SameDisplay a.2 b.2)
      (keyStageOver interval inp scr s) (keyStage interval inp.toPassInput scr' t) := by
  by_cases hquit : inp.term.lastchar = some MQUIT
  · have hkey : keyStage interval inp.toPassInput scr' t = .error (cleanstop 0 inp.cleanTime t) := by
      rw [keyStage, hquit]
      rfl
    rw [keyStageOver, if_pos hquit, hkey]
    exact .error (cleanstopOver_alike h inp.conn 0 inp.cleanTime)
  · rw [keyStageOver, if_neg hquit, h]
    unfold keyStage
    dsimp only
    split_ifs with hnone hkey hhelp hkill
    · exact .ok ⟨rfl, hscr, rfl, rfl⟩
    · exact .error (.clean 0 rfl)
    · exact .ok ⟨rfl, hscr, rfl, rfl⟩
    · exact .ok ⟨rfl, hscr, rfl, rfl⟩
    · exact .ok ⟨rfl, hscr, rfl, rfl⟩

theorem displayStageOver_alike (h : SameProgram s t) (amount : Int) :
    Alike SameEnding (fun a b => SameProgram a.1 b.1 ∧ Option.Rel SameDisplay a.2 b.2)
      (displayStageOver interval inp amount s) (displayStage interval inp.toPassInput amount t) := by
  obtain ⟨db, energies, rfl⟩ := h.cases
  unfold displayStageOver displayStage
  by_cases htty : inp.term.isatty = true
  · rw [if_neg (not_not.mpr htty), if_neg (not_not.mpr htty)]
    dsimp only
    split
    · refine .error (cleanstopOver_alike ?_ inp.conn 1 inp.cleanTime)
      rfl
    · refine (keyStageOver_alike ?_ (subjects_energyScreenOver ..)).map ?_
      · rfl
      · rintro a b ⟨hstate, hdisplay⟩
        exact ⟨hstate, .some hdisplay⟩
  · rw [if_pos htty, if_pos htty]
    exact .ok ⟨rfl, .none⟩

theorem drawStageOver_alike (h : SameProgram s t) (amount : Int) :
    Alike SameEnding (fun a b => SameProgram a.1 b.1 ∧ Option.Rel SameDisplay a.2 b.2)
      (drawStageOver interval inp amount s) (drawStage interval inp.toPassInput amount t) := by
  have hturn : (s.screen && decide (s.cycle % 3 = 0)) = (t.screen && decide (t.cycle % 3 = 0)) := by
    rw [h]
  rw [drawStageOver, drawStage, hturn]
  split
  · exact displayStageOver_alike h amount
  · exact .ok ⟨h, .none⟩

theorem onAlarm_alike (h : SameProgram s t) (comes : Bool) :
    SameProgram (onAlarm interval comes s) (onAlarm interval comes t) := by
  rw [h]
  rfl

theorem terminate_alike {inp : PassInput} (h : SameProgram s t) (sig : Int) :
    SameEnding (terminate sig inp s) (terminate sig inp t) := by
  rw [h]
  unfold terminate
  split
  · exact .clean sig rfl
  · exact .killed sig

theorem terminateOver_alike (h : SameProgram s t) (sig : Int) :
    SameEnding (terminateOver sig inp s) (terminate sig inp.toPassInput t) := by
  have hhandlers : s.handlers = t.handlers := by rw [h]
  rw [terminateOver, terminate, hhandlers]
  split
  · exact cleanstopOver_alike h inp.conn sig inp.cleanTime
  · exact .killed sig

/-- `pause` does not look at the tables. -/
theorem pause_alike {inp : PassInput} (h : SameProgram s t) :
    Alike SameEnding SameProgram (pause interval inp s) (pause interval inp t) := by
  obtain ⟨db, energies, rfl⟩ := h.cases
  unfold pause
  split
  · dsimp only
    split
    · exact .error .asleep
    · exact .ok rfl
  · exact .ok rfl
  · exact .ok rfl
  · exact .error (terminate_alike h SIGINT)
  · exact .error (terminate_alike h SIGTERM)
  · exact .error (.killed _)

theorem pauseOver_alike (h : SameProgram s t) :
    Alike SameEnding SameProgram (pauseOver interval inp s) (pause interval inp.toPassInput t) := by
  unfold pauseOver
  split
  · rename_i hsig
    have hpause : pause interval inp.toPassInput t = .error (terminate SIGINT inp.toPassInput t) := by
      rw [pause, hsig]
    rw [hpause]
    exact .error (terminateOver_alike h SIGINT)
  · rename_i hsig
    have hpause : pause interval inp.toPassInput t = .error (terminate SIGTERM inp.toPassInput t) := by
      rw [pause, hsig]
    rw [hpause]
    exact .error (terminateOver_alike h SIGTERM)
  · exact pause_alike h

/-- **A pass takes the same steps**, or ends the same way. -/
theorem passOver_alike (h : SameProgram s t) :
    Alike SameEnding (fun a b => SameProgram a.1 b.1 ∧ SameAnswer a.2 b.2)
      (passOver conf interval inp s) (pass conf interval inp.toPassInput t) := by
  have hrest : SameRest s.toPtopState t.toPtopState := by
    rw [h]
    rfl
  have hsample : Alike SameEnding (fun a b => SameRest a.1 b.1 ∧ a.2 = b.2)
      ((samplePassOver conf inp.conn inp.cycle s.toPtopState).mapError Ending.stop)
      ((samplePass conf inp.cycle t.toPtopState).mapError Ending.stop) :=
    (samplePassOver_alike inp.conn hrest).mapError fun e d he => he ▸ .stop e
  refine hsample.bind ?_
  rintro ⟨u, out⟩ ⟨u', out'⟩ ⟨hu, hout⟩
  cases hout
  have hstart : SameProgram { s with toPtopState := u } { t with toPtopState := u' } := by
    rw [show u = { u' with db := u.db } from hu, h]
    rfl
  refine (drawStageOver_alike (onAlarm_alike hstart inp.early.1) out.amount).bind ?_
  rintro ⟨v, d⟩ ⟨v', d'⟩ ⟨hv, hdisplay⟩
  have hpause : SameProgram
      { v with
        toSysState := v.toSysState.next
        db := purgeStageOver inp.conn v.cycle inp.cycle v.db }
      { v' with
        toSysState := v'.toSysState.next
        db := purgeStage v'.cycle inp.cycle v'.db } := by
    rw [show v = { v' with db := v.db, energies := v.energies } from hv]
    rfl
  refine (pauseOver_alike (onAlarm_alike hpause inp.early.2)).bind ?_
  intro w w' hw
  exact .ok ⟨hw, rfl, hdisplay⟩

end Stages

/-! ## Runs -/

/-- A pass over a server that may refuse. -/
abbrev RefusedPass := Transition ProgramState RefusedInput PassOutput

abbrev RefusedRun (conf : Conf) (interval : Int) (s₀ : ProgramState) :
    List RefusedPass → ProgramState → Prop :=
  Run (Steps (passOver conf interval)) s₀

section Runs

variable {conf : Conf} {interval : Int} {s₀ t₀ s : ProgramState} {cs : List RefusedPass}

theorem refusals_unread (conf : Conf) (interval : Int) :
    Bisimulation (Steps (passOver conf interval)) (Steps (pass conf interval)) SameProgram
      (fun inp inp' => inp.toPassInput = inp') SameAnswer :=
  Alike.bisimulation fun hinp h => hinp ▸ passOver_alike h

/-- The run of the program where the server refuses nothing. -/
theorem exists_answered_run (h : RefusedRun conf interval s₀ cs s) (h₀ : SameProgram s₀ t₀) :
    ∃ ds t, ProgramRun conf interval t₀ ds t ∧
      cs.map (fun c => c.input.toPassInput) = ds.map Transition.input ∧
      List.Forall₂ SameAnswer (cs.map Transition.output) (ds.map Transition.output) ∧
      SameProgram s t := by
  have hb := refusals_unread conf interval
  have hinputs : List.Forall₂ (fun c j => c.input.toPassInput = id j) cs
      (cs.map fun c => c.input.toPassInput) := forall₂_eq_iff_map.mpr (List.map_id _).symm
  obtain ⟨ds, t, hrun, hds, hsame⟩ := hb.run_follow h₀ h hinputs
  have halike := (forall₂_eq_iff_map (f := fun c : RefusedPass => c.input.toPassInput)
    (g := Transition.input)).mpr hds.symm
  refine ⟨ds, t, hrun, hds.symm, ?_, hsame⟩
  rw [List.forall₂_map_left_iff, List.forall₂_map_right_iff]
  exact (hb.run_agree h₀ h hrun halike).2

/-- **Whatever the server refuses, the program takes the same steps**: it draws the same
processes, reads the same keys and does what they ask for, and from the state it reaches each
pass goes on, or ends, as it would have done. What differs is in the tables and in the
figures on the screen. -/
theorem program_over_refusals {conn : StartConnections} {cpuFd : List PCFile}
    {init clean : Int × Int} {db : Database} {energies : EnergyTables}
    (h : RefusedRun conf interval (programStartOver conn interval cpuFd init clean db energies) cs s) :
    ∃ ds t, ProgramRun conf interval (programStart interval cpuFd init clean db energies) ds t ∧
      cs.map (fun c => c.input.toPassInput) = ds.map Transition.input ∧
      List.Forall₂ SameAnswer (cs.map Transition.output) (ds.map Transition.output) ∧
      SameProgram s t ∧
      ∀ inp : RefusedInput, Alike SameEnding (fun a b => SameProgram a.1 b.1 ∧ SameAnswer a.2 b.2)
        (passOver conf interval inp s) (pass conf interval inp.toPassInput t) := by
  have h₀ : SameProgram (programStartOver conn interval cpuFd init clean db energies)
      (programStart interval cpuFd init clean db energies) := rfl
  obtain ⟨ds, t, hrun, hinputs, houtputs, hsame⟩ := exists_answered_run h h₀
  exact ⟨ds, t, hrun, hinputs, houtputs, hsame, fun inp => passOver_alike hsame⟩

end Runs

/-- Three seconds of a machine whose server is down while the program starts, and refuses a
row of a process, a row of the machine, and then the row of the display for the machine. -/
def refusedSeconds : List RefusedInput :=
  List.zipWith (fun inp conn => { inp with conn := conn }) meteredSeconds
    [{ insertPs := fun n => n ≠ 0 }, { insertSysInfo := false }, { insertDeviceEnergy := false }]

def downAtStart : StartConnections := { initStatData := false, clean := (false, true) }

theorem program_over_refusals_refusedSeconds :
    ∃ cs s, RefusedRun { cpufreqStats := true } 1
        (programStartOver downAtStart 1 [] (99, 99) (99, 99) earlierSecond {}) cs s ∧
      cs.map Transition.input = refusedSeconds ∧ s.db.processInfo.length = 6 ∧
      ∃ ds t, ProgramRun { cpufreqStats := true } 1
          (programStart 1 [] (99, 99) (99, 99) earlierSecond {}) ds t ∧
        List.Forall₂ SameAnswer (cs.map Transition.output) (ds.map Transition.output) ∧
        SameProgram s t := by
  obtain ⟨cs, s, hrun, hinput, c, hc, hlen⟩ := exists_run_of_trace
    (passOver { cpufreqStats := true } 1)
    (programStartOver downAtStart 1 [] (99, 99) (99, 99) earlierSecond {}) refusedSeconds
    (fun cs => ∃ c ∈ cs.getLast?, c.post.db.processInfo.length = 6) (by decide +kernel)
  obtain ⟨before, rfl⟩ := List.getLast?_eq_some_iff.mp hc
  obtain ⟨-, -, rfl⟩ := hrun.snoc_inv
  obtain ⟨ds, t, hanswered, -, houtputs, hsame, -⟩ := program_over_refusals hrun
  exact ⟨_, c.post, hrun, hinput, hlen, ds, t, hanswered, houtputs, hsame⟩

/-! ## What reaches the tables -/

theorem through_sublist {α : Type} (ok : ℕ → Bool) (xs : List α) : (through ok xs).Sublist xs := by
  have hsub : (through ok xs).Sublist (xs.zipIdx.map Prod.fst) := List.filter_sublist.map _
  rwa [List.zipIdx_map_fst] at hsub

theorem freeupAllOver_sublist (conn : Bool × Bool) (interval : u32) (now : Int × Int) (db : Database) :
    (freeupAllOver conn interval now db).processInfo.Sublist db.processInfo ∧
      (freeupAllOver conn interval now db).sysInfo.Sublist db.sysInfo := by
  unfold freeupAllOver
  split <;> split
  · exact ⟨List.filter_sublist, List.filter_sublist⟩
  · exact ⟨List.filter_sublist, .refl _⟩
  · exact ⟨.refl _, List.filter_sublist⟩
  · exact ⟨.refl _, .refl _⟩

theorem programStartOver_sublist (conn : StartConnections) (interval : Int) (cpuFd : List PCFile)
    (init clean : Int × Int) (db : Database) (energies : EnergyTables) :
    (programStartOver conn interval cpuFd init clean db energies).db.processInfo.Sublist
        db.processInfo ∧
      (programStartOver conn interval cpuFd init clean db energies).db.sysInfo.Sublist db.sysInfo := by
  have hinit : (initStatDataOver conn init db).processInfo.Sublist db.processInfo ∧
      (initStatDataOver conn init db).sysInfo.Sublist db.sysInfo := by
    unfold initStatDataOver
    split
    · exact freeupAllOver_sublist ..
    · exact ⟨.refl _, .refl _⟩
  have hclean := freeupAllOver_sublist conn.clean 0 clean (initStatDataOver conn init db)
  exact ⟨hclean.1.trans hinit.1, hclean.2.trans hinit.2⟩

/-- A pass over a server that refuses, as a pass. -/
def RefusedPass.pass (c : RefusedPass) : Pass := ⟨c.pre, c.input.toPassInput, c.post, c.output⟩

/-- The tables that a display of the pass asks. -/
def RefusedPass.queryDb (c : RefusedPass) : Database :=
  let db := (through c.input.conn.insertPs c.output.cycle.rows).foldl (fun db r => insertPs r db) c.pre.db
  if c.input.conn.insertSysInfo then insertSysInfo c.output.cycle.sysRow db else db

/-- The screen that a pass draws, if it does. -/
def RefusedPass.screen (interval : Int) (c : RefusedPass) : EnergyScreen :=
  energyScreenOver c.input.conn c.queryDb interval c.input.ctime c.post.pstList c.output.cycle.amount

theorem queryDb_sublist (c : RefusedPass) :
    c.queryDb.processInfo.Sublist (c.pre.db.processInfo ++ insertedRows c.output.cycle) ∧
      c.queryDb.sysInfo.Sublist (c.pre.db.sysInfo ++ [c.output.cycle.sysRow.toRow]) := by
  have hrows := ((through_sublist c.input.conn.insertPs c.output.cycle.rows).filter
    fun r => r.floats.all XFloat.isFinite).map ProcessInfo.toRow
  rw [RefusedPass.queryDb, foldl_insertPs]
  split
  · exact ⟨(List.Sublist.refl _).append hrows, .refl _⟩
  · exact ⟨(List.Sublist.refl _).append hrows, List.sublist_append_left _ _⟩

/-- What a pass that comes to its end does to the tables. -/
structure RefusedFacts (interval : Int) (c : RefusedPass) : Prop where
  db : c.post.db = purgeStageOver c.input.conn c.pre.cycle c.input.cycle c.queryDb
  drawn : c.pass.Draws →
    c.post.energies = persistOver c.input.conn (c.screen interval) c.pre.energies
  undrawn : ¬ c.pass.Draws → c.post.energies = c.pre.energies

theorem keyStageOver_ok {interval : Int} {inp : RefusedInput} {scr : EnergyScreen}
    {s s' : ProgramState} {d : Display} (h : keyStageOver interval inp scr s = .ok (s', d)) :
    s' = { s with clock := s'.clock } := by
  unfold keyStageOver at h
  split at h
  · cases h
  · exact (keyStage_ok h).1

/-- The display touches the energy tables only, and only if it draws. -/
structure RefusedDraw (interval amount : Int) (inp : RefusedInput) (s s' : ProgramState) : Prop where
  pstList : s'.pstList = s.pstList
  cycle : s'.cycle = s.cycle
  db : s'.db = s.db
  drawn : s.screen = true ∧ s.cycle % 3 = 0 ∧ inp.term.isatty = true →
    s'.energies = persistOver inp.conn
      (energyScreenOver inp.conn s.db interval inp.ctime s.pstList amount) s.energies
  undrawn : ¬ (s.screen = true ∧ s.cycle % 3 = 0 ∧ inp.term.isatty = true) → s'.energies = s.energies

theorem drawStageOver_ok {interval amount : Int} {inp : RefusedInput} {s s' : ProgramState}
    {d : Option Display} (h : drawStageOver interval inp amount s = .ok (s', d)) :
    RefusedDraw interval amount inp s s' := by
  unfold drawStageOver at h
  by_cases hturn : (s.screen && decide (s.cycle % 3 = 0)) = true
  · have hcond : s.screen = true ∧ s.cycle % 3 = 0 := by simpa using hturn
    rw [if_pos hturn, displayStageOver] at h
    by_cases htty : inp.term.isatty = true
    · rw [if_neg (not_not.mpr htty)] at h
      dsimp only at h
      split at h
      · cases h
      · obtain ⟨⟨s₁, d₁⟩, hkey, heq⟩ := except_map_eq_ok.mp h
        cases heq
        rw [keyStageOver_ok hkey]
        exact ⟨rfl, rfl, rfl, fun _ => rfl, fun hno => absurd ⟨hcond.1, hcond.2, htty⟩ hno⟩
    · rw [if_pos htty] at h
      cases h
      exact ⟨rfl, rfl, rfl, fun hyes => absurd hyes.2.2 htty, fun _ => rfl⟩
  · rw [if_neg hturn] at h
    cases h
    exact ⟨rfl, rfl, rfl, fun hyes => absurd (by simp [hyes.1, hyes.2.1]) hturn, fun _ => rfl⟩

theorem pauseOver_ok {interval : Int} {inp : RefusedInput} {s s' : ProgramState}
    (h : pauseOver interval inp s = .ok s') : s' = { s with clock := s'.clock } := by
  unfold pauseOver at h
  split at h
  · cases h
  · cases h
  · exact pause_ok h

theorem passOver_ok {conf : Conf} {interval : Int} {inp : RefusedInput} {s s' : ProgramState}
    {out : PassOutput} (h : Steps (passOver conf interval) inp s s' out) :
    RefusedFacts interval ⟨s, inp, s', out⟩ := by
  unfold Steps passOver at h
  obtain ⟨⟨t, cout⟩, hover, h⟩ := except_bind_eq_ok.mp h
  obtain ⟨⟨s₁, display⟩, hdraw, h⟩ := except_bind_eq_ok.mp h
  obtain ⟨s₂, hpause, h⟩ := except_bind_eq_ok.mp h
  cases h
  obtain ⟨⟨u, uout⟩, hsample, heq⟩ := except_bind_eq_ok.mp (except_mapError_eq_ok.mp hover)
  cases heq
  rw [pauseOver_ok hpause]
  have hframe := samplePass_frame hsample
  have hd := drawStageOver_ok hdraw
  have hcond : (u.screen = true ∧ u.cycle % 3 = 0 ∧ inp.term.isatty = true) ↔
      (s.screen = true ∧ s.cycle % 3 = 0 ∧ inp.term.isatty = true) := by
    rw [hframe.screen, hframe.cycle]
  refine ⟨?_, fun hdraws => ?_, fun hno => hd.undrawn fun hyes => hno (hcond.mp hyes)⟩
  · show purgeStageOver inp.conn s₁.cycle inp.cycle s₁.db = _
    have hcycle : s₁.cycle = s.cycle := hd.cycle.trans hframe.cycle
    rw [hcycle, hd.db]
    rfl
  · show s₁.energies = persistOver inp.conn
      (energyScreenOver inp.conn _ interval inp.ctime s₁.pstList cout.amount) s.energies
    rw [hd.pstList]
    exact hd.drawn (hcond.mpr hdraws)

/-- The passes of a run that draw the screen. -/
def displaying (cs : List RefusedPass) : List RefusedPass := cs.filter fun c => c.pass.Draws

theorem displaying_snoc (cs : List RefusedPass) (c : RefusedPass) :
    displaying (cs ++ [c]) = displaying cs ++ if c.pass.Draws then [c] else [] := by
  rw [displaying, displaying, List.filter_append, List.filter_singleton]
  by_cases h : c.pass.Draws <;> simp [h]

/-- The rows of a display that reach `device_energy`. -/
def RefusedPass.deviceRows (interval : Int) (c : RefusedPass) : List DeviceEnergyRow :=
  if c.input.conn.insertDeviceEnergy then [(c.screen interval).device.toRow] else []

/-- The rows of a display that reach `process_energy`. -/
def RefusedPass.processRows (interval : Int) (c : RefusedPass) : List ProcessEnergyRow :=
  ((through c.input.conn.insertProcessEnergy (c.screen interval).lines).filter fun line =>
    line.floats.all XFloat.isFinite).map fun line => line.toProcessEnergy.toRow

section Tables

variable {conf : Conf} {interval : Int} {s₀ s : ProgramState} {cs : List RefusedPass}

theorem persistOver_screen (c : RefusedPass) (t : EnergyTables) :
    persistOver c.input.conn (c.screen interval) t =
      { deviceEnergy := t.deviceEnergy ++ c.deviceRows interval
        processEnergy := t.processEnergy ++ c.processRows interval } := by
  rw [persistOver, foldl_insertProcessEnergy, RefusedPass.deviceRows]
  split
  · rfl
  · rw [List.append_nil]
    rfl

/-- The energy tables of a run. -/
theorem run_energiesOver (h : RefusedRun conf interval s₀ cs s) : s.energies =
    { deviceEnergy := s₀.energies.deviceEnergy ++
        (displaying cs).flatMap (RefusedPass.deviceRows interval)
      processEnergy := s₀.energies.processEnergy ++
        (displaying cs).flatMap (RefusedPass.processRows interval) } := by
  induction h with
  | init => simp [displaying]
  | @step cs s inp s' out hrun hstep ih =>
      have hf := passOver_ok hstep
      rw [displaying_snoc, List.flatMap_append, List.flatMap_append, ← List.append_assoc,
        ← List.append_assoc]
      by_cases hdraws : (RefusedPass.pass ⟨s, inp, s', out⟩).Draws
      · have henergies := hf.drawn hdraws
        rw [persistOver_screen] at henergies
        rw [if_pos hdraws, List.flatMap_singleton, List.flatMap_singleton]
        rw [ih] at henergies
        exact henergies
      · rw [if_neg hdraws, List.flatMap_nil, List.flatMap_nil, List.append_nil, List.append_nil]
        exact (hf.undrawn hdraws).trans ih

/-- The sample tables hold some of the rows that were found and sent. -/
theorem run_tablesOver (h : RefusedRun conf interval s₀ cs s) :
    s.db.processInfo.Sublist
        (written s₀.db (cs.map fun c => c.output.cycle)).processInfo ∧
      s.db.sysInfo.Sublist (written s₀.db (cs.map fun c => c.output.cycle)).sysInfo := by
  induction h with
  | init => simp [written]
  | @step cs s inp s' out hrun hstep ih =>
      obtain ⟨hps, hss⟩ := queryDb_sublist ⟨s, inp, s', out⟩
      have hpurge : s'.db.processInfo.Sublist (RefusedPass.queryDb ⟨s, inp, s', out⟩).processInfo ∧
          s'.db.sysInfo.Sublist (RefusedPass.queryDb ⟨s, inp, s', out⟩).sysInfo := by
        have hdb : s'.db = purgeStageOver _ _ _ _ := (passOver_ok hstep).db
        rw [hdb, purgeStageOver]
        split
        · exact freeupAllOver_sublist ..
        · exact ⟨.refl _, .refl _⟩
      rw [List.map_append, List.map_singleton, written_snoc]
      exact ⟨hpurge.1.trans (hps.trans (ih.1.append (.refl _))),
        hpurge.2.trans (hss.trans (ih.2.append (.refl _)))⟩

end Tables

section Ledger

variable {conf : Conf} {interval : Int} {conn : StartConnections} {cpuFd : List PCFile}
  {init clean : Int × Int} {db : Database} {energies : EnergyTables} {s : ProgramState}
  {cs : List RefusedPass}

/-- The run on empty tables that a session over a server that refuses follows. -/
theorem exists_unrefused_cycles
    (h : RefusedRun conf interval (programStartOver conn interval cpuFd init clean db energies) cs s) :
    ∃ ds t, PtopRun conf cpuFd ds t ∧ ds.map Transition.output = cs.map (fun c => c.output.cycle) ∧
      SameRest s.toPtopState t := by
  have h₀ : SameProgram (programStartOver conn interval cpuFd init clean db energies)
      (programStart interval cpuFd init clean {} energies) := rfl
  obtain ⟨ds, t, hrun, -, houtputs, hsame⟩ := exists_answered_run h h₀
  have hold : OlderThan init clean {} :=
    ⟨fun p hp => absurd hp List.not_mem_nil, fun r hr => absurd hr List.not_mem_nil⟩
  refine ⟨ds.map Pass.cycle, t.toPtopState, session_run hrun hold, ?_, ?_⟩
  · have hcycles := houtputs.imp fun o o' h => h.cycle
    rw [forall₂_eq_iff_map, List.map_map, List.map_map] at hcycles
    rw [List.map_map]
    exact hcycles.symm
  · rw [hsame]
    rfl

/-- The lines of a screen are about different processes. -/
theorem nodup_screen_pids
    (h : RefusedRun conf interval (programStartOver conn interval cpuFd init clean db energies) cs s)
    {c : RefusedPass} (hc : c ∈ cs) :
    ((showProcStat c.post.pstList c.output.cycle.amount).map fun pst => pst.pid.toInt).Nodup := by
  obtain ⟨before, after, rfl⟩ := List.append_of_mem hc
  obtain ⟨ds, t, hrun, houtputs, hrest⟩ := exists_unrefused_cycles h.up_to
  obtain ⟨ds', es, rfl, -, hes⟩ := List.map_eq_append_iff.mp
    (houtputs.trans (List.map_append ..))
  obtain ⟨d, rfl, hd⟩ := List.map_eq_singleton_iff.mp hes
  obtain ⟨-, -, rfl⟩ := hrun.snoc_inv
  have hlist : c.post.pstList = d.post.pstList := by rw [hrest]
  have hamount : c.output.cycle = d.output := hd.symm
  rw [hlist, hamount]
  exact nodup_shown_pids hrun (List.mem_append_right _ (List.mem_singleton_self d))

/-- The tables that a display asks are accounted for. -/
theorem accounted_queryDbOver
    (h : RefusedRun conf interval (programStartOver conn interval cpuFd init clean db energies) cs s)
    {stamps : List u32} (hfound : Accounted stamps db)
    (hdistinct : (cs.map fun c => c.output.cycle.sysRow.time).Nodup)
    (hnew : ∀ c ∈ cs, c.output.cycle.sysRow.time ∉ stamps)
    (hshared : ∀ c ∈ cs, ∃ ds, SharedAs c.output.cycle ds) {c : RefusedPass} (hc : c ∈ cs) :
    ∃ stamps', Accounted stamps' c.queryDb := by
  obtain ⟨before, after, rfl⟩ := List.append_of_mem hc
  have hsofar : (before ++ [c]).Sublist (before ++ c :: after) :=
    (List.Sublist.refl _).append (List.singleton_sublist.mpr List.mem_cons_self)
  obtain ⟨hps, hss⟩ := programStartOver_sublist conn interval cpuFd init clean db energies
  obtain ⟨ds, t, hrun, houtputs, -⟩ := exists_unrefused_cycles h.up_to
  have htimes := run_insertedRows_time hrun
  rw [houtputs] at htimes
  have hstamps : (((before ++ [c]).map fun c => c.output.cycle).map fun out => out.sysRow.time).Nodup := by
    rw [List.map_map]
    exact hdistinct.sublist (hsofar.map _)
  have hacc := accounted_written (hfound.of_sublist hps hss) htimes hstamps
    (List.forall_mem_map.mpr fun d hd => hnew d (hsofar.subset hd))
    (List.forall_mem_map.mpr fun d hd => hshared d (hsofar.subset hd))
  rw [List.map_append, List.map_singleton, written_snoc] at hacc
  obtain ⟨hprocess, hsys⟩ := run_tablesOver h.at_step.1
  obtain ⟨hprocess', hsys'⟩ := queryDb_sublist c
  exact ⟨_, hacc.of_sublist (hprocess'.trans (hprocess.append (.refl _)))
    (hsys'.trans (hsys.append (.refl _)))⟩

/-- **What a display writes down about its processes** is within what the machine has used. -/
theorem display_within_over {c : RefusedPass} {stamps : List u32} (hacc : Accounted stamps c.queryDb)
    (hpids : ((showProcStat c.post.pstList c.output.cycle.amount).map
      fun pst => pst.pid.toInt).Nodup) :
    ((c.processRows interval).map ProcessEnergyRow.ecpu).sum ≤
      (systemEnergy c.queryDb interval c.input.ctime).ecpu := by
  have hitv : ∀ r ∈ c.queryDb.sysInfo, atoiU32 r.itv ≠ 0 := fun r hr =>
    (hacc.covered r hr).toSoundRow.itv_ne_zero
  -- the entries of the list whose rows arrive
  obtain ⟨kept, hsub, hrows⟩ : ∃ kept : List (ProcessInfo × ℕ),
      kept.Sublist (showProcStat c.post.pstList c.output.cycle.amount).zipIdx ∧
      (c.processRows interval).map ProcessEnergyRow.ecpu = kept.map fun p =>
        if c.input.conn.CPUEnergy p.2 then
          CPUEnergy c.queryDb p.1.pid.toInt interval c.input.ctime else 0 := by
    have hlines := (List.filter_sublist (p := fun line : EnergyLine =>
      line.floats.all XFloat.isFinite)).trans
        (through_sublist c.input.conn.insertProcessEnergy (c.screen interval).lines)
    obtain ⟨kept, hsub, heq⟩ := List.sublist_map_iff.mp hlines
    refine ⟨kept, hsub, ?_⟩
    rw [RefusedPass.processRows, heq, List.map_map, List.map_map]
    apply List.map_congr_left
    intro p _
    show (if c.input.conn.CPUEnergy p.2 then
      CPUEnergyFloat c.queryDb p.1.pid.toInt interval c.input.ctime else .fin 0).toRat = _
    rw [CPUEnergyFloat_eq hitv]
    split <;> rfl
  have hnodup : (((kept.filter fun p => c.input.conn.CPUEnergy p.2).map Prod.fst).map
      fun pst => pst.pid.toInt).Nodup := by
    have hfirst := (List.filter_sublist (p := fun p : ProcessInfo × ℕ =>
      c.input.conn.CPUEnergy p.2)).trans hsub |>.map Prod.fst
    rw [List.zipIdx_map_fst] at hfirst
    exact hpids.sublist (hfirst.map _)
  rw [hrows, ← sum_map_filter fun p : ProcessInfo × ℕ => c.input.conn.CPUEnergy p.2]
  have hsum := sum_CPUEnergy_le hacc.nonneg hacc.covered
    (((kept.filter fun p => c.input.conn.CPUEnergy p.2).map Prod.fst).map
      fun pst => pst.pid.toInt).toFinset interval c.input.ctime
  rw [List.sum_toFinset _ hnodup, List.map_map, List.map_map] at hsum
  exact hsum

/-- A display that does not leave in `device_energy` what the machine has used. -/
def RefusedPass.unrecorded (c : RefusedPass) : Bool :=
  !(c.input.conn.systemEnergy && c.input.conn.insertDeviceEnergy)

/-- What the display of a pass leaves in `device_energy`, and what it fails to. -/
theorem sum_deviceRows (interval : Int) (c : RefusedPass) :
    (systemEnergy c.queryDb interval c.input.ctime).ecpu =
      ((c.deviceRows interval).map DeviceEnergyRow.ecpu).sum +
        if c.unrecorded then (systemEnergy c.queryDb interval c.input.ctime).ecpu else 0 := by
  have hdevice : (c.screen interval).device =
      systemEnergyOver c.input.conn.systemEnergy c.queryDb interval c.input.ctime := rfl
  rw [RefusedPass.deviceRows, RefusedPass.unrecorded, hdevice, systemEnergyOver]
  cases c.input.conn.systemEnergy <;> cases c.input.conn.insertDeviceEnergy <;>
    simp [DeviceEnergy.toRow]

/-- **Whatever the server refuses, what a session writes down about its processes is within
what the machine has used**, on tables of earlier sessions too: the energies of the CPU in
the rows it adds to `process_energy` sum up to no more than those it adds to
`device_energy`, and those of the displays for which the server refuses the query about the
machine or the row for it. -/
theorem displays_within_machine_over
    (h : RefusedRun conf interval (programStartOver conn interval cpuFd init clean db energies) cs s)
    {stamps : List u32} (hfound : Accounted stamps db)
    (hdistinct : (cs.map fun c => c.output.cycle.sysRow.time).Nodup)
    (hnew : ∀ c ∈ cs, c.output.cycle.sysRow.time ∉ stamps)
    (hshared : ∀ c ∈ cs, ∃ ds, SharedAs c.output.cycle ds) :
    ∃ rows rows', s.energies.deviceEnergy = energies.deviceEnergy ++ rows ∧
      s.energies.processEnergy = energies.processEnergy ++ rows' ∧
      (rows'.map ProcessEnergyRow.ecpu).sum ≤ (rows.map DeviceEnergyRow.ecpu).sum +
        (((displaying cs).filter RefusedPass.unrecorded).map fun c =>
          (systemEnergy c.queryDb interval c.input.ctime).ecpu).sum := by
  have henergies := run_energiesOver h
  refine ⟨_, _, congrArg EnergyTables.deviceEnergy henergies,
    congrArg EnergyTables.processEnergy henergies, ?_⟩
  rw [sum_map_flatMap, sum_map_flatMap, sum_map_filter, ← List.sum_map_add]
  refine List.sum_le_sum fun c hc => ?_
  have hmem : c ∈ cs := List.mem_of_mem_filter hc
  obtain ⟨stamps', hacc⟩ := accounted_queryDbOver h hfound hdistinct hnew hshared hmem
  exact (display_within_over hacc (nodup_screen_pids h hmem)).trans_eq (sum_deviceRows interval c)

end Ledger

/-- The row of the machine is missing, and what the display of that second has failed to
write down covers the process. -/
theorem displays_within_machine_over_refusedSeconds :
    ∃ cs s, RefusedRun { cpufreqStats := true } 1
        (programStartOver downAtStart 1 [] (99, 99) (99, 99) earlierSecond {}) cs s ∧
      cs.map Transition.input = refusedSeconds ∧ s.energies.deviceEnergy.length = 0 ∧
      s.energies.processEnergy.length = 1 ∧
      ∃ rows rows', s.energies.deviceEnergy = [] ++ rows ∧ s.energies.processEnergy = [] ++ rows' ∧
        (rows'.map ProcessEnergyRow.ecpu).sum ≤ (rows.map DeviceEnergyRow.ecpu).sum +
          (((displaying cs).filter RefusedPass.unrecorded).map fun c =>
            (systemEnergy c.queryDb 1 c.input.ctime).ecpu).sum := by
  obtain ⟨cs, s, hrun, hinput, hdistinct, hnew, hshared, c, hc, hlen, hlen'⟩ := exists_run_of_trace
    (passOver { cpufreqStats := true } 1)
    (programStartOver downAtStart 1 [] (99, 99) (99, 99) earlierSecond {}) refusedSeconds
    (fun cs => (cs.map fun c => c.output.cycle.sysRow.time).Nodup ∧
      (∀ c ∈ cs, c.output.cycle.sysRow.time ∉ [3]) ∧
      (∀ c ∈ cs, ∃ ds ∈ [[30, 30]], SharedAs c.output.cycle ds) ∧
      ∃ c ∈ cs.getLast?, c.post.energies.deviceEnergy.length = 0 ∧
        c.post.energies.processEnergy.length = 1) (by decide +kernel)
  obtain ⟨before, rfl⟩ := List.getLast?_eq_some_iff.mp hc
  obtain ⟨-, -, rfl⟩ := hrun.snoc_inv
  exact ⟨_, c.post, hrun, hinput, hlen, hlen', displays_within_machine_over hrun
    accounted_earlierSecond hdistinct hnew fun d hd => (hshared d hd).imp fun ds h => h.2⟩

end PTop
