import PTop.Model.Program
import PTop.Metatheory.Purge

/-!
# The program refines its loop

A pass that comes to its end is one step of `main_loop`, for the terminal it
found; so what holds of every run of the loop holds of every run of the program
that starts on tables without rows of its own second. What the display adds to
the state is written to the two energy tables and read by nothing.
-/

namespace PTop

open Framework Framework.HTree AvlTree

theorem except_map_eq_ok {ε α β : Type} {x : Except ε α} {f : α → β} {b : β} :
    x.map f = .ok b ↔ ∃ a, x = .ok a ∧ f a = b := by
  cases x <;> simp [Except.map]

theorem except_mapError_eq_ok {ε δ α : Type} {x : Except ε α} {f : ε → δ} {a : α} :
    x.mapError f = .ok a ↔ x = .ok a := by
  cases x <;> simp [Except.mapError]

theorem except_map_eq_error {ε α β : Type} {x : Except ε α} {f : α → β} {e : ε} :
    x.map f = .error e ↔ x = .error e := by
  cases x <;> simp [Except.map]

theorem except_mapError_eq_error {ε δ α : Type} {x : Except ε α} {f : ε → δ} {d : δ} :
    x.mapError f = .error d ↔ ∃ e, x = .error e ∧ f e = d := by
  cases x <;> simp [Except.mapError]

theorem except_bind_eq_error {ε α β : Type} {x : Except ε α} {f : α → Except ε β} {e : ε} :
    (x >>= f) = .error e ↔ x = .error e ∨ ∃ a, x = .ok a ∧ f a = .error e := by
  cases x <;> simp [bind, Except.bind]

/-! ## A pass up to the display -/

/-- What `samplePass` leaves as it was, and the tables it leaves to the display. -/
structure SampleFrame (s t : PtopState) (out : CycleOutput) : Prop where
  cycle : t.cycle = s.cycle
  screen : t.screen = s.screen
  db : t.db = insertSysInfo out.sysRow (out.rows.foldl (fun db r => insertPs r db) s.db)

theorem samplePass_frame {conf : Conf} {inp : CycleInput} {s t : PtopState} {out : CycleOutput}
    (h : samplePass conf inp s = .ok (t, out)) : SampleFrame s t out := by
  unfold samplePass at h
  obtain ⟨sys₁, hcpu, h⟩ := except_bind_eq_ok.mp h
  have hsys : sampleSystem conf inp s.toSysState = .ok (readSystemStats conf inp sys₁) := by
    rw [sampleSystem, hcpu]
    rfl
  have hframe := sampleSystem_frame hsys
  cases hproc : inp.proc with
  | none => simp [hproc] at h
  | some pids =>
      simp only [hproc, except_bind_eq_ok, pure, Except.pure] at h
      obtain ⟨st, -, ⟨T, w⟩, -, h⟩ := h
      cases h
      exact ⟨hframe.cycle, hframe.screen, rfl⟩

/-- The rest of a pass, after the display. -/
def finish (inp : CycleInput) (t : PtopState) (sys : SysState) : PtopState :=
  { t with toSysState := sys.next, db := purgeStage t.cycle inp t.db }

/-- **`main_loop` is `samplePass`, the display and the rest.** -/
theorem mainLoop_eq_samplePass (conf : Conf) (inp : CycleInput) (s : PtopState) :
    mainLoop conf inp s = samplePass conf inp s >>= fun r =>
      (showStage inp r.1.toSysState).map fun sys => (finish inp r.1 sys, r.2) := by
  have hframe : ∀ r, samplePass conf inp s = .ok r → r.1.cycle = s.cycle :=
    fun r hr => (samplePass_frame hr).cycle
  have hsplit : mainLoop conf inp s = samplePass conf inp s >>= fun r =>
      (showStage inp r.1.toSysState).map fun sys =>
        ({ r.1 with toSysState := sys.next, db := purgeStage s.cycle inp r.1.db }, r.2) := by
    unfold mainLoop samplePass
    simp only [bind, Except.bind]
    cases readCpuStage inp s.toSysState with
    | error e => rfl
    | ok sys =>
        cases inp.proc with
        | none => rfl
        | some pids =>
            dsimp only
            cases readListing conf inp.files sys.curr pids s.toTreeState with
            | error e => rfl
            | ok st =>
                dsimp only
                cases writeStat conf ((readSystemStats conf inp sys).writeArgs inp.ctime) st.tree
                    (.start ((readSystemStats conf inp sys).sysStats (readSystemStats conf inp sys).curr)
                      s.pstList st.fdLog) with
                | error e => rfl
                | ok written =>
                    dsimp only [pure, Except.pure]
                    cases showStage inp (writeSystemStats inp.ctime written.2.amount
                        ((readSystemStats conf inp sys).addTotals written.2)).1 <;> rfl
  rw [hsplit]
  cases hr : samplePass conf inp s with
  | error e => rfl
  | ok r =>
      simp only [bind, Except.bind, finish, hframe r hr]

/-! ## The energy tables -/

/-- The row of a display in `device_energy`. -/
def DeviceEnergy.toRow (de : DeviceEnergy) : DeviceEnergyRow := ⟨0, de.ecpu, de.emem, de.enet, de.edisk⟩

/-- The rows of a display in `process_energy`: a line with an infinity or NaN has none. -/
def EnergyScreen.rows (scr : EnergyScreen) : List ProcessEnergyRow :=
  (scr.lines.filter fun line => line.floats.all XFloat.isFinite).map fun line =>
    line.toProcessEnergy.toRow

theorem foldl_insertProcessEnergy : ∀ (lines : List EnergyLine) (t : EnergyTables),
    lines.foldl (fun t line => insertProcessEnergy line.toProcessEnergy t) t =
      { t with processEnergy := t.processEnergy ++
          (lines.filter fun line => line.floats.all XFloat.isFinite).map fun line =>
            line.toProcessEnergy.toRow }
  | [], t => by simp
  | line :: lines, t => by
      rw [List.foldl_cons, foldl_insertProcessEnergy lines, insertProcessEnergy, List.filter_cons]
      split
      · rw [List.map_cons, List.append_assoc, List.singleton_append]
      · rfl

/-- **What a display persists.** -/
theorem persist_eq (scr : EnergyScreen) (t : EnergyTables) : persist scr t =
    { deviceEnergy := t.deviceEnergy ++ [scr.device.toRow]
      processEnergy := t.processEnergy ++ scr.rows } := by
  rw [persist, foldl_insertProcessEnergy]
  rfl

/-! ## The display -/

section ShowStage

variable {inp : CycleInput} {s : SysState}

theorem showStage_tty (hturn : (s.screen && decide (s.cycle % 3 = 0)) = true)
    (htty : inp.isatty = true) (hexit : inp.displayExit = none) :
    showStage inp s = .ok { s with screen := true } := by
  simp only [showStage, hturn, if_true, htty, hexit]

theorem showStage_pipe (hturn : (s.screen && decide (s.cycle % 3 = 0)) = true)
    (htty : inp.isatty = false) : showStage inp s = .ok { s with screen := false } := by
  simp only [showStage, hturn, if_true, htty]

end ShowStage

/-- What the queries of a display answer. -/
def screenOf (interval : Int) (inp : PassInput) (s : PtopState) (amount : Int) : EnergyScreen :=
  energyScreen s.db interval inp.ctime s.pstList amount

/-- A key that does not end the program touches the clock only. -/
theorem keyStage_ok {interval : Int} {inp : PassInput} {scr : EnergyScreen} {s s' : ProgramState}
    {d : Display} (h : keyStage interval inp scr s = .ok (s', d)) :
    s' = { s with clock := s'.clock } ∧ d.screen = scr ∧ inp.term.lastchar ≠ some MQUIT := by
  have hquit : inp.term.lastchar = some MQUIT → keyStage interval inp scr s =
      .error (cleanstop 0 inp.cleanTime s) := by
    intro hkey
    rw [keyStage, hkey]
    rfl
  have hkey : inp.term.lastchar ≠ some MQUIT := by
    intro hkey
    rw [hquit hkey] at h
    cases h
  unfold keyStage at h
  dsimp only at h
  split at h
  · cases h
    exact ⟨rfl, rfl, hkey⟩
  · split at h
    · cases h
    · split at h
      · cases h
        exact ⟨rfl, rfl, hkey⟩
      · split at h <;> cases h <;> exact ⟨rfl, rfl, hkey⟩

theorem displayStage_tty {interval amount : Int} {inp : PassInput} {s s' : ProgramState}
    {d : Option Display} (htty : inp.term.isatty = true)
    (h : displayStage interval inp amount s = .ok (s', d)) :
    s' = { s with
        screen := true
        clock := s'.clock
        handlers := true
        energies := persist (screenOf interval inp s.toPtopState amount) s.energies } ∧
      d.map Display.screen = some (screenOf interval inp s.toPtopState amount) ∧
      inp.term.exitCode = none := by
  unfold displayStage at h
  rw [if_neg (not_not.mpr htty)] at h
  split at h
  · cases h
  · rename_i hcols
    obtain ⟨⟨s₁, d₁⟩, hkey, heq⟩ := except_map_eq_ok.mp h
    cases heq
    obtain ⟨hs', hscr, hquit⟩ := keyStage_ok hkey
    refine ⟨hs', ?_, ?_⟩
    · rw [Option.map_some, hscr]
      rfl
    · rw [Terminal.exitCode, if_neg hcols, if_neg hquit]

/-! ## A pass -/

/-- A pass of the program in a run. -/
abbrev Pass := Transition ProgramState PassInput PassOutput

/-- A pass as a cycle of the loop. -/
def Pass.cycle (c : Pass) : PtopCycle :=
  ⟨c.pre.toPtopState, c.input.cycle, c.post.toPtopState, c.output.cycle⟩

/-- The pass draws the screen. -/
def Pass.Draws (c : Pass) : Prop :=
  c.pre.screen = true ∧ c.pre.cycle % 3 = 0 ∧ c.input.term.isatty = true

instance (c : Pass) : Decidable c.Draws := inferInstanceAs (Decidable (_ ∧ _ ∧ _))

/-- The screen that a pass draws, if it does. -/
def Pass.screen (interval : Int) (c : Pass) : EnergyScreen :=
  energyScreen (queryDb c.cycle) interval c.input.ctime c.post.pstList c.output.cycle.amount

/-- What a pass that comes to its end does besides the step of the loop. -/
structure PassFacts (conf : Conf) (interval : Int) (c : Pass) : Prop where
  step : Steps (mainLoop conf) c.cycle.input c.cycle.pre c.cycle.post c.cycle.output
  drawn : c.Draws → c.post.energies = persist (c.screen interval) c.pre.energies ∧
    c.output.display.map Display.screen = some (c.screen interval) ∧ c.post.handlers = true
  undrawn : ¬ c.Draws → c.post.energies = c.pre.energies ∧ c.output.display = none ∧
    c.post.handlers = c.pre.handlers

/-- A `pause` that returns has touched the clock at most. -/
theorem pause_ok {interval : Int} {inp : PassInput} {s s' : ProgramState}
    (h : pause interval inp s = .ok s') : s' = { s with clock := s'.clock } := by
  unfold pause at h
  split at h
  · split at h <;> cases h
    rfl
  all_goals cases h
  · rfl
  · rfl

/-- What the display does to the state, and to the terminal's answer. -/
structure DrawFacts (interval amount : Int) (inp : PassInput) (s s' : ProgramState)
    (d : Option Display) : Prop where
  shown : showStage inp.cycle s.toSysState = .ok s'.toSysState
  tree : s'.toTreeState = s.toTreeState
  pstList : s'.pstList = s.pstList
  db : s'.db = s.db
  drawn : s.screen = true ∧ s.cycle % 3 = 0 ∧ inp.term.isatty = true →
    s'.energies = persist (screenOf interval inp s.toPtopState amount) s.energies ∧
      d.map Display.screen = some (screenOf interval inp s.toPtopState amount) ∧ s'.handlers = true
  undrawn : ¬ (s.screen = true ∧ s.cycle % 3 = 0 ∧ inp.term.isatty = true) →
    s'.energies = s.energies ∧ d = none ∧ s'.handlers = s.handlers
  wide : s.screen = true ∧ s.cycle % 3 = 0 ∧ inp.term.isatty = true → inp.term.exitCode = none

theorem drawStage_ok {interval amount : Int} {inp : PassInput} {s s' : ProgramState}
    {d : Option Display} (h : drawStage interval inp amount s = .ok (s', d)) :
    DrawFacts interval amount inp s s' d := by
  unfold drawStage at h
  by_cases hturn : (s.screen && decide (s.cycle % 3 = 0)) = true
  · have hcond : s.screen = true ∧ s.cycle % 3 = 0 := by simpa using hturn
    rw [if_pos hturn] at h
    by_cases htty : inp.term.isatty = true
    · obtain ⟨hs', hd, hexit⟩ := displayStage_tty htty h
      have hshow : showStage inp.cycle s.toSysState = .ok { s.toSysState with screen := true } :=
        showStage_tty hturn htty hexit
      rw [hs']
      exact ⟨hshow, rfl, rfl, rfl, fun _ => ⟨rfl, hd, rfl⟩,
        fun hno => absurd ⟨hcond.1, hcond.2, htty⟩ hno, fun _ => hexit⟩
    · -- without a terminal the display only turns itself off
      have hoff : inp.term.isatty = false := Bool.eq_false_iff.mpr htty
      rw [displayStage, if_pos htty] at h
      cases h
      have hshow : showStage inp.cycle s.toSysState = .ok { s.toSysState with screen := false } :=
        showStage_pipe hturn hoff
      exact ⟨hshow, rfl, rfl, rfl, fun hyes => absurd hyes.2.2 htty, fun _ => ⟨rfl, rfl, rfl⟩,
        fun hyes => absurd hyes.2.2 htty⟩
  · rw [if_neg hturn] at h
    cases h
    have hshow : showStage inp.cycle s.toSysState = .ok s.toSysState := by
      rw [showStage, if_neg hturn]
    have hno : ¬ (s.screen = true ∧ s.cycle % 3 = 0 ∧ inp.term.isatty = true) :=
      fun hyes => hturn (by simp [hyes.1, hyes.2.1])
    exact ⟨hshow, rfl, rfl, rfl, fun hyes => absurd hyes hno, fun _ => ⟨rfl, rfl, rfl⟩,
      fun hyes => absurd hyes hno⟩

/-- A pass in front of its display. -/
def sampledState (interval : Int) (inp : PassInput) (s : ProgramState) (t : PtopState) :
    ProgramState := onAlarm interval inp.early.1 { s with toPtopState := t }

/-- A pass in front of its `pause`. -/
def drawnState (interval : Int) (inp : PassInput) (s : ProgramState) : ProgramState :=
  onAlarm interval inp.early.2 { s with
    toSysState := s.toSysState.next
    db := purgeStage s.cycle inp.cycle s.db }

/-- The stages of a pass that comes to its end. -/
theorem pass_stages {conf : Conf} {interval : Int} {inp : PassInput} {s s' : ProgramState}
    {out : PassOutput} (h : Steps (pass conf interval) inp s s' out) : ∃ t s₁,
      samplePass conf inp.cycle s.toPtopState = .ok (t, out.cycle) ∧
      drawStage interval inp out.cycle.amount (sampledState interval inp s t) =
        .ok (s₁, out.display) ∧
      pause interval inp (drawnState interval inp s₁) = .ok s' := by
  unfold Steps pass at h
  obtain ⟨⟨t, cout⟩, hsample, h⟩ := except_bind_eq_ok.mp h
  obtain ⟨⟨s₁, display⟩, hdraw, h⟩ := except_bind_eq_ok.mp h
  obtain ⟨s₂, hpause, h⟩ := except_bind_eq_ok.mp h
  cases h
  exact ⟨t, s₁, except_mapError_eq_ok.mp hsample, hdraw, hpause⟩

/-- **What a pass does**: one step of the loop, and what the display adds to it. -/
theorem pass_ok {conf : Conf} {interval : Int} {inp : PassInput} {s s' : ProgramState}
    {out : PassOutput} (h : Steps (pass conf interval) inp s s' out) :
    PassFacts conf interval ⟨s, inp, s', out⟩ := by
  obtain ⟨t, s₁, hsample, hdraw, hpause⟩ := pass_stages h
  rw [pause_ok hpause]
  have hframe := samplePass_frame hsample
  have hd := drawStage_ok hdraw
  have hcond : (t.screen = true ∧ t.cycle % 3 = 0 ∧ inp.term.isatty = true) ↔
      (s.screen = true ∧ s.cycle % 3 = 0 ∧ inp.term.isatty = true) := by
    rw [hframe.screen, hframe.cycle]
  refine ⟨?_, ?_, ?_⟩
  · have hstep := mainLoop_eq_samplePass conf inp.cycle s.toPtopState
    have hshown : showStage inp.cycle t.toSysState = .ok s₁.toSysState := hd.shown
    simp only [hsample, bind, Except.bind, hshown, Except.map] at hstep
    have hcycle : s₁.cycle = t.cycle := by rw [showStage_frame hshown]
    have htree : s₁.toTreeState = t.toTreeState := hd.tree
    have hlist : s₁.pstList = t.pstList := hd.pstList
    have hdb : s₁.db = t.db := hd.db
    have hrest : finish inp.cycle t s₁.toSysState = (drawnState interval inp s₁).toPtopState := by
      show _ = { s₁.toPtopState with
        toSysState := s₁.toSysState.next, db := purgeStage s₁.cycle inp.cycle s₁.db }
      rw [finish, ← htree, ← hlist, ← hdb, hcycle]
    rw [hrest] at hstep
    exact hstep
  · intro hdraws
    obtain ⟨henergies, hdisplay, hhandlers⟩ := hd.drawn (hcond.mpr hdraws)
    have hlist : s₁.pstList = t.pstList := hd.pstList
    have hscr : screenOf interval inp t out.cycle.amount =
        energyScreen (queryDb ⟨s.toPtopState, inp.cycle, s'.toPtopState, out.cycle⟩) interval
          inp.ctime s₁.pstList out.cycle.amount := by
      rw [screenOf, hframe.db, hlist]
      rfl
    change s₁.energies = persist (screenOf interval inp t out.cycle.amount) s.energies at henergies
    change out.display.map Display.screen = some (screenOf interval inp t out.cycle.amount) at hdisplay
    rw [hscr] at henergies hdisplay
    exact ⟨henergies, hdisplay, hhandlers⟩
  · intro hno
    exact hd.undrawn fun hyes => hno (hcond.mp hyes)

theorem pass_step {conf : Conf} {interval : Int} {inp : PassInput} {s s' : ProgramState}
    {out : PassOutput} (h : Steps (pass conf interval) inp s s' out) :
    Steps (mainLoop conf) inp.cycle s.toPtopState s'.toPtopState out.cycle := (pass_ok h).step

/-! ## The ways out -/

theorem keyStage_error {interval : Int} {inp : PassInput} {scr : EnergyScreen} {s : ProgramState}
    {e : Ending} (h : keyStage interval inp scr s = .error e) :
    inp.term.lastchar = some MQUIT ∧ e = cleanstop 0 inp.cleanTime s := by
  have hsome : inp.term.lastchar.getD 0 = MQUIT → inp.term.lastchar = some MQUIT := by
    cases inp.term.lastchar with
    | none => intro h; cases h
    | some key => exact congrArg some
  unfold keyStage at h
  dsimp only at h
  split at h
  · cases h
  · split at h
    · rename_i hquit
      cases h
      exact ⟨hsome hquit, rfl⟩
    · split at h
      · cases h
      · split at h <;> cases h

/-- How the display ends the program, and from which state. -/
inductive DisplayEnds (interval amount : Int) (inp : PassInput) (s : ProgramState) :
    Ending → Prop where
  | narrow (h : inp.term.COLS < LEAST_COLUMS) :
      DisplayEnds interval amount inp s (cleanstop 1 inp.cleanTime { s with screen := true })
  | quit (hcols : LEAST_COLUMS ≤ inp.term.COLS) (h : inp.term.lastchar = some MQUIT) :
      DisplayEnds interval amount inp s (cleanstop 0 inp.cleanTime { s with
        screen := true
        handlers := true
        energies := persist (screenOf interval inp s.toPtopState amount) s.energies })

theorem drawStage_error {interval amount : Int} {inp : PassInput} {s : ProgramState} {e : Ending}
    (h : drawStage interval inp amount s = .error e) :
    (s.screen = true ∧ s.cycle % 3 = 0 ∧ inp.term.isatty = true) ∧
      DisplayEnds interval amount inp s e := by
  unfold drawStage at h
  split at h
  · rename_i hturn
    rw [Bool.and_eq_true, decide_eq_true_eq] at hturn
    unfold displayStage at h
    split at h
    · cases h
    · rename_i htty
      refine ⟨⟨hturn.1, hturn.2, not_not.mp htty⟩, ?_⟩
      split at h
      · rename_i hcols
        cases h
        exact .narrow hcols
      · rename_i hcols
        obtain ⟨hkey, rfl⟩ := keyStage_error (except_map_eq_error.mp h)
        exact .quit (not_lt.mp hcols) hkey
  · cases h

/-- **The ways a pass does not come to its end.** -/
inductive PassEnds (conf : Conf) (interval : Int) (inp : PassInput) (s : ProgramState) :
    Ending → Prop where
  | stop {e : Stop} (h : samplePass conf inp.cycle s.toPtopState = .error e) :
      PassEnds conf interval inp s (.stop e)
  | display {t : PtopState} {out : CycleOutput} {e : Ending}
      (h : samplePass conf inp.cycle s.toPtopState = .ok (t, out))
      (hturn : t.screen = true ∧ t.cycle % 3 = 0 ∧ inp.term.isatty = true)
      (hdisplay : DisplayEnds interval out.amount inp (sampledState interval inp s t) e) :
      PassEnds conf interval inp s e
  | terminate {t : PtopState} {out : CycleOutput} {s₁ : ProgramState} {d : Option Display}
      {sig : Int}
      (h : samplePass conf inp.cycle s.toPtopState = .ok (t, out))
      (hdraw : DrawFacts interval out.amount inp (sampledState interval inp s t) s₁ d)
      (hsig : sig = SIGINT ∧ inp.signal = some .sigint ∨
        sig = SIGTERM ∧ inp.signal = some .sigterm) :
      PassEnds conf interval inp s (terminate sig inp (drawnState interval inp s₁))
  | killed {sig : Int} (hsig : inp.signal = some (.fatal sig)) :
      PassEnds conf interval inp s (.killed sig)
  | asleep {t : PtopState} {out : CycleOutput} {s₁ : ProgramState} {d : Option Display}
      (h : samplePass conf inp.cycle s.toPtopState = .ok (t, out))
      (hdraw : drawStage interval inp out.amount (sampledState interval inp s t) = .ok (s₁, d))
      (hclock : (drawnState interval inp s₁).clock = none) : PassEnds conf interval inp s .asleep

/-- The ways `pause` does not return. -/
theorem pause_error {interval : Int} {inp : PassInput} {s : ProgramState} {e : Ending}
    (h : pause interval inp s = .error e) :
    (∃ sig, (sig = SIGINT ∧ inp.signal = some .sigint ∨
        sig = SIGTERM ∧ inp.signal = some .sigterm) ∧
      e = terminate sig inp s) ∨
    (∃ sig, inp.signal = some (.fatal sig) ∧ e = .killed sig) ∨ s.clock = none ∧ e = .asleep := by
  unfold pause at h
  split at h
  · split at h
    · rename_i hclock
      cases h
      exact Or.inr (Or.inr ⟨hclock, rfl⟩)
    · cases h
  · cases h
  · cases h
  · rename_i hsig
    cases h
    exact Or.inl ⟨SIGINT, Or.inl ⟨rfl, hsig⟩, rfl⟩
  · rename_i hsig
    cases h
    exact Or.inl ⟨SIGTERM, Or.inr ⟨rfl, hsig⟩, rfl⟩
  · rename_i sig hsig
    cases h
    exact Or.inr (Or.inl ⟨sig, hsig, rfl⟩)

theorem pass_error {conf : Conf} {interval : Int} {inp : PassInput} {s : ProgramState}
    {e : Ending} (h : pass conf interval inp s = .error e) : PassEnds conf interval inp s e := by
  unfold pass at h
  rcases except_bind_eq_error.mp h with h | ⟨⟨t, out⟩, hsample, h⟩
  · obtain ⟨e, hsample, rfl⟩ := except_mapError_eq_error.mp h
    exact .stop hsample
  · have hsample := except_mapError_eq_ok.mp hsample
    rcases except_bind_eq_error.mp h with h | ⟨⟨s₁, d⟩, hdraw, h⟩
    · obtain ⟨hturn, hdisplay⟩ := drawStage_error h
      exact .display hsample hturn hdisplay
    · rcases except_bind_eq_error.mp h with h | ⟨s₂, hpause, h⟩
      · rcases pause_error h with ⟨sig, hsig, rfl⟩ | ⟨sig, hsig, rfl⟩ | ⟨hclock, rfl⟩
        · exact .terminate hsample (drawStage_ok hdraw) hsig
        · exact .killed hsig
        · exact .asleep hsample hdraw hclock
      · cases h

/-! ## The clock -/

/-- An alarm is pending: that of the sample interval, or the short one that help and the
prompt leave behind. -/
def Awake (interval : Int) (clock : Option Int) : Prop := clock = some interval ∨ clock = some 3

instance (interval : Int) (clock : Option Int) : Decidable (Awake interval clock) :=
  inferInstanceAs (Decidable (_ ∨ _))

section Clock

variable {conf : Conf} {interval amount : Int} {inp : PassInput} {s s' : ProgramState}

theorem alarm_awake (hinterval : interval ≠ 0) : Awake interval (alarm interval) :=
  Or.inl (if_neg hinterval)

theorem onAlarm_awake (hinterval : interval ≠ 0) (comes : Bool) (h : Awake interval s.clock) :
    Awake interval (onAlarm interval comes s).clock := by
  show Awake interval (if comes then alarm interval else s.clock)
  split
  · exact alarm_awake hinterval
  · exact h

/-- Help and the prompt stop the clock, and leave with the short alarm. -/
theorem keyStage_awake {scr : EnergyScreen} {d : Display} (hinterval : interval ≠ 0)
    (hclock : Awake interval s.clock) (h : keyStage interval inp scr s = .ok (s', d)) :
    Awake interval s'.clock := by
  unfold keyStage at h
  dsimp only at h
  split at h
  · cases h
    exact hclock
  · split at h
    · cases h
    · split at h
      · cases h
        exact Or.inr (if_pos hinterval)
      · split at h
        · cases h
          exact Or.inr rfl
        · cases h
          exact hclock

theorem drawStage_awake {d : Option Display} (hinterval : interval ≠ 0)
    (hclock : Awake interval s.clock) (h : drawStage interval inp amount s = .ok (s', d)) :
    Awake interval s'.clock := by
  unfold drawStage at h
  split at h
  · unfold displayStage at h
    split at h
    · cases h
      exact hclock
    · dsimp only at h
      split at h
      · cases h
      · obtain ⟨⟨s₁, d₁⟩, hkey, heq⟩ := except_map_eq_ok.mp h
        cases heq
        exact keyStage_awake hinterval (by exact hclock) hkey
  · cases h
    exact hclock

theorem pause_awake (hinterval : interval ≠ 0) (hclock : Awake interval s.clock)
    (h : pause interval inp s = .ok s') : Awake interval s'.clock := by
  unfold pause at h
  split at h
  · split at h <;> cases h
    exact alarm_awake hinterval
  all_goals cases h
  · exact alarm_awake hinterval
  · exact hclock

/-- An alarm is pending in every `pause`. -/
theorem drawnState_awake {t : PtopState} {s₁ : ProgramState} {d : Option Display}
    (hinterval : interval ≠ 0) (hclock : Awake interval s.clock)
    (h : drawStage interval inp amount (sampledState interval inp s t) = .ok (s₁, d)) :
    Awake interval (drawnState interval inp s₁).clock := by
  have hsampled : Awake interval (sampledState interval inp s t).clock :=
    onAlarm_awake hinterval _ hclock
  have hshown : Awake interval s₁.clock := drawStage_awake hinterval hsampled h
  exact onAlarm_awake hinterval inp.early.2 hshown

theorem pass_awake {out : PassOutput} (hinterval : interval ≠ 0) (hclock : Awake interval s.clock)
    (h : Steps (pass conf interval) inp s s' out) : Awake interval s'.clock := by
  obtain ⟨t, s₁, -, hdraw, hpause⟩ := pass_stages h
  exact pause_awake hinterval (drawnState_awake hinterval hclock hdraw) hpause

/-- With an alarm pending, no pass ends in a `pause` that nothing will end. -/
theorem pass_ne_asleep (hinterval : interval ≠ 0) (hclock : Awake interval s.clock) :
    pass conf interval inp s ≠ .error .asleep := by
  intro h
  have hends := pass_error h
  generalize he : Ending.asleep = e at hends
  cases hends with
  | stop _ => cases he
  | display _ _ hdisplay => cases hdisplay <;> cases he
  | terminate _ _ _ =>
      unfold terminate at he
      split at he <;> cases he
  | killed _ => cases he
  | asleep _ hdraw hnone =>
      have hdrawn := drawnState_awake hinterval hclock hdraw
      rw [hnone] at hdrawn
      rcases hdrawn with h | h <;> cases h

end Clock

/-! ## Runs of the program -/

abbrev ProgramRun (conf : Conf) (interval : Int) (s₀ : ProgramState) :
    List Pass → ProgramState → Prop :=
  Run (Steps (pass conf interval)) s₀

section Runs

variable {conf : Conf} {interval : Int} {s₀ s : ProgramState} {cs : List Pass}

/-- **A run of the program is a run of its loop.** -/
theorem programRun_cycles (h : ProgramRun conf interval s₀ cs s) :
    Run (Steps (mainLoop conf)) s₀.toPtopState (cs.map Pass.cycle) s.toPtopState :=
  h.project PassInput.cycle (fun s => s.toPtopState) PassOutput.cycle pass_step

theorem programRun_awake (hinterval : interval ≠ 0) (h : ProgramRun conf interval s₀ cs s)
    (h₀ : Awake interval s₀.clock) : Awake interval s.clock :=
  h.invariant (P := fun s => Awake interval s.clock) h₀ fun hclock hstep =>
    pass_awake hinterval hclock hstep

theorem sampleInterval_pos (argv : List CString) : 0 < sampleInterval argv := by
  unfold sampleInterval
  split
  · split
    · decide
    · rename_i h
      exact not_le.mp h
  · decide

end Runs

end PTop
