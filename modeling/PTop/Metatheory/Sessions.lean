import PTop.Metatheory.Descriptors
import PTop.Metatheory.Program

/-!
# Sessions

A session starts on the tables that earlier ones left behind and ends in
`cleanstop`. The loop writes its tables and never reads them, so a session does
the same on all tables; what is left of the old rows stays in front of its own.
-/

namespace PTop

open Framework Framework.HTree AvlTree

/-- A pass at a terminal where nothing is typed. -/
def plainPass (time : Int) (busy : u64) (pids : List Pid) (files : Pid → ProcFiles) : PassInput where
  ctime := time
  stat := some (some { cpuUser := busy })
  proc := some pids
  files := files
  cpufreq := none
  cpuCounter := fun _ => none
  net := none
  purgeTime := (time, time)

/-- Two seconds of a machine that has been up for a while. -/
def twoSeconds : List PassInput :=
  let files := fun _ => plainFiles { utime := 30 } {}
  [plainPass 100 100 [resident, visitor] files, plainPass 101 200 [resident] files]

/-- What an earlier session left behind: a row before and a row in the first second. -/
def leftBehind : Database where
  sysInfo := [⟨90, 1, 2, 3, 4, 5, 6, 7, 8, 9⟩, ⟨100, 1, 2, 3, 4, 5, 6, 7, 8, 9⟩]

/-! ## The loop does not read its tables -/

/-- The rows of the first table are some old ones and those of the second. -/
def OldInFront {α : Type} (old rows rows' : List α) : Prop :=
  ∃ A, A.Sublist old ∧ rows = A ++ rows'

theorem OldInFront.append {α : Type} {old rows rows' : List α} (h : OldInFront old rows rows')
    (new : List α) : OldInFront old (rows ++ new) (rows' ++ new) := by
  obtain ⟨A, hA, rfl⟩ := h
  exact ⟨A, hA, List.append_assoc ..⟩

theorem OldInFront.filter {α : Type} {old rows rows' : List α} (h : OldInFront old rows rows')
    (p : α → Bool) : OldInFront old (rows.filter p) (rows'.filter p) := by
  obtain ⟨A, hA, rfl⟩ := h
  exact ⟨A.filter p, List.filter_sublist.trans hA, List.filter_append ..⟩

/-- Tables with old rows in front. -/
structure OldTables (old db db' : Database) : Prop where
  processInfo : OldInFront old.processInfo db.processInfo db'.processInfo
  sysInfo : OldInFront old.sysInfo db.sysInfo db'.sysInfo

theorem OldTables.purge {old db db' : Database} (h : OldTables old db db') (cycle : ℕ)
    (inp : CycleInput) : OldTables old (purgeStage cycle inp db) (purgeStage cycle inp db') := by
  unfold purgeStage
  split
  · exact ⟨h.processInfo.filter _, h.sysInfo.filter _⟩
  · exact h

theorem OldTables.insert {old db db' : Database} (h : OldTables old db db')
    (rows : List ProcessInfo) (row : SysInfo) :
    OldTables old (insertSysInfo row (rows.foldl (fun db r => insertPs r db) db))
      (insertSysInfo row (rows.foldl (fun db r => insertPs r db) db')) := by
  rw [foldl_insertPs, foldl_insertPs]
  exact ⟨h.processInfo.append _, h.sysInfo.append _⟩

/-- The same state, but for old rows in the tables of the first. -/
structure SameButTables (old : Database) (s t : PtopState) : Prop where
  rest : s = { t with db := s.db }
  tables : OldTables old s.db t.db

section Twin

variable {conf : Conf} {inp : CycleInput} {old : Database} {s t : PtopState}

theorem cycleOf_tables (db : Database) {sys shown : SysState} {pids : List Pid} {st : TreeState}
    {w : WriteAcc} : CycleOf conf inp { t with db := db } sys pids st w shown ↔
      CycleOf conf inp t sys pids st w shown := by
  constructor
  · rintro ⟨hcpu, hproc, hread, hne, hw, hshown⟩
    exact ⟨hcpu, hproc, hread, hne, hw, hshown⟩
  · rintro ⟨hcpu, hproc, hread, hne, hw, hshown⟩
    exact ⟨hcpu, hproc, hread, hne, hw, hshown⟩

theorem SameButTables.cycleOf (h : SameButTables old s t) {sys shown : SysState} {pids : List Pid}
    {st : TreeState} {w : WriteAcc} :
    CycleOf conf inp s sys pids st w shown ↔ CycleOf conf inp t sys pids st w shown := by
  rw [h.rest]
  exact cycleOf_tables s.db

theorem SameButTables.stateAfter (h : SameButTables old s t) (sys shown : SysState)
    (st : TreeState) (w : WriteAcc) :
    SameButTables old (stateAfter inp s sys st w shown) (stateAfter inp t sys st w shown) := by
  refine ⟨rfl, ?_⟩
  have hcycle : s.cycle = t.cycle := by rw [h.rest]
  show OldTables old (purgeStage s.cycle inp _) (purgeStage t.cycle inp _)
  rw [hcycle]
  exact (h.tables.insert w.rows _).purge _ _

end Twin

/-- **The loop does not read its tables.** -/
theorem tables_unread (conf : Conf) (old : Database) :
    Bisimulation (Steps (mainLoop conf)) (Steps (mainLoop conf)) (SameButTables old) Eq Eq where
  matched := by
    rintro s t inp _ s' o t' o' hR rfl hs ht
    obtain ⟨sys, pids, st, w, shown, hc, rfl, rfl⟩ := mainLoop_ok_iff.mp hs
    have htwin : mainLoop conf inp t =
        .ok (stateAfter inp t sys st w shown, outputOf inp sys st w) :=
      mainLoop_ok_iff.mpr ⟨sys, pids, st, w, shown, hR.cycleOf.mp hc, rfl, rfl⟩
    cases ht.symm.trans htwin
    exact ⟨hR.stateAfter sys shown st w, rfl⟩
  enabled := by
    rintro s t inp _ hR rfl
    constructor
    · rintro ⟨s', o, hs⟩
      obtain ⟨sys, pids, st, w, shown, hc, -, -⟩ := mainLoop_ok_iff.mp hs
      exact ⟨_, _, mainLoop_ok_iff.mpr ⟨sys, pids, st, w, shown, hR.cycleOf.mp hc, rfl, rfl⟩⟩
    · rintro ⟨t', o, ht⟩
      obtain ⟨sys, pids, st, w, shown, hc, -, -⟩ := mainLoop_ok_iff.mp ht
      exact ⟨_, _, mainLoop_ok_iff.mpr ⟨sys, pids, st, w, shown, hR.cycleOf.mpr hc, rfl, rfl⟩⟩

/-- Every run follows one on empty tables. -/
theorem exists_fresh_run {conf : Conf} {cpuFd : List PCFile} {old : Database}
    {cs : List PtopCycle} {s : PtopState}
    (h : Run (Steps (mainLoop conf)) { systemInit cpuFd with db := old } cs s) :
    ∃ ds t, PtopRun conf cpuFd ds t ∧ cs.map Transition.input = ds.map Transition.input ∧
      cs.map Transition.output = ds.map Transition.output ∧ SameButTables old s t := by
  refine (tables_unread conf old).run_twin ⟨rfl, ?_⟩ h
  exact ⟨⟨old.processInfo, .refl _, (List.append_nil _).symm⟩,
    ⟨old.sysInfo, .refl _, (List.append_nil _).symm⟩⟩

/-! ## Clean tables -/

/-- The rows of a table that a session finds and deletes when it starts. -/
def OlderThan (init clean : Int × Int) (db : Database) : Prop :=
  (∀ p ∈ db.processInfo, p.time < init.1 ∨ p.time < clean.1) ∧
    ∀ r ∈ db.sysInfo, r.time < init.2 ∨ r.time < clean.2

/-- A purge without an interval keeps the rows of this second and later. -/
theorem freeupAll_zero (now : Int × Int) (db : Database) : freeupAll 0 now db =
    { processInfo := db.processInfo.filter fun p => ¬ p.time < now.1
      sysInfo := db.sysInfo.filter fun r => ¬ r.time < now.2 } := by
  have hzero : ((0 : u32).toNat : Int) = 0 := rfl
  simp only [freeupAll, freeupPs, freeupSysInfo, hzero, Int.sub_zero]

/-- Two purges leave no row iff each row is older than one of them. -/
theorem filter_twice_eq_nil_iff {α : Type} {time : α → Int} {n m : Int} {rows : List α} :
    (rows.filter fun r => ¬ time r < n).filter (fun r => ¬ time r < m) = [] ↔
      ∀ r ∈ rows, time r < n ∨ time r < m := by
  rw [List.filter_filter, List.filter_eq_nil_iff]
  apply forall₂_congr
  intro r _
  simp only [Bool.and_eq_true, decide_eq_true_eq, not_and_or, not_not]
  exact or_comm

instance (init clean : Int × Int) (db : Database) : Decidable (OlderThan init clean db) :=
  inferInstanceAs (Decidable (_ ∧ _))

theorem programStart_eq_init_iff {interval : Int} {cpuFd : List PCFile} {init clean : Int × Int}
    {db : Database} {energies : EnergyTables} :
    (programStart interval cpuFd init clean db energies).toPtopState = systemInit cpuFd ↔
      OlderThan init clean db := by
  have hdb : (programStart interval cpuFd init clean db energies).toPtopState = systemInit cpuFd ↔
      freeupAll 0 clean (freeupAll 0 init db) = {} := by
    constructor
    · exact congrArg PtopState.db
    · intro h
      show { systemInit cpuFd with db := freeupAll 0 clean (freeupAll 0 init db) } = systemInit cpuFd
      rw [h]
      rfl
  rw [hdb, freeupAll_zero, freeupAll_zero, Database.mk.injEq, filter_twice_eq_nil_iff,
    filter_twice_eq_nil_iff]
  rfl

/-- A session that deletes all the rows it finds is a run of the loop. -/
theorem session_run {conf : Conf} {interval : Int} {cpuFd : List PCFile} {init clean : Int × Int}
    {db : Database} {energies : EnergyTables} {cs : List Pass} {s : ProgramState}
    (h : ProgramRun conf interval (programStart interval cpuFd init clean db energies) cs s)
    (hold : OlderThan init clean db) : PtopRun conf cpuFd (cs.map Pass.cycle) s.toPtopState := by
  have hrun := programRun_cycles h
  rwa [programStart_eq_init_iff.mpr hold] at hrun

/-- **A session is a session on empty tables iff every row it finds is older than one of
the two purges of its start.** -/
theorem session_isolated_iff {conf : Conf} {interval : Int} {cpuFd : List PCFile}
    {init clean : Int × Int} {db : Database} {energies : EnergyTables} {cs : List Pass}
    {s : ProgramState}
    (h : ProgramRun conf interval (programStart interval cpuFd init clean db energies) cs s) :
    PtopRun conf cpuFd (cs.map Pass.cycle) s.toPtopState ↔ OlderThan init clean db := by
  constructor
  · intro hfresh
    exact programStart_eq_init_iff.mp ((programRun_cycles h).start_unique hfresh)
  · exact session_run h

/-- The row of the second in which the session starts stays. -/
theorem session_isolated_iff_leftBehind :
    ∃ cs s, ProgramRun {} 1 (programStart 1 [] (100, 100) (100, 100) leftBehind {}) cs s ∧
      cs.map Transition.input = twoSeconds ∧ ¬ OlderThan (100, 100) (100, 100) leftBehind ∧
      (PtopRun {} [] (cs.map Pass.cycle) s.toPtopState ↔
        OlderThan (100, 100) (100, 100) leftBehind) := by
  obtain ⟨cs, s, hrun, hinput, -⟩ := exists_run_of_trace (pass {} 1)
    (programStart 1 [] (100, 100) (100, 100) leftBehind {}) twoSeconds
    (fun cs => cs.length = 2) (by decide +kernel)
  exact ⟨cs, s, hrun, hinput, by decide, session_isolated_iff hrun⟩

/-! ## Any tables -/

/-- The cycles of a session, on whatever tables it finds. -/
theorem session_cycles {conf : Conf} {interval : Int} {cpuFd : List PCFile}
    {init clean : Int × Int} {db : Database} {energies : EnergyTables} {cs : List Pass}
    {s : ProgramState}
    (h : ProgramRun conf interval (programStart interval cpuFd init clean db energies) cs s) :
    Run (Steps (mainLoop conf))
      { systemInit cpuFd with db := freeupAll 0 clean (freeupAll 0 init db) }
      (cs.map Pass.cycle) s.toPtopState := programRun_cycles h

/-- **A session does on any tables what it does on empty ones**: the samples, the rows and
the totals are the same, and what its two first purges left of the old rows is in front. -/
theorem session_on_any_tables {conf : Conf} {interval : Int} {cpuFd : List PCFile}
    {init clean : Int × Int} {db : Database} {energies : EnergyTables} {cs : List Pass}
    {s : ProgramState}
    (h : ProgramRun conf interval (programStart interval cpuFd init clean db energies) cs s) :
    ∃ ds t, PtopRun conf cpuFd ds t ∧
      (cs.map Pass.cycle).map Transition.input = ds.map Transition.input ∧
      (cs.map Pass.cycle).map Transition.output = ds.map Transition.output ∧
      SameButTables (freeupAll 0 clean (freeupAll 0 init db)) s.toPtopState t :=
  exists_fresh_run (session_cycles h)

/-- The session leaves the row of its first second in front of its own two. -/
theorem session_on_any_tables_leftBehind :
    ∃ cs s ds t, ProgramRun {} 1 (programStart 1 [] (100, 100) (100, 100) leftBehind {}) cs s ∧
      cs.map Transition.input = twoSeconds ∧ s.db.sysInfo.length = 3 ∧ PtopRun {} [] ds t ∧
      (cs.map Pass.cycle).map Transition.output = ds.map Transition.output := by
  obtain ⟨cs, s, hrun, hinput, c, hc, hlen⟩ := exists_run_of_trace (pass {} 1)
    (programStart 1 [] (100, 100) (100, 100) leftBehind {}) twoSeconds
    (fun cs => ∃ c ∈ cs.getLast?, c.post.db.sysInfo.length = 3) (by decide +kernel)
  obtain ⟨before, rfl⟩ := List.getLast?_eq_some_iff.mp hc
  obtain ⟨-, -, rfl⟩ := hrun.snoc_inv
  obtain ⟨ds, t, hfresh, -, houtput, -⟩ := session_on_any_tables hrun
  exact ⟨_, c.post, ds, t, hrun, hinput, hlen, hfresh, houtput⟩

/-! ## The clock of a session -/

/-- **A session never sleeps for good**: whatever is typed at it and whatever signals come, an
alarm is pending after every pass, and no pass comes to a `pause` that nothing will end. -/
theorem session_awake {conf : Conf} {argv : List CString} {cpuFd : List PCFile}
    {init clean : Int × Int} {db : Database} {energies : EnergyTables} {cs : List Pass}
    {s : ProgramState}
    (h : ProgramRun conf (sampleInterval argv)
      (programStart (sampleInterval argv) cpuFd init clean db energies) cs s) :
    Awake (sampleInterval argv) s.clock ∧
      ∀ inp, pass conf (sampleInterval argv) inp s ≠ .error .asleep := by
  have hne : sampleInterval argv ≠ 0 := (sampleInterval_pos argv).ne'
  have hclock := programRun_awake hne h (alarm_awake hne)
  exact ⟨hclock, fun inp => pass_ne_asleep hne hclock⟩

/-- `ptop 60`. -/
def everyMinute : List CString := [[], [54, 48]]

/-- Help at the first display, the prompt at the second; each time the screen is resized
before the alarm, so that `pause` returns early. -/
def resized : List PassInput :=
  let files := fun _ => plainFiles { utime := 30 } {}
  let second := fun (n : ℕ) => plainPass n (BitVec.ofNat 64 (100 * n)) [resident, visitor] files
  [second 1, { second 2 with early := (true, true) },
    { second 3 with term := { lastchar := some MHELP }, signal := some .caught },
    second 4, second 5,
    { second 6 with
      term := { lastchar := some MKILLPROC, pidTyped := [50] }
      early := (true, false)
      signal := some .caught }]

theorem session_awake_resized :
    ∃ cs s, ProgramRun {} (sampleInterval everyMinute)
        (programStart (sampleInterval everyMinute) [] (0, 0) (0, 0) {} {}) cs s ∧
      cs.map Transition.input = resized ∧
      cs.map (fun c => c.post.clock) = [some 60, some 60, some 3, some 60, some 60, some 3] ∧
      Awake (sampleInterval everyMinute) s.clock := by
  obtain ⟨cs, s, hrun, hinput, hclocks⟩ := exists_run_of_trace
    (pass {} (sampleInterval everyMinute))
    (programStart (sampleInterval everyMinute) [] (0, 0) (0, 0) {} {}) resized
    (fun cs => cs.map (fun c => c.post.clock) =
      [some 60, some 60, some 3, some 60, some 60, some 3]) (by decide +kernel)
  exact ⟨cs, s, hrun, hinput, hclocks, (session_awake hrun).1⟩

/-! ## The way out -/

/-- The same cycle at a terminal where nothing is typed. -/
def calm (inp : CycleInput) : CycleInput := { inp with isatty := true, displayExit := none }

theorem showStage_calm (inp : CycleInput) (s : SysState) : showStage (calm inp) s = .ok s := by
  by_cases hturn : (s.screen && decide (s.cycle % 3 = 0)) = true
  · have hscreen : s.screen = true := (Bool.and_eq_true_iff.mp hturn).1
    have hshow : showStage (calm inp) s = .ok { s with screen := true } :=
      showStage_tty hturn rfl rfl
    rw [hshow, ← hscreen]
  · rw [showStage, if_neg hturn]

/-- A pass that is cut short has done what a calm cycle does. -/
theorem mainLoop_calm {conf : Conf} {inp : CycleInput} {s t : PtopState} {out : CycleOutput}
    (h : samplePass conf inp s = .ok (t, out)) :
    Steps (mainLoop conf) (calm inp) s (finish (calm inp) t t.toSysState) out := by
  have hsample : samplePass conf (calm inp) s = .ok (t, out) := h
  have hstep := mainLoop_eq_samplePass conf (calm inp) s
  simp only [hsample, bind, Except.bind, showStage_calm, Except.map] at hstep
  exact hstep

/-- What the display of a pass leaves in the energy tables. -/
def afterDisplay (interval amount : Int) (inp : PassInput) (s : ProgramState) : EnergyTables :=
  if (s.screen = true ∧ s.cycle % 3 = 0 ∧ inp.term.isatty = true) ∧
      LEAST_COLUMS ≤ inp.term.COLS then
    persist (screenOf interval inp s.toPtopState amount) s.energies
  else s.energies

section AfterDisplay

variable {interval amount : Int} {inp : PassInput} {s : ProgramState}

theorem Terminal.wide_of_exitCode {term : Terminal} (h : term.exitCode = none) :
    LEAST_COLUMS ≤ term.COLS := by
  unfold exitCode at h
  split at h
  · cases h
  · rename_i hcols
    exact not_lt.mp hcols

theorem DrawFacts.energies {s' : ProgramState} {d : Option Display}
    (h : DrawFacts interval amount inp s s' d) :
    s'.energies = afterDisplay interval amount inp s := by
  by_cases hdraws : s.screen = true ∧ s.cycle % 3 = 0 ∧ inp.term.isatty = true
  · rw [(h.drawn hdraws).1, afterDisplay,
      if_pos ⟨hdraws, Terminal.wide_of_exitCode (h.wide hdraws)⟩]
  · rw [(h.undrawn hdraws).1, afterDisplay, if_neg fun hboth => hdraws hboth.1]

/-- The display only appends to the energy tables. -/
theorem afterDisplay_appends (interval amount : Int) (inp : PassInput) (s : ProgramState) :
    s.energies.deviceEnergy <+: (afterDisplay interval amount inp s).deviceEnergy ∧
      s.energies.processEnergy <+: (afterDisplay interval amount inp s).processEnergy := by
  unfold afterDisplay
  split
  · rw [persist_eq]
    exact ⟨List.prefix_append .., List.prefix_append ..⟩
  · exact ⟨List.prefix_refl _, List.prefix_refl _⟩

end AfterDisplay

/-- What `cleanstop` leaves behind, from the pass up to the display. -/
structure CleanedFrom (interval amount : Int) (inp : PassInput) (t f : ProgramState) : Prop where
  fdLog : f.fdLog = t.fdLog ++ (closeAllCounters t.cpuFd t.tree).2
  processInfo : f.db.processInfo.Sublist t.db.processInfo
  sysInfo : f.db.sysInfo.Sublist t.db.sysInfo
  notOlder : (∀ p ∈ f.db.processInfo, inp.cleanTime.1 ≤ p.time) ∧
    ∀ r ∈ f.db.sysInfo, inp.cleanTime.2 ≤ r.time
  energies : f.energies = afterDisplay interval amount inp t

/-- `system_clean`, from the state of the pass that it cuts short. -/
theorem systemClean_cleaned {interval amount : Int} {inp : PassInput} {t u : ProgramState}
    (hcpu : u.cpuFd = t.cpuFd) (htree : u.toTreeState = t.toTreeState)
    (hps : u.db.processInfo.Sublist t.db.processInfo) (hss : u.db.sysInfo.Sublist t.db.sysInfo)
    (henergies : u.energies = afterDisplay interval amount inp t) :
    CleanedFrom interval amount inp t (systemClean inp.cleanTime u) := by
  have hdb : (systemClean inp.cleanTime u).db = freeupAll 0 inp.cleanTime u.db := rfl
  refine ⟨?_, List.filter_sublist.trans hps, List.filter_sublist.trans hss, ?_, henergies⟩
  · show u.fdLog ++ (closeAllCounters u.cpuFd u.tree).2 = _
    rw [hcpu, htree]
  · rw [hdb, freeupAll_zero]
    constructor
    · intro p hp
      exact not_lt.mp (of_decide_eq_true (List.mem_filter.mp hp).2)
    · intro r hr
      exact not_lt.mp (of_decide_eq_true (List.mem_filter.mp hr).2)

/-- Why a pass ends in `cleanstop`, and with which code. -/
def CleanReason (inp : PassInput) (code : Int) : Prop :=
  code = 1 ∧ inp.term.COLS < LEAST_COLUMS ∨ code = 0 ∧ inp.term.lastchar = some MQUIT ∨
    code = SIGINT ∧ inp.signal = some .sigint ∨ code = SIGTERM ∧ inp.signal = some .sigterm

/-- **Each way to `cleanstop`.** -/
theorem pass_cleaned {conf : Conf} {interval code : Int} {inp : PassInput} {s f : ProgramState}
    (h : pass conf interval inp s = .error (.clean code f)) :
    ∃ t out, samplePass conf inp.cycle s.toPtopState = .ok (t, out) ∧
      CleanedFrom interval out.amount inp (sampledState interval inp s t) f ∧
      CleanReason inp code := by
  have hends := pass_error h
  generalize he : Ending.clean code f = e at hends
  cases hends with
  | stop _ => cases he
  | @display t out _ hsample hturn hdisplay =>
      refine ⟨t, out, hsample, ?_⟩
      cases hdisplay with
      | narrow hcols =>
          cases he
          exact ⟨systemClean_cleaned rfl rfl (.refl _) (.refl _)
            (if_neg fun hboth => absurd hboth.2 (not_le.mpr hcols)).symm, Or.inl ⟨rfl, hcols⟩⟩
      | quit hcols hkey =>
          cases he
          exact ⟨systemClean_cleaned rfl rfl (.refl _) (.refl _) (if_pos ⟨hturn, hcols⟩).symm,
            Or.inr (Or.inl ⟨rfl, hkey⟩)⟩
  | @terminate t out s₁ d sig hsample hdraw hsig =>
      unfold terminate at he
      split at he
      · cases he
        have hcpu : s₁.cpuFd = t.cpuFd := by rw [showStage_frame hdraw.shown]; rfl
        have hdb : s₁.db = t.db := hdraw.db
        obtain ⟨hps, hss⟩ := purgeStage_sublist s₁.cycle inp.cycle s₁.db
        rw [congrArg Database.processInfo hdb] at hps
        rw [congrArg Database.sysInfo hdb] at hss
        exact ⟨t, out, hsample, systemClean_cleaned hcpu hdraw.tree hps hss hdraw.energies,
          Or.inr (Or.inr hsig)⟩
      · cases he
  | killed _ => cases he
  | asleep _ _ _ => cases he

/-- **The way out of a session**, by a key, a narrow screen, SIGINT or SIGTERM: every counter
is closed once, the tables keep rows of the last second only, and no energy is lost. -/
theorem session_exit {conf : Conf} {interval code : Int} {cpuFd : List PCFile}
    {init clean : Int × Int} {db : Database} {energies : EnergyTables} {cs : List Pass}
    {s f : ProgramState} {inp : PassInput}
    (h : ProgramRun conf interval (programStart interval cpuFd init clean db energies) cs s)
    (hend : pass conf interval inp s = .error (.clean code f)) (hperf : PerfOk cpuFd f.fdLog) :
    (live (handles f.fdLog) = [] ∧ ClosesLive (handles f.fdLog)) ∧
      ((∀ p ∈ f.db.processInfo, inp.cleanTime.1 ≤ p.time) ∧
        ∀ r ∈ f.db.sysInfo, inp.cleanTime.2 ≤ r.time) ∧
      (s.energies.deviceEnergy <+: f.energies.deviceEnergy ∧
        s.energies.processEnergy <+: f.energies.processEnergy) ∧
      CleanReason inp code := by
  obtain ⟨t, out, hsample, hclean, hreason⟩ := pass_cleaned hend
  have happends := afterDisplay_appends interval out.amount inp (sampledState interval inp s t)
  rw [← hclean.energies] at happends
  refine ⟨?_, hclean.notOlder, happends, hreason⟩
  -- the pass that is cut short, as a cycle of a run on empty tables
  have hrun := (session_cycles h).step (mainLoop_calm hsample)
  obtain ⟨ds, u, hfresh, -, -, hsame⟩ := exists_fresh_run hrun
  have htree : u.toTreeState = t.toTreeState := by
    have hrest := hsame.rest
    rw [PtopState.mk.injEq] at hrest
    exact hrest.2.1.symm
  have hcpu : u.cpuFd = t.cpuFd := by
    have hrest := hsame.rest
    rw [PtopState.mk.injEq] at hrest
    exact (congrArg SysState.cpuFd hrest.1).symm
  have hlog : f.fdLog = u.fdLog ++ (closeAllCounters u.cpuFd u.tree).2 := by
    have hlog := hclean.fdLog
    change f.fdLog = t.fdLog ++ (closeAllCounters t.cpuFd t.tree).2 at hlog
    rw [hlog, hcpu, htree]
  rw [hlog] at hperf ⊢
  have ha := Moment.accounts (.between hfresh) hperf.of_append
  obtain ⟨hs, hmap, hperm⟩ := closeAllCounters_closes u.cpuFd u.tree
  have hall : Accounts [] (handles u.fdLog ++ hs.map .closed) := by
    apply Accounts.closeAll
    rw [List.append_nil]
    exact ha.of_perm hperm
  rw [handles_append, hmap]
  exact ⟨List.perm_nil.mp hall.perm.symm, hall.closes⟩

/-- The code and the log of a session that leaves through `cleanstop`. -/
def cleanLog {α : Type} : Except Ending α → Option (Int × List FdEvent)
  | .error (.clean code f) => some (code, f.fdLog)
  | _ => none

theorem eq_clean_of_cleanLog {α : Type} {x : Except Ending α} {code : Int} {log : List FdEvent}
    (h : cleanLog x = some (code, log)) : ∃ f, x = .error (.clean code f) ∧ f.fdLog = log := by
  unfold cleanLog at h
  split at h
  · cases h
    exact ⟨_, rfl, rfl⟩
  · cases h

/-- Two seconds with a counter for the visitor, which is still open when the user leaves. -/
def counted : List PassInput :=
  let files := fun p =>
    { plainFiles { utime := 30 } {} with perfOpen := if p = visitor then 7 else -1 }
  [plainPass 100 100 [resident, visitor] files, plainPass 101 200 [resident] files]

def leaving : PassInput :=
  { plainPass 102 300 [resident] fun _ => plainFiles { utime := 60 } {} with
    term := { lastchar := some MQUIT } }

theorem session_exit_leaving :
    ∃ cs s f, ProgramRun {} 1 (programStart 1 [5] (99, 99) (99, 99) {} {}) cs s ∧
      cs.map Transition.input = counted ∧ pass {} 1 leaving s = .error (.clean 0 f) ∧
      f.fdLog = [.opened 5, .opened 7, .closed 7, .closed 5] ∧ live (handles f.fdLog) = [] := by
  obtain ⟨cs, s, hrun, hinput, c, hc, hlog⟩ := exists_run_of_trace (pass {} 1)
    (programStart 1 [5] (99, 99) (99, 99) {} {}) counted
    (fun cs => ∃ c ∈ cs.getLast?, cleanLog (pass {} 1 leaving c.post) =
      some (0, [.opened 5, .opened 7, .closed 7, .closed 5])) (by decide +kernel)
  obtain ⟨before, rfl⟩ := List.getLast?_eq_some_iff.mp hc
  obtain ⟨-, -, rfl⟩ := hrun.snoc_inv
  obtain ⟨f, hend, hf⟩ := eq_clean_of_cleanLog hlog
  have hperf : PerfOk [5] f.fdLog := by
    rw [hf]
    exact ⟨by decide, by simp, by decide⟩
  exact ⟨_, c.post, f, hrun, hinput, hend, hf, (session_exit hrun hend hperf).1.1⟩

/-! ## The pass that ends a session -/

/-- The same pass, had nothing ended it: no narrow screen, no key, and a signal that only
makes `pause` return. -/
def PassInput.carriedOn (inp : PassInput) : PassInput :=
  { inp with
    term := { inp.term with
      isatty := inp.term.isatty && decide (LEAST_COLUMS ≤ inp.term.COLS)
      lastchar := none }
    signal := some .caught }

section CarriedOn

variable {conf : Conf} {inp : PassInput} {s : ProgramState}

theorem drawStage_carriedOn (interval amount : Int) (inp : PassInput) (s : ProgramState) :
    ∃ s' d, drawStage interval inp.carriedOn amount s = .ok (s', d) := by
  cases h : drawStage interval inp.carriedOn amount s with
  | ok r => exact ⟨r.1, r.2, rfl⟩
  | error e =>
      obtain ⟨⟨-, -, htty⟩, hdisplay⟩ := drawStage_error h
      have hwide := of_decide_eq_true (Bool.and_eq_true_iff.mp htty).2
      cases hdisplay with
      | narrow hcols => exact absurd hwide (not_le.mpr hcols)
      | quit _ hkey => cases hkey

theorem afterDisplay_carriedOn (interval amount : Int) (inp : PassInput) (s : ProgramState) :
    afterDisplay interval amount inp.carriedOn s = afterDisplay interval amount inp s := by
  have hcond : ((s.screen = true ∧ s.cycle % 3 = 0 ∧ inp.carriedOn.term.isatty = true) ∧
      LEAST_COLUMS ≤ inp.carriedOn.term.COLS) ↔
      (s.screen = true ∧ s.cycle % 3 = 0 ∧ inp.term.isatty = true) ∧
        LEAST_COLUMS ≤ inp.term.COLS := by
    simp only [PassInput.carriedOn, Bool.and_eq_true, decide_eq_true_eq]
    tauto
  simp only [afterDisplay, hcond]
  rfl

/-- The pass goes on, and leaves the same energies. -/
theorem pass_carriedOn (interval : Int) {t : PtopState} {out : CycleOutput}
    (h : samplePass conf inp.cycle s.toPtopState = .ok (t, out)) :
    ∃ s' o, Steps (pass conf interval) inp.carriedOn s s' o ∧
      s'.energies = afterDisplay interval out.amount inp (sampledState interval inp s t) := by
  have hsample : samplePass conf inp.carriedOn.cycle s.toPtopState = .ok (t, out) := h
  obtain ⟨s₁, d, hdraw⟩ :=
    drawStage_carriedOn interval out.amount inp (sampledState interval inp s t)
  have hpass : pass conf interval inp.carriedOn s =
      .ok (drawnState interval inp.carriedOn s₁, { cycle := out, display := d }) := by
    unfold pass
    rw [hsample]
    show (drawStage interval inp.carriedOn out.amount (sampledState interval inp s t) >>= _) = _
    rw [hdraw]
    rfl
  refine ⟨_, _, hpass, ?_⟩
  rw [← afterDisplay_carriedOn]
  exact (drawStage_ok hdraw).energies

end CarriedOn

/-- The passes of a session and its energy tables, between two passes or when it has ended.
The pass that ends it counts as it would have gone on. -/
inductive SessionRun (conf : Conf) (interval : Int) (s₀ : ProgramState) :
    List Pass → EnergyTables → Prop where
  | running {cs : List Pass} {s : ProgramState} (h : ProgramRun conf interval s₀ cs s) :
      SessionRun conf interval s₀ cs s.energies
  | ended {cs : List Pass} {s s' f : ProgramState} {inp : PassInput} {code : Int} {out : PassOutput}
      (h : ProgramRun conf interval s₀ cs s)
      (hend : pass conf interval inp s = .error (.clean code f))
      (hon : Steps (pass conf interval) inp.carriedOn s s' out) :
      SessionRun conf interval s₀ (cs ++ [⟨s, inp.carriedOn, s', out⟩]) f.energies

section SessionRun

variable {conf : Conf} {interval code : Int} {s₀ s f : ProgramState} {cs : List Pass}

/-- Every session that ends in `cleanstop` is one. -/
theorem SessionRun.of_clean {inp : PassInput} (h : ProgramRun conf interval s₀ cs s)
    (hend : pass conf interval inp s = .error (.clean code f)) :
    ∃ s' out, SessionRun conf interval s₀ (cs ++ [⟨s, inp.carriedOn, s', out⟩]) f.energies := by
  obtain ⟨t, out, hsample, -, -⟩ := pass_cleaned hend
  obtain ⟨s', o, hon, -⟩ := pass_carriedOn interval hsample
  exact ⟨s', o, .ended h hend hon⟩

/-- A session has the passes and the energies of a run. -/
theorem SessionRun.exists_run {e : EnergyTables} (h : SessionRun conf interval s₀ cs e) :
    ∃ s, ProgramRun conf interval s₀ cs s ∧ s.energies = e := by
  cases h with
  | running h => exact ⟨_, h, rfl⟩
  | ended h hend hon =>
      obtain ⟨t, out, hsample, hclean, -⟩ := pass_cleaned hend
      obtain ⟨s', o, hpass, henergies⟩ := pass_carriedOn interval hsample
      cases hon.symm.trans hpass
      exact ⟨_, h.step hpass, henergies.trans hclean.energies.symm⟩

/-- A session on given inputs with a decidable property, found by computing it. -/
theorem SessionRun.of_trace (conf : Conf) (interval : Int) (s₀ : ProgramState) (is : List PassInput)
    (last : PassInput) (P : List Pass → Prop) [DecidablePred P]
    (h : (match trace (pass conf interval) s₀ (is ++ [last.carriedOn]) with
      | .ok cs =>
          decide (P cs ∧ ∃ c ∈ cs.getLast?, (cleanLog (pass conf interval last c.pre)).isSome)
      | .error _ => false) = true) :
    ∃ cs e, SessionRun conf interval s₀ cs e ∧
      cs.map Transition.input = is ++ [last.carriedOn] ∧ P cs := by
  split at h
  case h_2 => cases h
  rename_i cs htrace
  obtain ⟨hinput, s, hrun⟩ := run_of_trace htrace
  obtain ⟨hP, c, hc, hclean⟩ := of_decide_eq_true h
  obtain ⟨before, rfl⟩ := List.getLast?_eq_some_iff.mp hc
  obtain ⟨hbefore, hstep, rfl⟩ := hrun.snoc_inv
  obtain ⟨⟨code, log⟩, hlog⟩ := Option.isSome_iff_exists.mp hclean
  obtain ⟨f, hend, -⟩ := eq_clean_of_cleanLog hlog
  have hlast : c.input = last.carriedOn := by
    rw [List.map_append, List.map_singleton] at hinput
    exact List.singleton_inj.mp (List.append_inj_right' hinput rfl)
  refine ⟨before ++ [c], f.energies, ?_, hinput, hP⟩
  have hon : Steps (pass conf interval) last.carriedOn c.pre c.post c.output := hlast ▸ hstep
  have hsession := SessionRun.ended hbefore hend hon
  rwa [← hlast] at hsession

end SessionRun

end PTop
