import PTop.Metatheory.Runs

/-!
# What can happen while a listing is read

A process can exit between any two of the opens that sample it. All but one of
the readers then give up on the process; `read_smaps` gives up on the program.
The activity test decides on the way whether a counter is opened, and answers
with three values where the caller tests for zero.
-/

namespace PTop

open Framework AvlTree

/-! ## A process that exits while it is read -/

/-- A sample into which every file of the process was read. -/
structure CompleteSample (conf : Conf) (pid : Pid) (f : ProcFiles) (st : PidStats) : Prop where
  readable : Readable f
  memory : f.smaps.isSome ∧ f.meminfo.isSome
  stored : ∃ fd, st = { (readFiles conf pid.val f).2 with mem := memoryOf f fd }

/-- The listing is read to its end, and every listed process has in its current
slot either no pid or a complete sample. -/
def ListingSurvives (conf : Conf) (inp : CycleInput) (s : PtopState) : Prop :=
  ∃ pids st, inp.proc = some pids ∧
    readListing conf inp.files s.curr pids s.toTreeState = .ok st ∧
    ∀ p ∈ pids, ∃ e, entries st.tree p.toElement = some e ∧
      ((e.pstList s.curr).pid = 0 ∨ CompleteSample conf p (inp.files p) (e.pstList s.curr))

/-- A read that goes on stores an empty sample or a complete one. -/
theorem storedSample_empty_or_complete (conf : Conf) (pid : Pid) {f : ProcFiles} (h : Answers f)
    (fd : PCFile) : (storedSample conf pid f fd).pid = 0 ∨
      CompleteSample conf pid f (storedSample conf pid f fd) := by
  by_cases hread : Readable f
  · right
    refine ⟨hread, h hread, fdAfter f fd, ?_⟩
    rw [storedSample, if_pos hread]
  · left
    rw [storedSample, if_neg hread]

/-- A listing of answering processes is all that survives. -/
theorem ListingSurvives.answers {conf : Conf} {inp : CycleInput} {s : PtopState} {pids : List Pid}
    (hs : StateOk s) (h : ListingSurvives conf inp s) (hproc : inp.proc = some pids) :
    ∀ p ∈ pids, Answers (inp.files p) := by
  obtain ⟨pids', st, hproc', hst, -⟩ := h
  cases hproc.symm.trans hproc'
  exact (readListing_inv hs.tree hst).1

/-- **A listing survives iff no process vanishes between its `io` and its
`smaps` file.** At every other point an exit only empties the slot. -/
theorem listing_survives_iff {conf : Conf} {cpuFd : List PCFile} {cs : List PtopCycle}
    {s : PtopState} (h : PtopRun conf cpuFd cs s) {inp : CycleInput} {pids : List Pid}
    (hproc : inp.proc = some pids) :
    ListingSurvives conf inp s ↔ ∀ p ∈ pids, Answers (inp.files p) := by
  constructor
  · intro hsurvives
    exact hsurvives.answers (run_stateOk h) hproc
  · intro hans
    have hlist := readListing_sampled conf inp.files s.curr pids (run_stateOk h).tree
    rw [if_pos hans] at hlist
    obtain ⟨st, hst, -, hentries⟩ := hlist
    refine ⟨pids, st, hproc, hst, ?_⟩
    intro p hp
    refine ⟨_, by rw [hentries, sampledMap_listed _ hp], ?_⟩
    rw [sampledEntry_curr]
    exact storedSample_empty_or_complete conf p (hans p hp) _

/-- A process that exits after its `io` file was opened. -/
def exitingFiles : ProcFiles := { plainFiles {} {} with smaps := none }

/-- The resident process goes on, the visitor exits while it is read. -/
def exitingCycle : CycleInput :=
  plainCycle 100 [visitor, resident] fun p => if p = visitor then exitingFiles else plainFiles {} {}

theorem listing_survives_iff_exiting :
    ∃ cs s, PtopRun {} [] cs s ∧ cs.length = 1 ∧
      (ListingSurvives {} exitingCycle s ↔
        ∀ p ∈ [visitor, resident], Answers (exitingCycle.files p)) := by
  obtain ⟨cs, s, hrun, -, hlen⟩ := exists_run_of_trace (mainLoop {}) (systemInit [])
    [plainCycle 50 [visitor, resident] fun _ => plainFiles {} {}] (fun cs => cs.length = 1)
    (by decide +kernel)
  exact ⟨cs, s, hrun, hlen, listing_survives_iff hrun rfl⟩

/-- One process exits, and the program ends. -/
theorem exit_ends_program :
    ∃ cs s, PtopRun {} [] cs s ∧ mainLoop {} exitingCycle s = .error (.exit 2) ∧
      ¬ ListingSurvives {} exitingCycle s := by
  have hstop : mainLoop {} exitingCycle (systemInit []) = .error (.exit 2) := rfl
  refine ⟨[], systemInit [], .init, hstop, ?_⟩
  intro hsurvives
  have hans := hsurvives.answers (stateOk_init []) rfl
  exact absurd (hans visitor List.mem_cons_self) (by decide)

/-! ## Opening counters -/

/-- One iteration of the listing loop in a cycle from `s`: the processes listed
before `pid` have been read, and `pid` is read next. -/
structure Reading (conf : Conf) (inp : CycleInput) (s : PtopState) (pid : Pid)
    (st st' : TreeState) : Prop where
  before : ∃ before after, inp.proc = some (before ++ pid :: after) ∧
    readListing conf inp.files s.curr before s.toTreeState = .ok st
  read : readProcess conf inp.files s.curr pid st = .ok st'

/-- What is kept about a process. -/
def keptEntry (st : TreeState) (pid : Pid) : PidEntry :=
  (entries st.tree pid.toElement).getD freshEntry

/-- The iteration opens a counter. -/
def OpensCounter (st st' : TreeState) : Prop := ∃ fd, st'.fdLog = st.fdLog ++ [.opened fd]

/-- A counter is opened only if the sample just stored is active. -/
def OpensOnlyActive (s : PtopState) (pid : Pid) (st st' : TreeState) : Prop :=
  OpensCounter st st' →
    0 < isActive ((keptEntry st' pid).pstList (!s.curr)) ((keptEntry st' pid).pstList s.curr)

section Reading

variable {conf : Conf} {cpuFd : List PCFile} {cs : List PtopCycle} {inp : CycleInput}
  {s : PtopState} {pid : Pid} {st st' : TreeState}

/-- The listing loop keeps the tree well formed at every iteration. -/
theorem Reading.treeOk (h : Reading conf inp s pid st st') (hs : StateOk s) :
    TreeOk st.tree st.brk := by
  obtain ⟨before, -, -, hread⟩ := h.before
  exact (readListing_inv hs.tree hread).2.1

/-- **What an iteration does.** -/
theorem Reading.inv (h : Reading conf inp s pid st st') (hs : StateOk s) :
    keptEntry st' pid = sampledEntry conf pid (inp.files pid) s.curr (keptEntry st pid) ∧
      st'.fdLog = st.fdLog ++ openings (inp.files pid) (keptEntry st pid).fd := by
  obtain ⟨-, hentries, hlog⟩ := readProcess_inv (h.treeOk hs) h.read
  refine ⟨?_, hlog⟩
  rw [keptEntry, hentries, Function.update_self, Option.getD_some]
  rfl

theorem Reading.opensCounter_iff (h : Reading conf inp s pid st st') (hs : StateOk s) :
    OpensCounter st st' ↔
      Readable (inp.files pid) ∧ (keptEntry st pid).fd ≤ 0 ∧ 0 ≤ (inp.files pid).perfOpen := by
  rw [OpensCounter, (h.inv hs).2, openings]
  constructor
  · rintro ⟨fd, hfd⟩
    by_contra hno
    rw [if_neg hno] at hfd
    simp at hfd
  · intro hopen
    rw [if_pos hopen]
    exact ⟨_, rfl⟩

/-- The samples tested, in the order of the source: the memory figures are read
after the test and do not take part in it. -/
theorem Reading.isActive_eq (h : Reading conf inp s pid st st') (hs : StateOk s)
    (hread : Readable (inp.files pid)) :
    isActive ((keptEntry st' pid).pstList (!s.curr)) ((keptEntry st' pid).pstList s.curr) =
      isActive ((keptEntry st pid).pstList (!s.curr)) (readFiles conf pid.val (inp.files pid)).2 := by
  rw [(h.inv hs).1, sampledEntry_prev, sampledEntry_curr, storedSample, if_pos hread]
  rfl

/-- **Counters are opened for active processes only iff** none is opened at all
for the ones that are not: `read_proc_pid_mem` takes the -1 of an idle process
for true. -/
theorem opens_only_active_iff (hrun : PtopRun conf cpuFd cs s)
    (h : Reading conf inp s pid st st') :
    OpensOnlyActive s pid st st' ↔
      0 < isActive ((keptEntry st pid).pstList (!s.curr))
          (readFiles conf pid.val (inp.files pid)).2 ∨
        0 < (keptEntry st pid).fd ∨ ¬ Readable (inp.files pid) ∨ (inp.files pid).perfOpen < 0 := by
  have hs := run_stateOk hrun
  rw [OpensOnlyActive, h.opensCounter_iff hs]
  by_cases hread : Readable (inp.files pid)
  · rw [h.isActive_eq hs hread]
    constructor
    · intro honly
      by_cases hfd : (keptEntry st pid).fd ≤ 0
      · by_cases hperf : 0 ≤ (inp.files pid).perfOpen
        · exact Or.inl (honly ⟨hread, hfd, hperf⟩)
        · exact Or.inr (Or.inr (Or.inr (not_le.mp hperf)))
      · exact Or.inr (Or.inl (not_le.mp hfd))
    · rintro hcond ⟨-, hfd, hperf⟩
      rcases hcond with hact | hfd' | hread' | hperf'
      · exact hact
      · exact absurd hfd (not_le.mpr hfd')
      · exact absurd hread hread'
      · exact absurd hperf (not_le.mpr hperf')
  · constructor
    · intro _
      exact Or.inr (Or.inr (Or.inl hread))
    · rintro - ⟨hread', -⟩
      exact absurd hread' hread

end Reading

/-- A process that does nothing after the first cycle; a counter can always be opened. -/
def idling : List CycleInput :=
  let files := fun _ => { plainFiles { utime := 30 } {} with perfOpen := 5 }
  [plainCycle 100 [resident] files, plainCycle 200 [resident] files,
    plainCycle 300 [resident] files]

/-- The first process of a cycle, as it is read. -/
def firstReading (c : PtopCycle) (pid : Pid) : Except Stop TreeState :=
  readProcess {} c.input.files c.pre.curr pid c.pre.toTreeState

theorem reading_first {c : PtopCycle} {pid : Pid} {after : List Pid} {st' : TreeState}
    (hproc : c.input.proc = some (pid :: after)) (h : firstReading c pid = .ok st') :
    Reading {} c.input c.pre pid c.pre.toTreeState st' :=
  ⟨⟨[], after, hproc, rfl⟩, h⟩

theorem opens_only_active_iff_idling :
    ∃ cs s c st', PtopRun {} [] cs s ∧ cs.map Transition.input = idling ∧ c ∈ cs ∧
      Reading {} c.input c.pre resident c.pre.toTreeState st' ∧
      (OpensOnlyActive c.pre resident c.pre.toTreeState st' ↔
        0 < isActive ((keptEntry c.pre.toTreeState resident).pstList (!c.pre.curr))
            (readFiles {} resident.val (c.input.files resident)).2 ∨
          0 < (keptEntry c.pre.toTreeState resident).fd ∨
          ¬ Readable (c.input.files resident) ∨ (c.input.files resident).perfOpen < 0) := by
  obtain ⟨cs, s, hrun, hinput, c, hc, hproc, hok⟩ := exists_run_of_trace (mainLoop {})
    (systemInit []) idling
    (fun cs => ∃ c ∈ cs, c.input.proc = some [resident] ∧
      (firstReading c resident).toBool = true) (by decide +kernel)
  obtain ⟨before, after, rfl⟩ := List.append_of_mem hc
  cases hread : firstReading c resident with
  | error e => simp [hread, Except.toBool] at hok
  | ok st' =>
      have hreading := reading_first hproc hread
      exact ⟨_, s, c, st', hrun, hinput, hc, hreading,
        opens_only_active_iff hrun.at_step.1 hreading⟩

/-- In the third cycle a counter is opened again for the idle process. -/
theorem idle_counter_opened :
    ∃ cs s c st', PtopRun {} [] cs s ∧ cs.map Transition.input = idling ∧ c ∈ cs ∧
      Reading {} c.input c.pre resident c.pre.toTreeState st' ∧
      ¬ OpensOnlyActive c.pre resident c.pre.toTreeState st' := by
  obtain ⟨cs, s, hrun, hinput, c, hc, hproc, hwrong⟩ := exists_run_of_trace (mainLoop {})
    (systemInit []) idling
    (fun cs => ∃ c ∈ cs, c.input.proc = some [resident] ∧
      (match firstReading c resident with
      | .ok st' => decide (st'.fdLog = c.pre.fdLog ++ [.opened 5] ∧
          isActive ((keptEntry st' resident).pstList (!c.pre.curr))
            ((keptEntry st' resident).pstList c.pre.curr) ≤ 0)
      | .error _ => false) = true) (by decide +kernel)
  cases hread : firstReading c resident with
  | error e => simp [hread] at hwrong
  | ok st' =>
      simp only [hread, decide_eq_true_eq] at hwrong
      refine ⟨cs, s, c, st', hrun, hinput, hc, reading_first hproc hread, ?_⟩
      intro honly
      exact absurd (honly ⟨5, hwrong.1⟩) (not_lt.mpr hwrong.2)

end PTop
