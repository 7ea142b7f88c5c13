import PTop.Model.Eperf

/-!
# Accesses to the array of per-CPU descriptors

`init_perf` stores what `sysconf` returns in `nr_cpus`, and every loop over `fd` runs
up to that. The only test of the number is the one in `get_cpu_nr`, which
`system_init` calls with `~0`: no number fails it. So the accesses stay inside the
array where the stored number happens to lie between 1 and `MAX_NR_CPUS`. There the
functions do what their versions on lists do.
-/

namespace PTop.Eperf

open Framework

/-- The descriptors in use: the list that the other functions take. -/
def State.cpuFd (s : State) : List PCFile := firstCells s.nrCpus.toNat s.fd

/-- The loops stay inside the array. -/
def State.Fits (s : State) : Prop := s.nrCpus.toNat ≤ MAX_NR_CPUS

/-! ## Inside the array -/

/-- **`read_cpu_counter`**, against the version on lists. -/
theorem readCpuCounter_eq {s : State} (h : s.Fits) (answer : ℕ → Option u64) :
    readCpuCounter answer s = .ok (PTop.readCpuCounter s.cpuFd answer) := by
  have hrun : ∃ result, readCpuCounter answer s = .ok result ∧
      result = PTop.readCpuCounter s.cpuFd answer := by
    refine forLoop_ok (fun n result => result = PTop.readCpuCounter (firstCells n s.fd) answer)
      rfl ?_
    rintro cpu hcpu result rfl
    have hlt : cpu < MAX_NR_CPUS := lt_of_lt_of_le hcpu h
    rw [checkedGet_natCast hlt]
    refine ⟨_, rfl, ?_⟩
    rw [PTop.readCpuCounter, PTop.readCpuCounter, firstCells_succ s.fd hlt, List.zipIdx_append,
      List.map_append, List.sum_append, length_firstCells s.fd hlt.le]
    simp
  obtain ⟨result, hrun, rfl⟩ := hrun
  exact hrun

theorem closeCounter_eq {counter : ℕ} (h : counter < MAX_NR_CPUS)
    (st : Vector PCFile MAX_NR_CPUS × List FdEvent) :
    closeCounter counter st = .ok
      (if st.1.get ⟨counter, h⟩ ≤ 0 then st
        else (st.1.set counter (-1) h, st.2 ++ [.closed (st.1.get ⟨counter, h⟩)])) := by
  unfold closeCounter
  rw [checkedGet_natCast h, checkedSet_natCast h]
  dsimp only [bind, Except.bind]
  split <;> rfl

/-- What the loop of `close_all_counters` has done to the descriptors before a CPU. -/
def Closed (s : State) (counter : ℕ) (st : Vector PCFile MAX_NR_CPUS × List FdEvent) : Prop :=
  Swept (fun _ d => if d ≤ 0 then d else -1) s.fd counter st.1 ∧
    st.2 = (firstCells counter s.fd).flatMap fun d => if d ≤ 0 then [] else [.closed d]

theorem closeCounter_step {s : State} {counter : ℕ} (h : counter < MAX_NR_CPUS)
    {st : Vector PCFile MAX_NR_CPUS × List FdEvent} (hst : Closed s counter st) :
    ∃ st', closeCounter counter st = .ok st' ∧ Closed s (counter + 1) st' := by
  obtain ⟨hswept, hlog⟩ := hst
  refine ⟨_, closeCounter_eq h st, ?_⟩
  unfold Closed
  rw [firstCells_succ s.fd h, List.flatMap_append, List.flatMap_singleton, ← hlog,
    hswept.current h]
  by_cases hd : s.fd.get ⟨counter, h⟩ ≤ 0
  · rw [if_pos hd, if_pos hd, List.append_nil]
    exact ⟨hswept.skip h (if_pos hd).symm, rfl⟩
  · rw [if_neg hd, if_neg hd]
    exact ⟨hswept.set h (if_neg hd).symm, rfl⟩

/-- **`close_all_counters`**, against the version on lists. -/
theorem closeAllCounters_eq {s : State} (h : s.Fits) (tree : AvlTree) :
    ∃ s', closeAllCounters tree s =
        .ok (s', (AvlTree.empty tree).1, (PTop.closeAllCounters s.cpuFd tree).2) ∧
      s'.nrCpus = s.nrCpus ∧ s'.cpuFd = (PTop.closeAllCounters s.cpuFd tree).1 := by
  have hloop : ∃ st, forLoop closeCounter s.nrCpus.toNat (s.fd, []) = .ok st ∧
      Closed s s.nrCpus.toNat st :=
    forLoop_ok (Closed s) ⟨swept_zero _ s.fd, rfl⟩
      fun counter hcounter st hst => closeCounter_step (lt_of_lt_of_le hcounter h) hst
  obtain ⟨⟨fd, log⟩, hrun, hswept, hlog⟩ := hloop
  refine ⟨{ s with fd := fd }, ?_, rfl, hswept.firstCells_map h⟩
  unfold closeAllCounters
  rw [hrun, PTop.closeAllCounters, State.cpuFd, ← hlog]
  rfl

/-- **`create_perf_stat_counter`** for the whole system: each CPU gets its descriptor. -/
theorem createPerfStatCounter_eq {s : State} (hpos : 1 ≤ s.nrCpus.toNat) (h : s.Fits)
    (sysPerfEventOpen : Int → Int → PCFile) (pid : Int) :
    ∃ d s', createPerfStatCounter sysPerfEventOpen pid true s = .ok (d, s') ∧
      s'.nrCpus = s.nrCpus ∧
      s'.cpuFd = (List.range s.nrCpus.toNat).map fun cpu : ℕ => sysPerfEventOpen (-1) cpu := by
  have hloop : ∃ fd, forLoop (openCounter sysPerfEventOpen) s.nrCpus.toNat s.fd = .ok fd ∧
      Swept (fun (cpu : ℕ) _ => sysPerfEventOpen (-1) cpu) s.fd s.nrCpus.toNat fd :=
    forLoop_ok (Swept (fun (cpu : ℕ) _ => sysPerfEventOpen (-1) cpu) s.fd) (swept_zero _ s.fd)
      fun cpu hcpu fd hfd => ⟨_, checkedSet_natCast (lt_of_lt_of_le hcpu h) _,
        hfd.set (lt_of_lt_of_le hcpu h) rfl⟩
  obtain ⟨fd, hrun, hswept⟩ := hloop
  -- at least one CPU, so that `cpu - 1` does not wrap
  have hlast : (s.nrCpus - 1).toNat < MAX_NR_CPUS := by
    have hsub : (s.nrCpus - 1).toNat = s.nrCpus.toNat - 1 := by bv_omega
    have hle : s.nrCpus.toNat ≤ MAX_NR_CPUS := h
    omega
  refine ⟨fd.get ⟨_, hlast⟩, { s with fd := fd }, ?_, rfl, hswept.firstCells_range h⟩
  unfold createPerfStatCounter
  rw [if_pos rfl, hrun]
  dsimp only [bind, Except.bind]
  rw [checkedGet_natCast hlast]
  rfl

/-! ## What is stored in `nr_cpus` -/

/-- The processors that `init_perf` believes in. -/
def stored (nproc : Int) : ℕ := (BitVec.ofInt 32 nproc).toNat

theorem stored_eq (nproc : Int) : (stored nproc : Int) = nproc % 2 ^ 32 := by
  rw [stored, BitVec.toNat_ofInt]
  omega

/-- **No number fails the test** that `system_init` makes. -/
theorem getCpuNr_max (nproc : Int) : getCpuNr nproc (~~~0) = .ok (BitVec.ofInt 32 nproc).toInt := by
  have hle : BitVec.ofInt 32 nproc ≤ ~~~0#32 := by
    rw [BitVec.le_def]
    have := (BitVec.ofInt 32 nproc).isLt
    simp
    omega
  exact if_neg (BitVec.not_lt.mpr hle)

/-- **`init_perf`** with a number the array has room for. -/
theorem initPerf_fits (sysPerfEventOpen : Int → Int → PCFile) {nproc : Int}
    (hpos : 1 ≤ stored nproc) (hle : stored nproc ≤ MAX_NR_CPUS) (s : State) :
    ∃ s', initPerf sysPerfEventOpen nproc s = .ok s' ∧ s'.Fits ∧
      s'.cpuFd = (List.range (stored nproc)).map fun cpu : ℕ => sysPerfEventOpen (-1) cpu := by
  obtain ⟨d, s', hcreate, hnr, hfd⟩ := createPerfStatCounter_eq
    (s := { s with nrCpus := BitVec.ofInt 32 nproc }) hpos hle sysPerfEventOpen 1
  refine ⟨s', ?_, ?_, hfd⟩
  · unfold initPerf
    dsimp only
    rw [hcreate]
    rfl
  · unfold State.Fits
    rw [hnr]
    exact hle

/-- With no CPU, `cpu - 1` wraps. -/
theorem initPerf_none (sysPerfEventOpen : Int → Int → PCFile) {nproc : Int} (h : stored nproc = 0)
    (s : State) : initPerf sysPerfEventOpen nproc s = .error (.outside (2 ^ 32 - 1)) := by
  have hzero : BitVec.ofInt 32 nproc = 0#32 := BitVec.eq_of_toNat_eq h
  unfold initPerf createPerfStatCounter
  rw [hzero]
  rfl

/-- With too many CPUs, the loop writes behind the array. -/
theorem initPerf_many (sysPerfEventOpen : Int → Int → PCFile) {nproc : Int}
    (h : MAX_NR_CPUS < stored nproc) (s : State) :
    initPerf sysPerfEventOpen nproc s = .error (.outside MAX_NR_CPUS) := by
  have hrun : ∃ fd, forLoop (openCounter sysPerfEventOpen) MAX_NR_CPUS s.fd = .ok fd ∧ True :=
    forLoop_ok (fun _ _ => True) trivial
      fun cpu hcpu fd _ => ⟨_, checkedSet_natCast hcpu _, trivial⟩
  obtain ⟨fd, hrun, -⟩ := hrun
  have hstop := forLoop_error hrun (checkedSet_outside fd (le_refl MAX_NR_CPUS) _) h
  unfold initPerf createPerfStatCounter
  dsimp only
  rw [if_pos rfl]
  unfold stored at hstop
  rw [hstop]
  rfl

/-! ## Runs -/

/-- One call keeps the number, and stays inside the array. -/
theorem Call.run_fits {s : State} (h : s.Fits) (c : Call) :
    ∃ s', Call.run s c = .ok s' ∧ s'.Fits := by
  cases c with
  | readCpuCounter answer =>
      refine ⟨s, ?_, h⟩
      rw [Call.run, readCpuCounter_eq h]
      rfl
  | createPerfStatCounter sysPerfEventOpen pid => exact ⟨s, rfl, h⟩
  | closeAllCounters tree =>
      obtain ⟨s', hclose, hnr, -⟩ := closeAllCounters_eq h tree
      refine ⟨s', ?_, ?_⟩
      · rw [Call.run, hclose]
        rfl
      · unfold State.Fits
        rw [hnr]
        exact h

theorem calls_fit {s : State} (h : s.Fits) (calls : List Call) :
    ∃ s', calls.foldlM Call.run s = .ok s' ∧ s'.Fits := by
  induction calls generalizing s with
  | nil => exact ⟨s, rfl, h⟩
  | cons c calls ih =>
      obtain ⟨s₁, hc, h₁⟩ := Call.run_fits h c
      obtain ⟨s₂, hcalls, h₂⟩ := ih h₁
      refine ⟨s₂, ?_, h₂⟩
      rw [List.foldlM_cons, hc]
      exact hcalls

theorem run_eq (sysPerfEventOpen : Int → Int → PCFile) (nproc nproc' : Int) (calls : List Call) :
    run sysPerfEventOpen nproc nproc' calls =
      (initPerf sysPerfEventOpen nproc' {}).bind (List.foldlM Call.run · calls) := by
  unfold run systemInit
  rw [getCpuNr_max]
  rfl

/-- **Which numbers of processors are safe**: those that are stored as 1 to
`MAX_NR_CPUS`. With any other, every run leaves the array. -/
theorem run_inside_iff (sysPerfEventOpen : Int → Int → PCFile) (nproc nproc' : Int)
    (calls : List Call) :
    (∀ i, run sysPerfEventOpen nproc nproc' calls ≠ .error (.outside i)) ↔
      1 ≤ nproc' % 2 ^ 32 ∧ nproc' % 2 ^ 32 ≤ MAX_NR_CPUS := by
  have hstored := stored_eq nproc'
  rw [run_eq, ← hstored]
  constructor
  · intro hin
    by_contra hbad
    have hcase : stored nproc' = 0 ∨ MAX_NR_CPUS < stored nproc' := by omega
    rcases hcase with hnone | hmany
    · exact hin _ (by rw [initPerf_none sysPerfEventOpen hnone]; rfl)
    · exact hin _ (by rw [initPerf_many sysPerfEventOpen hmany]; rfl)
  · rintro ⟨hpos, hle⟩ i hi
    have hpos' : 1 ≤ stored nproc' := by omega
    have hle' : stored nproc' ≤ MAX_NR_CPUS := by omega
    obtain ⟨s, hs, hfits, -⟩ := initPerf_fits sysPerfEventOpen hpos' hle' {}
    obtain ⟨s', hrun, -⟩ := calls_fit hfits calls
    rw [hs] at hi
    exact absurd (hrun.symm.trans hi) (by simp)

/-- A machine with 64 processors, and the error value of `sysconf`. -/
theorem run_outside : run (fun _ _ => 3) 64 64 [] = .error (.outside MAX_NR_CPUS) ∧
    run (fun _ _ => 3) (-1) (-1) [] = .error (.outside MAX_NR_CPUS) := by
  constructor
  · rw [run_eq, initPerf_many _ (by decide)]
    rfl
  · rw [run_eq, initPerf_many _ (by decide)]
    rfl

end PTop.Eperf
