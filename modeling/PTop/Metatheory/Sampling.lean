import PTop.Metatheory.TreeMap

/-!
# What the listing loop stores

Reading a process fills one slot of its entry with a sample that depends on its
files alone, apart from the counter, which is read through the descriptor kept
in the entry. Reading twice stores the same, so the loop has a closed form as a
function on maps, whatever the order and the repetitions in the listing.
-/

namespace PTop

open Framework AvlTree

/-! ## One process -/

/-- The files of the sample all open: the read does not count as failed. -/
def Readable (f : ProcFiles) : Prop :=
  f.stat.isSome ∧ f.statAgain.isSome ∧ f.status.isSome ∧ f.io.isSome

instance (f : ProcFiles) : Decidable (Readable f) := inferInstanceAs (Decidable (_ ∧ _))

/-- The answers of the four files. -/
theorem Readable.exists_answers {f : ProcFiles} (h : Readable f) : ∃ s n t i,
    f.stat = some s ∧ f.statAgain = some n ∧ f.status = some t ∧ f.io = some i := by
  rcases h with ⟨h₁, h₂, h₃, h₄⟩
  obtain ⟨s, hs⟩ := Option.isSome_iff_exists.mp h₁
  obtain ⟨n, hn⟩ := Option.isSome_iff_exists.mp h₂
  obtain ⟨t, ht⟩ := Option.isSome_iff_exists.mp h₃
  obtain ⟨i, hi⟩ := Option.isSome_iff_exists.mp h₄
  exact ⟨s, n, t, i, hs, hn, ht, hi⟩

/-- The read does not end the program. -/
def Answers (f : ProcFiles) : Prop := Readable f → f.smaps.isSome ∧ f.meminfo.isSome

instance (f : ProcFiles) : Decidable (Answers f) := inferInstanceAs (Decidable (_ → _))

/-- Asking a listing process by process. -/
instance decidableAnswers (files : Pid → ProcFiles) (pids : List Pid) :
    Decidable (∀ p ∈ pids, Answers (files p)) := List.decidableBAll _ pids

/-- What the stat, status and io files leave in a cleared sample. -/
def readFiles (conf : Conf) (pid : u32) (f : ProcFiles) : Int × PidStats :=
  let (ret, pst) := readProcPidStat conf pid f {}
  if ret ≠ 0 then (1, pst)
  else
    let (ret, pst) := readProcPidStatus pid f pst
    if ret ≠ 0 then (1, pst) else readProcPidIo pid f pst

/-- The descriptor after a read that does not fail. -/
def fdAfter (f : ProcFiles) (fd : PCFile) : PCFile := if fd ≤ 0 then f.perfOpen else fd

/-- The memory part of a sample, the counter being read through `fd`. -/
def memoryOf (f : ProcFiles) (fd : PCFile) : Memory :=
  let smaps := f.smaps.getD {}
  { memoryUsed := (smaps.pss + smaps.privateClean + smaps.privateDirty).setWidth 64
    totalActive := (f.meminfo.getD 0).signExtend 64
    cpuAccesses := readCounter fd f.counter }

/-- The sample a read stores, given the descriptor before it. -/
def storedSample (conf : Conf) (pid : Pid) (f : ProcFiles) (fd : PCFile) : PidStats :=
  if Readable f then { (readFiles conf pid.val f).2 with mem := memoryOf f (fdAfter f fd) }
  else { (readFiles conf pid.val f).2 with pid := 0 }

/-- The entry a read leaves. -/
def sampledEntry (conf : Conf) (pid : Pid) (f : ProcFiles) (curr : Bool) (p : PidEntry) :
    PidEntry :=
  { p with fd := if Readable f then fdAfter f p.fd else p.fd }.setSlot curr
    (storedSample conf pid f p.fd)

/-- What a read does to counters: one is opened if the entry holds none. -/
def openings (f : ProcFiles) (fd : PCFile) : List FdEvent :=
  if Readable f ∧ fd ≤ 0 ∧ 0 ≤ f.perfOpen then [.opened f.perfOpen] else []

section OneProcess

variable {conf : Conf} {pid : Pid} {f : ProcFiles} {curr : Bool} {p : PidEntry}

variable (conf pid) in
theorem readFiles_of_readable (h : Readable f) :
    (readFiles conf pid.val f).1 = 0 ∧ (readFiles conf pid.val f).2.pid = pid.val := by
  obtain ⟨s, n, t, i, hs, hn, ht, hi⟩ := h.exists_answers
  cases n <;> simp [readFiles, readProcPidStat, readProcPidStatus, readProcPidIo, hs, hn, ht, hi]

variable (conf pid) in
theorem readFiles_of_not_readable (h : ¬ Readable f) : (readFiles conf pid.val f).1 = 1 := by
  unfold readFiles readProcPidStat readProcPidStatus readProcPidIo
  cases h₁ : f.stat with
  | none => rfl
  | some s =>
      cases h₂ : f.statAgain with
      | none => rfl
      | some n =>
          cases h₃ : f.status with
          | none => cases n <;> rfl
          | some t =>
              cases h₄ : f.io with
              | none => cases n <;> rfl
              | some i => exact absurd ⟨by simp [h₁], by simp [h₂], by simp [h₃], by simp [h₄]⟩ h

theorem readPidStats_eq : readPidStats conf pid.val f p curr =
    if (readFiles conf pid.val f).1 ≠ 0 then
      .ok (1, p.setSlot curr (readFiles conf pid.val f).2, [])
    else
      (readProcPidMem f (readFiles conf pid.val f).2 p.fd
        (isActive (p.pstList (!curr)) (readFiles conf pid.val f).2)).map fun r =>
          (0, { p with fd := r.2.1 }.setSlot curr r.1, r.2.2) := by
  unfold readPidStats readFiles
  obtain ⟨ret₁, pst₁⟩ := readProcPidStat conf pid.val f {}
  by_cases h₁ : ret₁ = 0
  · by_cases h₂ : (readProcPidStatus pid.val f pst₁).1 = 0
    · simp only [h₁, h₂, ne_eq, not_true_eq_false, if_false]
      split
      · rfl
      · cases readProcPidMem f _ p.fd _ <;> rfl
    · simp [h₁, h₂]
  · simp [h₁]

/-- A sample with a pid is never taken for one of a process that is gone. -/
theorem isActive_ne_zero {pstj psti : PidStats} (h : psti.pid ≠ 0) : isActive pstj psti ≠ 0 := by
  rw [isActive_eq, if_neg h]
  split <;> decide

variable (conf pid f curr p) in
/-- **Reading an entry.** -/
theorem readEntry_eq : readEntry conf pid.val f p curr =
    if Answers f then .ok (sampledEntry conf pid f curr p, openings f p.fd)
    else .error (.exit 2) := by
  by_cases h : Readable f
  · obtain ⟨hret, hpid⟩ := readFiles_of_readable conf pid h
    have hactive : isActive (p.pstList (!curr)) (readFiles conf pid.val f).2 ≠ 0 :=
      isActive_ne_zero (by rw [hpid]; exact pid.property)
    have hmem : readPidStats conf pid.val f p curr = _ := readPidStats_eq
    rw [if_neg (not_not.mpr hret)] at hmem
    rw [readEntry, hmem]
    cases hs : f.smaps with
    | none =>
        have hans : ¬ Answers f := fun ha => by simpa [hs] using (ha h).1
        simp [readProcPidMem, hs, hans, Except.map]
    | some smaps =>
        cases hm : f.meminfo with
        | none =>
            have hans : ¬ Answers f := fun ha => by simpa [hm] using (ha h).2
            simp [readProcPidMem, hs, hm, hans, Except.map]
        | some active =>
            have hans : Answers f := fun _ => by simp [hs, hm]
            rw [if_pos hans]
            by_cases hfd : p.fd ≤ 0
            · simp [readProcPidMem, hs, hm, hactive, hfd, createPerfStatCounter, Except.map,
                sampledEntry, storedSample, h, fdAfter, memoryOf, openings]
            · simp [readProcPidMem, hs, hm, hfd, Except.map,
                sampledEntry, storedSample, h, fdAfter, memoryOf, openings]
  · -- a process that cannot be read never gets to the files that end the program
    have hans : Answers f := fun hr => absurd hr h
    have hret := readFiles_of_not_readable conf pid h
    rw [if_pos hans, readEntry, readPidStats_eq, hret]
    simp [sampledEntry, storedSample, h, openings]

@[simp] theorem sampledEntry_curr :
    (sampledEntry conf pid f curr p).pstList curr = storedSample conf pid f p.fd := by
  simp [sampledEntry]

@[simp] theorem sampledEntry_prev :
    (sampledEntry conf pid f curr p).pstList (!curr) = p.pstList (!curr) := by
  simp [sampledEntry]

theorem storedSample_pid :
    (storedSample conf pid f p.fd).pid = if Readable f then pid.val else 0 := by
  unfold storedSample
  split
  · rename_i h
    exact (readFiles_of_readable conf pid h).2
  · rfl

/-- Reading a process twice in a cycle is reading it once. -/
theorem sampledEntry_idem : sampledEntry conf pid f curr (sampledEntry conf pid f curr p) =
    sampledEntry conf pid f curr p := by
  have hfd : fdAfter f (fdAfter f p.fd) = fdAfter f p.fd := by
    unfold fdAfter
    split_ifs <;> rfl
  unfold sampledEntry
  by_cases h : Readable f
  · simp [PidEntry.setSlot, storedSample, h, hfd]
  · simp [PidEntry.setSlot, storedSample, h]

end OneProcess

/-! ## The whole listing -/

/-- The map after a listing. -/
def sampledMap (conf : Conf) (files : Pid → ProcFiles) (curr : Bool) (pids : List Pid)
    (m : ProcMap) : ProcMap := fun X =>
  match pids.find? fun p => p.toElement = X with
  | some p => some (sampledEntry conf p (files p) curr ((m X).getD freshEntry))
  | none => m X

section Listing

variable {conf : Conf} {files : Pid → ProcFiles} {curr : Bool}

theorem sampledMap_listed {pids : List Pid} {p : Pid} (m : ProcMap) (h : p ∈ pids) :
    sampledMap conf files curr pids m p.toElement =
      some (sampledEntry conf p (files p) curr ((m p.toElement).getD freshEntry)) := by
  unfold sampledMap
  cases hf : pids.find? fun q => q.toElement = p.toElement with
  | none => exact absurd (List.find?_eq_none.mp hf p h) (by simp)
  | some q =>
      have hq : q.toElement = p.toElement := by simpa using List.find?_some hf
      rw [Pid.toElement_inj.mp hq]

theorem sampledMap_unlisted {pids : List Pid} {X : ElementType} (m : ProcMap)
    (h : ∀ p ∈ pids, p.toElement ≠ X) : sampledMap conf files curr pids m X = m X := by
  unfold sampledMap
  rw [List.find?_eq_none.mpr fun p hp => by simpa using h p hp]

theorem sampledMap_cons (pid : Pid) (pids : List Pid) (m : ProcMap) :
    sampledMap conf files curr pids (Function.update m pid.toElement
        (some (sampledEntry conf pid (files pid) curr ((m pid.toElement).getD freshEntry)))) =
      sampledMap conf files curr (pid :: pids) m := by
  funext X
  by_cases hX : pid.toElement = X
  · subst hX
    rw [sampledMap_listed m List.mem_cons_self]
    by_cases hp : pid ∈ pids
    · -- listed again: the second reading stores what the first one did
      rw [sampledMap_listed _ hp, Function.update_self, Option.getD_some, sampledEntry_idem]
    · have hne : ∀ q ∈ pids, q.toElement ≠ pid.toElement := by
        intro q hq he
        exact hp (Pid.toElement_inj.mp he ▸ hq)
      rw [sampledMap_unlisted _ hne, Function.update_self]
  · unfold sampledMap
    rw [List.find?_cons_of_neg (by simpa using hX), Function.update_of_ne (Ne.symm hX)]

theorem reference_readProcess_eq (pid : Pid) (m : ProcMap) :
    Reference.readProcess conf files curr pid m =
      if Answers (files pid) then
        .ok (Function.update m pid.toElement
          (some (sampledEntry conf pid (files pid) curr ((m pid.toElement).getD freshEntry))))
      else .error (.exit 2) := by
  rw [Reference.readProcess, readEntry_eq]
  by_cases ha : Answers (files pid)
  · rw [if_pos ha, if_pos ha]
  · rw [if_neg ha, if_neg ha]

/-- **The listing loop in closed form.** -/
theorem reference_readListing_eq : ∀ (pids : List Pid) (m : ProcMap),
    Reference.readListing conf files curr pids m =
      if ∀ p ∈ pids, Answers (files p) then .ok (sampledMap conf files curr pids m)
      else .error (.exit 2)
  | [], m => (if_pos fun _ h => absurd h List.not_mem_nil).symm
  | pid :: pids, m => by
      rw [Reference.readListing, reference_readProcess_eq]
      by_cases ha : Answers (files pid)
      · rw [if_pos ha]
        simp only [reference_readListing_eq pids, sampledMap_cons, List.forall_mem_cons, ha,
          true_and]
      · rw [if_neg ha, if_neg fun h => ha (h pid List.mem_cons_self)]

/-- The order of the listing does not matter. -/
theorem sampledMap_perm {pids pids' : List Pid} (h : pids.Perm pids') (m : ProcMap) :
    sampledMap conf files curr pids m = sampledMap conf files curr pids' m := by
  funext X
  by_cases hX : ∃ p ∈ pids, p.toElement = X
  · obtain ⟨p, hp, rfl⟩ := hX
    rw [sampledMap_listed m hp, sampledMap_listed m (h.mem_iff.mp hp)]
  · have hne : ∀ p ∈ pids, p.toElement ≠ X := by
      intro p hp he
      exact hX ⟨p, hp, he⟩
    rw [sampledMap_unlisted m hne, sampledMap_unlisted m fun p hp => hne p (h.mem_iff.mpr hp)]

variable (conf files curr) in
/-- **One listed pid, on the tree.** -/
theorem readProcess_sampled (pid : Pid) {st : TreeState} (h : TreeOk st.tree st.brk) :
    if Answers (files pid) then
      ∃ st', readProcess conf files curr pid st = .ok st' ∧ TreeOk st'.tree st'.brk ∧
        entries st'.tree = Function.update (entries st.tree) pid.toElement
          (some (sampledEntry conf pid (files pid) curr
            ((entries st.tree pid.toElement).getD freshEntry))) ∧
        st'.fdLog = st.fdLog ++
          openings (files pid) ((entries st.tree pid.toElement).getD freshEntry).fd
    else readProcess conf files curr pid st = .error (.exit 2) := by
  have hspec := readProcess_spec conf files curr pid h
  rw [readEntry_eq] at hspec
  by_cases ha : Answers (files pid)
  · rw [if_pos ha] at hspec ⊢
    exact hspec
  · rw [if_neg ha] at hspec ⊢
    exact hspec

/-- What one listed pid has done. -/
theorem readProcess_inv {pid : Pid} {st st' : TreeState} (h : TreeOk st.tree st.brk)
    (hread : readProcess conf files curr pid st = .ok st') :
    TreeOk st'.tree st'.brk ∧
      entries st'.tree = Function.update (entries st.tree) pid.toElement
        (some (sampledEntry conf pid (files pid) curr
          ((entries st.tree pid.toElement).getD freshEntry))) ∧
      st'.fdLog = st.fdLog ++
        openings (files pid) ((entries st.tree pid.toElement).getD freshEntry).fd := by
  have hspec := readProcess_sampled conf files curr pid h
  rw [hread] at hspec
  split at hspec
  · obtain ⟨st₁, hst₁, hinv⟩ := hspec
    cases hst₁
    exact hinv
  · cases hspec

variable (conf files curr) in
/-- **The listing loop, on the tree.** -/
theorem readListing_sampled (pids : List Pid) {st : TreeState}
    (h : TreeOk st.tree st.brk) :
    if ∀ p ∈ pids, Answers (files p) then
      ∃ st', readListing conf files curr pids st = .ok st' ∧ TreeOk st'.tree st'.brk ∧
        entries st'.tree = sampledMap conf files curr pids (entries st.tree)
    else readListing conf files curr pids st = .error (.exit 2) := by
  have hlist := readListing_refines conf files curr pids h
  rw [reference_readListing_eq] at hlist
  by_cases ha : ∀ p ∈ pids, Answers (files p)
  · rw [if_pos ha] at hlist ⊢
    exact hlist
  · rw [if_neg ha] at hlist ⊢
    exact hlist

/-- What the listing loop has done. -/
theorem readListing_inv {pids : List Pid} {st st' : TreeState} (h : TreeOk st.tree st.brk)
    (hread : readListing conf files curr pids st = .ok st') :
    (∀ p ∈ pids, Answers (files p)) ∧ TreeOk st'.tree st'.brk ∧
      entries st'.tree = sampledMap conf files curr pids (entries st.tree) := by
  have hspec := readListing_sampled conf files curr pids h
  rw [hread] at hspec
  split at hspec
  · rename_i hans
    obtain ⟨st₁, hst₁, hinv⟩ := hspec
    cases hst₁
    exact ⟨hans, hinv⟩
  · cases hspec

end Listing

end PTop
