import Mathlib.Algebra.BigOperators.Ring.Finset
import Mathlib.Algebra.BigOperators.Ring.List
import Mathlib.Tactic.FieldSimp
import PTop.Framework.Tables
import PTop.Metatheory.Runs

/-!
# The energy of the processes is within the energy of the machine

`CPUEnergy` joins the rows of a process with the rows of the machine on their
time and takes a share of its power; `systemEnergy` adds the power up. What
carries the bound through a run is that the shares joined to one row of the
machine are parts of its interval, whatever the purges have taken away.
-/

namespace PTop

open Framework

/-! ## The two queries over any tables -/

/-- The energy of a pair of joined rows. -/
def rowEnergy (row : ProcessInfoRow × SysInfoRow) : ℚ :=
  (row.1.cpu * row.2.cpupower * ((atoiU32 row.2.runtime : ℚ) / atoiU32 row.2.itv)) / 100

def sameTime (p : ProcessInfoRow) (s : SysInfoRow) : Bool := p.time = s.time

/-- The columns of a row of the machine are in the range in which `atoi` is exact. -/
structure SoundRow (s : SysInfoRow) : Prop where
  power : 0 ≤ s.cpupower
  itv_pos : 0 < s.itv
  itv_lt : s.itv < 2 ^ 31
  runtime_pos : 0 < s.runtime
  runtime_lt : s.runtime < 2 ^ 31

/-- The shares joined to a row of the machine are parts of its interval. -/
structure Covered (ps : List ProcessInfoRow) (s : SysInfoRow) : Prop extends SoundRow s where
  shares : ((ps.filter fun p => sameTime p s).map ProcessInfoRow.cpu).sum ≤
    100 * (s.itv : ℚ) / s.runtime

theorem filter_sameTime_eq_nil {ps : List ProcessInfoRow} {s : SysInfoRow}
    (h : ∀ p ∈ ps, p.time ≠ s.time) : ps.filter (fun p => sameTime p s) = [] := by
  rw [List.filter_eq_nil_iff]
  intro p hp hsame
  exact h p hp (of_decide_eq_true hsame)

theorem atoiU32_of_lt {v : Int} (h₀ : 0 < v) (h : v < 2 ^ 31) : (atoiU32 v : ℚ) = v := by
  have hv : (atoiU32 v : Int) = v := by
    rw [atoiU32, BitVec.toNat_ofInt]
    omega
  exact_mod_cast hv

theorem SoundRow.rowEnergy_eq {s : SysInfoRow} (h : SoundRow s) (p : ProcessInfoRow) :
    rowEnergy (p, s) = p.cpu * (s.cpupower * (s.runtime / s.itv) / 100) := by
  rw [rowEnergy, atoiU32_of_lt h.itv_pos h.itv_lt, atoiU32_of_lt h.runtime_pos h.runtime_lt]
  ring

theorem SoundRow.rate_nonneg {s : SysInfoRow} (h : SoundRow s) :
    0 ≤ s.cpupower * ((s.runtime : ℚ) / s.itv) / 100 := by
  have hr : (0 : ℚ) ≤ s.runtime := by exact_mod_cast h.runtime_pos.le
  have hi : (0 : ℚ) ≤ s.itv := by exact_mod_cast h.itv_pos.le
  exact div_nonneg (mul_nonneg h.power (div_nonneg hr hi)) (by norm_num)

/-- **The busy time cancels**: a row of the machine pays for all that is joined to it. -/
theorem Covered.energy_le {ps : List ProcessInfoRow} {s : SysInfoRow} (h : Covered ps s) :
    ((ps.filter fun p => sameTime p s).map fun p => rowEnergy (p, s)).sum ≤ s.cpupower := by
  have hr : (s.runtime : ℚ) ≠ 0 := by exact_mod_cast h.runtime_pos.ne'
  have hi : (s.itv : ℚ) ≠ 0 := by exact_mod_cast h.itv_pos.ne'
  simp only [h.toSoundRow.rowEnergy_eq, List.sum_map_mul_right]
  calc ((ps.filter fun p => sameTime p s).map ProcessInfoRow.cpu).sum *
        (s.cpupower * (s.runtime / s.itv) / 100)
      ≤ 100 * (s.itv : ℚ) / s.runtime * (s.cpupower * (s.runtime / s.itv) / 100) :=
        mul_le_mul_of_nonneg_right h.shares h.toSoundRow.rate_nonneg
    _ = s.cpupower := by field_simp

theorem CPUEnergy_eq (db : Database) (pid length now : Int) :
    CPUEnergy db pid length now =
      ((joinOn sameTime (db.selectProcess pid length now) db.sysInfo).map rowEnergy).sum := rfl

/-- The rows of a table in a window. -/
def processWindow (db : Database) (length now : Int) : List ProcessInfoRow :=
  db.processInfo.filter fun p => inWindow length now p.time

theorem selectProcess_eq (db : Database) (pid length now : Int) :
    db.selectProcess pid length now =
      (processWindow db length now).filter fun p => p.pid = pid := by
  rw [Database.selectProcess, processWindow, List.filter_filter]

/-- **The energies of any processes**, over tables whose shares are covered. -/
theorem sum_CPUEnergy_le {db : Database} (hcpu : ∀ p ∈ db.processInfo, 0 ≤ p.cpu)
    (hcovered : ∀ s ∈ db.sysInfo, Covered db.processInfo s) (pids : Finset Int)
    (length now : Int) :
    ∑ pid ∈ pids, CPUEnergy db pid length now ≤ (systemEnergy db length now).ecpu := by
  have hsub : (processWindow db length now).Sublist db.processInfo := List.filter_sublist
  have hpos : ∀ p ∈ db.processInfo, ∀ s ∈ db.sysInfo, 0 ≤ rowEnergy (p, s) := by
    intro p hp s hs
    rw [(hcovered s hs).toSoundRow.rowEnergy_eq]
    exact mul_nonneg (hcpu p hp) (hcovered s hs).toSoundRow.rate_nonneg
  have hgroups : ∑ pid ∈ pids, CPUEnergy db pid length now ≤
      ((joinOn sameTime (processWindow db length now) db.sysInfo).map rowEnergy).sum := by
    simp only [CPUEnergy_eq, selectProcess_eq, sum_joinOn]
    refine sum_groups_le ProcessInfoRow.pid pids fun p hp => List.sum_nonneg ?_
    intro e he
    obtain ⟨s, hs, rfl⟩ := List.mem_map.mp he
    exact hpos p (hsub.subset hp) s (List.mem_of_mem_filter hs)
  refine hgroups.trans ?_
  have hsystem : (systemEnergy db length now).ecpu =
      (db.sysInfo.map fun s => if inWindow length now s.time then s.cpupower else 0).sum :=
    sum_map_filter _ _ _
  rw [hsystem]
  apply sum_joinOn_le
  intro s hs
  by_cases hwin : inWindow length now s.time
  · rw [if_pos hwin]
    refine (sum_map_le_of_sublist (hsub.filter _) fun p hp => ?_).trans (hcovered s hs).energy_le
    exact hpos p (List.mem_of_mem_filter hp) s hs
  · -- what is joined has the time of the row, and so is not in the window either
    have hout : ∀ p ∈ processWindow db length now, p.time ≠ s.time := by
      intro p hp htime
      exact hwin (htime ▸ (List.mem_filter.mp hp).2)
    rw [filter_sameTime_eq_nil hout, if_neg hwin]
    exact le_rfl

/-! ## The tables of a run -/

/-- The cycle as the energy queries see it: the power is not negative, the interval and
the busy time are positive and fit an `int`, and the rows are percentages of the busy time
for the jiffies `ds`, which are part of the interval. -/
structure SharedAs (out : CycleOutput) (ds : List ℕ) : Prop where
  power : 0 ≤ out.sysRow.cpupower
  itv_pos : 0 < out.sysRow.itv.toNat
  itv_lt : out.sysRow.itv.toNat < 2 ^ 31
  runtime_pos : 0 < out.sysRow.runtime.toNat
  runtime_lt : out.sysRow.runtime.toNat < 2 ^ 31
  cpu : out.rows.map ProcessInfo.cpu =
    ds.map fun d : ℕ => XFloat.fin (100 * (d : ℚ) / out.sysRow.runtime.toNat)
  sum_le : ds.sum ≤ out.sysRow.itv.toNat

instance (out : CycleOutput) (ds : List ℕ) : Decidable (SharedAs out ds) :=
  decidable_of_iff (0 ≤ out.sysRow.cpupower ∧
      (0 < out.sysRow.itv.toNat ∧ out.sysRow.itv.toNat < 2 ^ 31) ∧
      (0 < out.sysRow.runtime.toNat ∧ out.sysRow.runtime.toNat < 2 ^ 31) ∧
      out.rows.map ProcessInfo.cpu =
        ds.map (fun d : ℕ => XFloat.fin (100 * (d : ℚ) / out.sysRow.runtime.toNat)) ∧
      ds.sum ≤ out.sysRow.itv.toNat)
    ⟨fun ⟨hp, hi, hr, hc, hd⟩ => ⟨hp, hi.1, hi.2, hr.1, hr.2, hc, hd⟩,
      fun h => ⟨h.power, ⟨h.itv_pos, h.itv_lt⟩, ⟨h.runtime_pos, h.runtime_lt⟩, h.cpu, h.sum_le⟩⟩

/-- What a cycle inserts about processes: the rows that hold numbers only. -/
def insertedRows (out : CycleOutput) : List ProcessInfoRow :=
  (out.rows.filter fun r => r.floats.all XFloat.isFinite).map ProcessInfo.toRow

theorem foldl_insertPs : ∀ (rows : List ProcessInfo) (db : Database),
    rows.foldl (fun db r => insertPs r db) db =
      { db with processInfo := db.processInfo ++
          (rows.filter fun r => r.floats.all XFloat.isFinite).map ProcessInfo.toRow }
  | [], db => by simp
  | r :: rows, db => by
      rw [List.foldl_cons, foldl_insertPs rows, insertPs, List.filter_cons]
      split
      · rw [List.map_cons, List.append_assoc, List.singleton_append]
      · rfl

section Cycle

variable {conf : Conf} {inp : CycleInput} {s s' : PtopState} {out : CycleOutput} {ds : List ℕ}

/-- **The tables after a cycle.** -/
theorem cycle_db (h : Steps (mainLoop conf) inp s s' out) :
    s'.db = purgeStage s.cycle inp
      { processInfo := s.db.processInfo ++ insertedRows out
        sysInfo := s.db.sysInfo ++ [out.sysRow.toRow] } := by
  obtain ⟨sys, pids, st, w, shown, -, rfl, rfl⟩ := mainLoop_ok_iff.mp h
  show purgeStage _ _ (insertSysInfo _ (List.foldl _ _ _)) = _
  rw [foldl_insertPs]
  rfl

/-- The rows of a cycle carry its time stamp. -/
theorem insertedRows_time (hs : StateOk s) (h : Steps (mainLoop conf) inp s s' out) :
    ∀ p ∈ insertedRows out, p.time = out.sysRow.toRow.time := by
  intro p hp
  obtain ⟨r, hr, rfl⟩ := List.mem_map.mp hp
  have hmem := List.mem_of_mem_filter hr
  rw [(stateOk_step hs h).2.rows, List.mem_filterMap] at hmem
  obtain ⟨n, -, hn⟩ := hmem
  obtain ⟨sys, pids, st, w, shown, -, -, rfl⟩ := mainLoop_ok_iff.mp h
  unfold rowOf at hn
  split at hn
  · cases hn
    rfl
  · cases hn

theorem SharedAs.cpu_nonneg (h : SharedAs out ds) : ∀ r ∈ out.rows, 0 ≤ r.cpu.toRat := by
  intro r hr
  have hmem : r.cpu ∈ out.rows.map ProcessInfo.cpu := List.mem_map_of_mem hr
  rw [h.cpu] at hmem
  obtain ⟨d, -, hd⟩ := List.mem_map.mp hmem
  rw [← hd, XFloat.toRat_fin]
  exact div_nonneg (mul_nonneg (by norm_num) (Nat.cast_nonneg d)) (Nat.cast_nonneg _)

theorem SharedAs.sum_cpu (h : SharedAs out ds) :
    (out.rows.map fun r => r.cpu.toRat).sum = 100 * (ds.sum : ℚ) / out.sysRow.runtime.toNat := by
  have hmap : out.rows.map (fun r => r.cpu.toRat) =
      ds.map fun d : ℕ => (d : ℚ) * (100 / out.sysRow.runtime.toNat) := by
    have hcpu := congrArg (List.map XFloat.toRat) h.cpu
    rw [List.map_map, List.map_map] at hcpu
    refine hcpu.trans (List.map_congr_left ?_)
    intro d _
    show 100 * (d : ℚ) / out.sysRow.runtime.toNat = d * (100 / out.sysRow.runtime.toNat)
    ring
  rw [hmap, List.sum_map_mul_right, Nat.cast_list_sum]
  ring

/-- The shares of a cycle are parts of its interval. -/
theorem SharedAs.shares_le (h : SharedAs out ds) :
    (∀ p ∈ insertedRows out, 0 ≤ p.cpu) ∧ ((insertedRows out).map ProcessInfoRow.cpu).sum ≤
      100 * (out.sysRow.toRow.itv : ℚ) / out.sysRow.toRow.runtime := by
  have hle : (ds.sum : ℚ) ≤ out.sysRow.itv.toNat := by exact_mod_cast h.sum_le
  constructor
  · intro p hp
    obtain ⟨r, hr, rfl⟩ := List.mem_map.mp hp
    exact h.cpu_nonneg r (List.mem_of_mem_filter hr)
  · calc ((insertedRows out).map ProcessInfoRow.cpu).sum
        ≤ (out.rows.map fun r => r.cpu.toRat).sum := by
          rw [insertedRows, List.map_map]
          exact sum_map_le_of_sublist List.filter_sublist h.cpu_nonneg
      _ = 100 * (ds.sum : ℚ) / out.sysRow.runtime.toNat := h.sum_cpu
      _ ≤ 100 * (out.sysRow.itv.toNat : ℚ) / out.sysRow.runtime.toNat := by gcongr

theorem SharedAs.soundRow (h : SharedAs out ds) : SoundRow out.sysRow.toRow where
  power := h.power
  itv_pos := Int.natCast_pos.mpr h.itv_pos
  itv_lt := by
    show (out.sysRow.itv.toNat : Int) < 2 ^ 31
    exact_mod_cast h.itv_lt
  runtime_pos := Int.natCast_pos.mpr h.runtime_pos
  runtime_lt := by
    show (out.sysRow.runtime.toNat : Int) < 2 ^ 31
    exact_mod_cast h.runtime_lt

end Cycle

/-- The tables after cycles with these time stamps. -/
structure Accounted (stamps : List u32) (db : Database) : Prop where
  processTimes : ∀ p ∈ db.processInfo, ∃ t ∈ stamps, p.time = t.toNat
  sysTimes : ∀ s ∈ db.sysInfo, ∃ t ∈ stamps, s.time = t.toNat
  nonneg : ∀ p ∈ db.processInfo, 0 ≤ p.cpu
  covered : ∀ s ∈ db.sysInfo, Covered db.processInfo s

theorem Covered.of_sublist {ps ps' : List ProcessInfoRow} {s : SysInfoRow} (h : Covered ps s)
    (hps : ps'.Sublist ps) (hcpu : ∀ p ∈ ps, 0 ≤ p.cpu) : Covered ps' s where
  toSoundRow := h.toSoundRow
  shares := (sum_map_le_of_sublist (hps.filter _) fun p hp =>
    hcpu p (List.mem_of_mem_filter hp)).trans h.shares

/-- A purge only removes rows. -/
theorem purgeStage_sublist (cycle : ℕ) (inp : CycleInput) (db : Database) :
    (purgeStage cycle inp db).processInfo.Sublist db.processInfo ∧
      (purgeStage cycle inp db).sysInfo.Sublist db.sysInfo := by
  unfold purgeStage
  split
  · exact ⟨List.filter_sublist, List.filter_sublist⟩
  · exact ⟨.refl _, .refl _⟩

/-- Purges keep the account. -/
theorem Accounted.purge {stamps : List u32} {db : Database} (h : Accounted stamps db) (cycle : ℕ)
    (inp : CycleInput) : Accounted stamps (purgeStage cycle inp db) := by
  obtain ⟨hps, hss⟩ := purgeStage_sublist cycle inp db
  exact ⟨fun p hp => h.processTimes p (hps.subset hp), fun s hs => h.sysTimes s (hss.subset hs),
    fun p hp => h.nonneg p (hps.subset hp),
    fun s hs => (h.covered s (hss.subset hs)).of_sublist hps h.nonneg⟩

/-- **A cycle with a time stamp of its own keeps the account.** -/
theorem Accounted.insert {stamps : List u32} {db : Database} (h : Accounted stamps db)
    {out : CycleOutput} {ds : List ℕ} (hshared : SharedAs out ds)
    (htime : ∀ p ∈ insertedRows out, p.time = out.sysRow.toRow.time)
    (hnew : out.sysRow.time ∉ stamps) :
    Accounted (stamps ++ [out.sysRow.time])
      { processInfo := db.processInfo ++ insertedRows out
        sysInfo := db.sysInfo ++ [out.sysRow.toRow] } := by
  have hold : ∀ v : Int, (∃ t ∈ stamps, v = t.toNat) → v ≠ out.sysRow.toRow.time := by
    rintro v ⟨t, ht, rfl⟩ he
    have heq : t.toNat = out.sysRow.time.toNat := Int.natCast_inj.mp he
    exact hnew (BitVec.eq_of_toNat_eq heq ▸ ht)
  have hstamp : ∀ {v : Int}, (∃ t ∈ stamps, v = t.toNat) →
      ∃ t ∈ stamps ++ [out.sysRow.time], v = t.toNat := by
    rintro v ⟨t, ht, hv⟩
    exact ⟨t, List.mem_append_left _ ht, hv⟩
  have hlast : ∃ t ∈ stamps ++ [out.sysRow.time], out.sysRow.toRow.time = t.toNat :=
    ⟨_, List.mem_append_right _ (List.mem_singleton_self _), rfl⟩
  obtain ⟨hnonneg, hshares⟩ := hshared.shares_le
  refine ⟨?_, ?_, ?_, ?_⟩
  · intro p hp
    rcases List.mem_append.mp hp with hp | hp
    · exact hstamp (h.processTimes p hp)
    · rw [htime p hp]
      exact hlast
  · intro s hs
    rcases List.mem_append.mp hs with hs | hs
    · exact hstamp (h.sysTimes s hs)
    · rw [List.mem_singleton.mp hs]
      exact hlast
  · intro p hp
    rcases List.mem_append.mp hp with hp | hp
    · exact h.nonneg p hp
    · exact hnonneg p hp
  · intro s hs
    rcases List.mem_append.mp hs with hs | hs
    · -- an earlier row is joined to none of the new rows
      have hother : ∀ p ∈ insertedRows out, p.time ≠ s.time := by
        intro p hp he
        exact hold s.time (h.sysTimes s hs) (he.symm.trans (htime p hp))
      refine ⟨(h.covered s hs).toSoundRow, ?_⟩
      rw [List.filter_append, filter_sameTime_eq_nil hother, List.append_nil]
      exact (h.covered s hs).shares
    · -- the new row is joined to none of the earlier rows
      obtain rfl := List.mem_singleton.mp hs
      have hother : ∀ p ∈ db.processInfo, p.time ≠ out.sysRow.toRow.time := by
        intro p hp
        exact hold p.time (h.processTimes p hp)
      refine ⟨hshared.soundRow, ?_⟩
      rw [List.filter_append, filter_sameTime_eq_nil hother, List.nil_append]
      exact (sum_map_le_of_sublist List.filter_sublist hnonneg).trans hshares

/-- **In every run the tables are accounted for.** -/
theorem run_accounted {conf : Conf} {cpuFd : List PCFile} {cs : List PtopCycle} {s : PtopState}
    (h : PtopRun conf cpuFd cs s) (hdistinct : (cs.map fun c => c.output.sysRow.time).Nodup)
    (hshared : ∀ c ∈ cs, ∃ ds, SharedAs c.output ds) :
    Accounted (cs.map fun c => c.output.sysRow.time) s.db := by
  induction h with
  | init =>
      exact ⟨fun p hp => absurd hp List.not_mem_nil, fun s hs => absurd hs List.not_mem_nil,
        fun p hp => absurd hp List.not_mem_nil, fun s hs => absurd hs List.not_mem_nil⟩
  | step hrun hstep ih =>
      rw [List.map_append, List.map_singleton] at hdistinct ⊢
      have hnew := List.nodup_append.mp hdistinct
      have hacc := ih hnew.1 fun c hc => hshared c (List.mem_append_left _ hc)
      obtain ⟨ds, hds⟩ := hshared _ (List.mem_append_right _ (List.mem_singleton_self _))
      rw [cycle_db hstep]
      refine (hacc.insert hds (insertedRows_time (run_stateOk hrun) hstep) ?_).purge _ _
      intro hmem
      exact hnew.2.2 _ hmem _ (List.mem_singleton_self _) rfl

/-- **The energy of the processes is within the energy of the machine**, for any
processes and any window, as long as no two cycles have the same time stamp. -/
theorem energy_within_system {conf : Conf} {cpuFd : List PCFile} {cs : List PtopCycle}
    {s : PtopState} (h : PtopRun conf cpuFd cs s)
    (hdistinct : (cs.map fun c => c.output.sysRow.time).Nodup)
    (hshared : ∀ c ∈ cs, ∃ ds, SharedAs c.output ds) (pids : Finset Int) (length now : Int) :
    ∑ pid ∈ pids, CPUEnergy s.db pid length now ≤ (systemEnergy s.db length now).ecpu := by
  have hacc := run_accounted h hdistinct hshared
  exact sum_CPUEnergy_le hacc.nonneg hacc.covered pids length now

/-- Two cycles of 100 and 200 jiffies, the processor at its lowest frequency in
the second half of each. -/
def metered : List CycleInput :=
  let freqs := fun n => some [some [(2000, n), (1000, n)]]
  [{ plainCycle 100 [resident, visitor] fun _ => plainFiles { utime := 30 } {} with
      ctime := 5, cpufreq := freqs 50 },
    { plainCycle 300 [resident, visitor] fun _ => plainFiles { utime := 90, stime := 7 } {} with
      ctime := 6, cpufreq := freqs 150 }]

theorem energy_within_system_metered :
    ∃ cs s, PtopRun { cpufreqStats := true } [] cs s ∧ cs.map Transition.input = metered ∧
      0 < CPUEnergy s.db 1 10 6 ∧
      ∑ pid ∈ {1, 7}, CPUEnergy s.db pid 10 6 ≤ (systemEnergy s.db 10 6).ecpu := by
  obtain ⟨cs, s, hrun, hinput, hdistinct, hshared, c, hc, hpos⟩ := exists_run_of_trace
    (mainLoop { cpufreqStats := true }) (systemInit []) metered
    (fun cs => (cs.map fun c => c.output.sysRow.time).Nodup ∧
      (∀ c ∈ cs, ∃ ds ∈ [[30, 30], [67, 67]], SharedAs c.output ds) ∧
      ∃ c ∈ cs.getLast?, 0 < CPUEnergy c.post.db 1 10 6) (by decide +kernel)
  obtain ⟨before, rfl⟩ := List.getLast?_eq_some_iff.mp hc
  obtain ⟨-, -, rfl⟩ := hrun.snoc_inv
  exact ⟨_, c.post, hrun, hinput, hpos, energy_within_system hrun hdistinct
    (fun d hd => (hshared d hd).imp fun ds h => h.2) {1, 7} 10 6⟩

end PTop
