import PTop.Metatheory.Purge

/-!
# Cycles that share a second

Rows of the two tables belong together when one cycle inserted them; the join of
`CPUEnergy` takes them together when they have the same second. As long as the
window of the query is complete, the query is a sum over pairs of cycles with
the same stamp, and it should be a sum over cycles.
-/

namespace PTop

open Framework

/-- The rows of one process that a cycle inserted. -/
def rowsIn (pid : Int) (c : PtopCycle) : List ProcessInfoRow :=
  (insertedRows c.output).filter fun p => p.pid = pid

/-- The cycles of a window. -/
def cyclesIn (length now : Int) (cs : List PtopCycle) : List PtopCycle :=
  cs.filter fun c => inWindow length now (stamp c.input)

/-- A sum over the cycles of a window; each term takes both rows from one cycle. -/
def windowSum {M : Type*} [AddCommMonoid M] (f : ProcessInfoRow × SysInfoRow → M)
    (pid length now : Int) (cs : List PtopCycle) : M :=
  ((cyclesIn length now cs).map fun c =>
    ((rowsIn pid c).map fun p => f (p, c.output.sysRow.toRow)).sum).sum

/-- A sum over the pairs of a cycle of the window and a cycle with the same stamp. -/
def pairSum {M : Type*} [AddCommMonoid M] (f : ProcessInfoRow × SysInfoRow → M)
    (pid length now : Int) (cs : List PtopCycle) : M :=
  ((cyclesIn length now cs).map fun c => ((rowsIn pid c).map fun p =>
    ((cs.filter fun d => stamp d.input = stamp c.input).map
      fun d => f (p, d.output.sysRow.toRow)).sum).sum).sum

/-- The rows of a cycle have its stamp. -/
def Stamped (c : PtopCycle) : Prop :=
  c.output.sysRow.toRow.time = stamp c.input ∧
    ∀ p ∈ insertedRows c.output, p.time = stamp c.input

theorem run_stamped {conf : Conf} {cpuFd : List PCFile} {cs : List PtopCycle} {s : PtopState}
    (h : PtopRun conf cpuFd cs s) : ∀ c ∈ cs, Stamped c :=
  fun _ hc => ⟨sysRow_stamp h hc, processRow_stamp h hc⟩

/-! ## The join over a complete window -/

section Join

variable {cs : List PtopCycle} {db : Database} {pid length now : Int}

theorem selectProcess_eq_flatMap (hw : WindowComplete cs db length now)
    (hst : ∀ c ∈ cs, Stamped c) :
    db.selectProcess pid length now = (cyclesIn length now cs).flatMap (rowsIn pid) := by
  rw [selectProcess_eq, processWindow, hw.processInfo, List.filter_flatMap, List.filter_flatMap]
  apply flatMap_eq_flatMap_filter
  intro c hc
  by_cases hwin : inWindow length now (stamp c.input)
  · have hall : (insertedRows c.output).filter (fun p => inWindow length now p.time) =
        insertedRows c.output := by
      rw [List.filter_eq_self]
      intro p hp
      rwa [(hst c hc).2 p hp]
    rw [if_pos hwin, hall]
    rfl
  · have hnone : (insertedRows c.output).filter (fun p => inWindow length now p.time) = [] := by
      rw [List.filter_eq_nil_iff]
      intro p hp
      rwa [(hst c hc).2 p hp]
    rw [if_neg hwin, hnone]
    rfl

/-- The rows of the machine joined to a row of the window. -/
theorem filter_sameTime_eq_map (hw : WindowComplete cs db length now) (hst : ∀ c ∈ cs, Stamped c)
    {c : PtopCycle} (hc : c ∈ cyclesIn length now cs) {p : ProcessInfoRow} (hp : p ∈ rowsIn pid c) :
    db.sysInfo.filter (sameTime p) =
      (cs.filter fun d => stamp d.input = stamp c.input).map fun d => d.output.sysRow.toRow := by
  obtain ⟨hmem, hwin⟩ := List.mem_filter.mp hc
  have htime : p.time = stamp c.input := (hst c hmem).2 p (List.mem_of_mem_filter hp)
  have hin : ∀ s : SysInfoRow, sameTime p s → inWindow length now s.time := by
    intro s hs
    rw [← of_decide_eq_true hs, htime]
    exact hwin
  -- the rows with the time of `p` are in the window, where nothing is missing
  have hwindow : ∀ l : List SysInfoRow, l.filter (sameTime p) =
      (l.filter fun s => inWindow length now s.time).filter (sameTime p) := by
    intro l
    rw [List.filter_filter]
    apply List.filter_congr
    intro s _
    cases hs : sameTime p s with
    | false => rfl
    | true => rw [hin s hs, Bool.and_self]
  rw [hwindow, hw.sysInfo, ← hwindow, List.filter_map]
  congr 1
  apply List.filter_congr
  intro d hd
  have hd' : d.output.sysRow.toRow.time = stamp d.input := (hst d hd).1
  simp only [Function.comp, sameTime, htime, hd', eq_comm]

/-- **The query sums over pairs of cycles with the same stamp.** -/
theorem sum_selectCpu {M : Type*} [AddCommMonoid M] (hw : WindowComplete cs db length now)
    (hst : ∀ c ∈ cs, Stamped c) (f : ProcessInfoRow × SysInfoRow → M) :
    ((db.selectCpu pid length now).map f).sum = pairSum f pid length now cs := by
  have hjoin : db.selectCpu pid length now =
      joinOn sameTime (db.selectProcess pid length now) db.sysInfo := rfl
  rw [hjoin, sum_joinOn, selectProcess_eq_flatMap hw hst, sum_map_flatMap, pairSum]
  apply sum_map_sum_congr
  intro c hc p hp
  rw [filter_sameTime_eq_map hw hst hc hp, List.map_map]
  rfl

/-! ## When the pairs are the cycles -/

/-- No row of the process in a cycle of the window has a term with the machine's
row of another cycle of the same second. -/
def Unmixed (pid length now : Int) (cs : List PtopCycle) : Prop :=
  ∀ before c after, cs = before ++ c :: after → inWindow length now (stamp c.input) →
    ∀ d ∈ before ++ after, stamp d.input = stamp c.input →
      ∀ p ∈ rowsIn pid c, joinedEnergy (p, d.output.sysRow.toRow) = 0

/-- Cycles that never share a second are not mixed up. -/
theorem unmixed_of_nodup (h : (cs.map fun c => stamp c.input).Nodup) :
    Unmixed pid length now cs := by
  rintro before c after rfl - d hd htime
  have hperm : (before ++ c :: after).Perm (c :: (before ++ after)) := List.perm_middle
  have hnodup := (hperm.map fun c => stamp c.input).nodup_iff.mp h
  rw [List.map_cons, List.nodup_cons] at hnodup
  exact absurd (List.mem_map.mpr ⟨d, hd, htime⟩) hnodup.1

/-- **Without mixed terms the query is a sum over cycles.** -/
theorem sum_selectCpu_of_unmixed (hw : WindowComplete cs db length now)
    (hst : ∀ c ∈ cs, Stamped c) (hun : Unmixed pid length now cs) :
    CPUEnergyFloat db pid length now = windowSum joinedEnergy pid length now cs := by
  rw [CPUEnergyFloat, sum_selectCpu hw hst, pairSum, windowSum]
  apply sum_map_sum_congr
  intro c hc p hp
  obtain ⟨hmem, hwin⟩ := List.mem_filter.mp hc
  obtain ⟨before, after, rfl⟩ := List.append_of_mem hmem
  have hzero : (((before ++ after).filter fun d => stamp d.input = stamp c.input).map
      fun d => joinedEnergy (p, d.output.sysRow.toRow)).sum = 0 := by
    apply sum_map_eq_zero
    intro d hd
    obtain ⟨hd, htime⟩ := List.mem_filter.mp hd
    exact hun before c after rfl hwin d hd (of_decide_eq_true htime) p hp
  rw [sum_filter_key_middle (fun d : PtopCycle => stamp d.input), hzero, add_zero]

/-! ## Mixed terms count

Where no interval is empty and no power is negative, a mixed term that is not
zero makes the query too large. -/

/-- The terms with the machine's row of a cycle are finite and not negative. -/
structure Regular (c : PtopCycle) : Prop where
  itv : c.output.sysRow.itv ≠ 0
  power : 0 ≤ c.output.sysRow.cpupower

theorem atoiU32_toNat (v : u32) : atoiU32 v.toNat = v.toNat := by
  rw [atoiU32, BitVec.ofInt_natCast, BitVec.toNat_ofNat, Nat.mod_eq_of_lt v.isLt]

theorem Regular.joinedEnergy_eq {c : PtopCycle} (h : Regular c) (p : ProcessInfoRow) :
    joinedEnergy (p, c.output.sysRow.toRow) = .fin (rowEnergy (p, c.output.sysRow.toRow)) := by
  have hitv : (atoiU32 c.output.sysRow.toRow.itv : ℚ) ≠ 0 := by
    have hne : c.output.sysRow.itv.toNat ≠ 0 := fun h0 => h.itv (BitVec.eq_of_toNat_eq h0)
    rw [SysInfo.toRow, atoiU32_toNat]
    exact Nat.cast_ne_zero.mpr hne
  have hdiv : XFloat.ofNat (atoiU32 c.output.sysRow.toRow.runtime) /
      .ofNat (atoiU32 c.output.sysRow.toRow.itv) =
        .fin ((atoiU32 c.output.sysRow.toRow.runtime : ℚ) / atoiU32 c.output.sysRow.toRow.itv) :=
    XFloat.fin_div_fin _ hitv
  rw [joinedEnergy, hdiv, XFloat.fin_mul_fin, XFloat.fin_mul_fin,
    XFloat.fin_div_fin _ (by norm_num : (100 : ℚ) ≠ 0)]
  rfl

theorem Regular.rowEnergy_nonneg {c : PtopCycle} (h : Regular c) {p : ProcessInfoRow}
    (hp : 0 ≤ p.cpu) : 0 ≤ rowEnergy (p, c.output.sysRow.toRow) := by
  have hpower : 0 ≤ c.output.sysRow.toRow.cpupower := h.power
  have hshare : (0 : ℚ) ≤ (atoiU32 c.output.sysRow.toRow.runtime : ℚ) /
      atoiU32 c.output.sysRow.toRow.itv := div_nonneg (Nat.cast_nonneg _) (Nat.cast_nonneg _)
  exact div_nonneg (mul_nonneg (mul_nonneg hp hpower) hshare) (by norm_num)

theorem windowSum_hom {M N : Type*} [AddCommMonoid M] [AddCommMonoid N] (φ : M →+ N)
    {f : ProcessInfoRow × SysInfoRow → M} {g : ProcessInfoRow × SysInfoRow → N}
    (hfg : ∀ c ∈ cs, ∀ p, g (p, c.output.sysRow.toRow) = φ (f (p, c.output.sysRow.toRow))) :
    windowSum g pid length now cs = φ (windowSum f pid length now cs) := by
  apply sum_map_hom
  intro c hc
  apply sum_map_hom
  intro p _
  exact hfg c (List.mem_of_mem_filter hc) p

theorem pairSum_hom {M N : Type*} [AddCommMonoid M] [AddCommMonoid N] (φ : M →+ N)
    {f : ProcessInfoRow × SysInfoRow → M} {g : ProcessInfoRow × SysInfoRow → N}
    (hfg : ∀ c ∈ cs, ∀ p, g (p, c.output.sysRow.toRow) = φ (f (p, c.output.sysRow.toRow))) :
    pairSum g pid length now cs = φ (pairSum f pid length now cs) := by
  apply sum_map_hom
  intro c _
  apply sum_map_hom
  intro p _
  apply sum_map_hom
  intro d hd
  exact hfg d (List.mem_of_mem_filter hd) p

/-- The terms of a row of `c` with the machine's rows of its second in `ds`. -/
def secondTerms (ds : List PtopCycle) (c : PtopCycle) (p : ProcessInfoRow) : ℚ :=
  ((ds.filter fun d => stamp d.input = stamp c.input).map
    fun d => rowEnergy (p, d.output.sysRow.toRow)).sum

theorem secondTerms_middle (before after : List PtopCycle) (c : PtopCycle) (p : ProcessInfoRow) :
    secondTerms (before ++ c :: after) c p =
      rowEnergy (p, c.output.sysRow.toRow) + secondTerms (before ++ after) c p :=
  sum_filter_key_middle (fun d : PtopCycle => stamp d.input) _ before after c

section Terms

variable {ds : List PtopCycle} {c : PtopCycle} {p : ProcessInfoRow}

theorem secondTerms_nonneg (hreg : ∀ d ∈ ds, Regular d) (hp : 0 ≤ p.cpu) :
    0 ≤ secondTerms ds c p := by
  apply List.sum_nonneg
  intro x hx
  obtain ⟨d, hd, rfl⟩ := List.mem_map.mp hx
  exact (hreg d (List.mem_of_mem_filter hd)).rowEnergy_nonneg hp

theorem secondTerms_eq_zero_iff (hreg : ∀ d ∈ ds, Regular d) (hp : 0 ≤ p.cpu) :
    secondTerms ds c p = 0 ↔ ∀ d ∈ ds, stamp d.input = stamp c.input →
      rowEnergy (p, d.output.sysRow.toRow) = 0 := by
  have hnonneg : ∀ d ∈ ds.filter fun d => stamp d.input = stamp c.input,
      0 ≤ rowEnergy (p, d.output.sysRow.toRow) := by
    intro d hd
    exact (hreg d (List.mem_of_mem_filter hd)).rowEnergy_nonneg hp
  rw [secondTerms, sum_map_eq_zero_iff hnonneg]
  simp only [List.mem_filter, decide_eq_true_eq, and_imp]

end Terms

/-- **Mixed terms that are not zero are counted.** -/
theorem unmixed_of_sum_eq (hw : WindowComplete cs db length now) (hst : ∀ c ∈ cs, Stamped c)
    (hreg : ∀ c ∈ cs, Regular c) (hcpu : ∀ c ∈ cs, ∀ p ∈ insertedRows c.output, 0 ≤ p.cpu)
    (heq : CPUEnergyFloat db pid length now = windowSum joinedEnergy pid length now cs) :
    Unmixed pid length now cs := by
  have hfin : ∀ c ∈ cs, ∀ p, joinedEnergy (p, c.output.sysRow.toRow) =
      XFloat.finHom (rowEnergy (p, c.output.sysRow.toRow)) :=
    fun c hc p => (hreg c hc).joinedEnergy_eq p
  rw [CPUEnergyFloat, sum_selectCpu hw hst, pairSum_hom XFloat.finHom hfin,
    windowSum_hom XFloat.finHom hfin] at heq
  have hsum : windowSum rowEnergy pid length now cs = pairSum rowEnergy pid length now cs :=
    (XFloat.fin_injective heq).symm
  have hothers : ∀ before c after, cs = before ++ c :: after →
      ∀ d ∈ before ++ after, Regular d := by
    rintro before c after rfl d hd
    exact hreg d (((List.sublist_cons_self c after).append_left before).subset hd)
  -- the term of a cycle with itself is one of its pairs, and the others are not negative
  have hle : ∀ c ∈ cyclesIn length now cs, ∀ p ∈ rowsIn pid c,
      rowEnergy (p, c.output.sysRow.toRow) ≤ secondTerms cs c p := by
    intro c hc p hp
    have hmem := List.mem_of_mem_filter hc
    obtain ⟨before, after, hcs⟩ := List.append_of_mem hmem
    rw [hcs, secondTerms_middle]
    exact le_add_of_nonneg_right (secondTerms_nonneg (hothers before c after hcs)
      (hcpu c hmem p (List.mem_of_mem_filter hp)))
  have hcycle := eq_of_sum_map_eq (fun c hc => List.sum_le_sum (hle c hc)) hsum
  intro before c after hcs hwin d hd htime p hp
  have hmem : c ∈ cs := hcs ▸ by simp
  have hc : c ∈ cyclesIn length now cs := List.mem_filter.mpr ⟨hmem, hwin⟩
  have hrow := eq_of_sum_map_eq (hle c hc) (hcycle c hc) p hp
  have hothers := hothers before c after hcs
  rw [hcs, secondTerms_middle, left_eq_add, secondTerms_eq_zero_iff hothers
    (hcpu c hmem p (List.mem_of_mem_filter hp))] at hrow
  rw [(hothers d hd).joinedEnergy_eq, hrow d hd htime]
  rfl

end Join

/-! ## The queries of a run -/

/-- A percentage is not negative, and junk counts as zero. -/
theorem toRat_percent_nonneg (d : ℕ) (itv : u64) : 0 ≤ (XFloat.ofNat d * percentUnit itv).toRat := by
  by_cases hitv : (itv.toNat : ℚ) = 0
  · have hinf : percentUnit itv = .inf false := by
      show XFloat.div (.fin 100) (.fin itv.toNat) = .inf false
      simp [XFloat.div, hitv]
    rw [hinf]
    show (0 : ℚ) ≤ (if (d : ℚ) = 0 then XFloat.nan else .inf (false ^^ decide ((d : ℚ) < 0))).toRat
    split
    · exact le_rfl
    · exact le_rfl
  · have hfin : percentUnit itv = .fin (100 / itv.toNat) := XFloat.fin_div_fin 100 hitv
    rw [hfin]
    exact mul_nonneg (Nat.cast_nonneg d) (div_nonneg (by norm_num) (Nat.cast_nonneg _))

theorem insertedRows_cpu_nonneg {conf : Conf} {cpuFd : List PCFile} {cs : List PtopCycle}
    {s : PtopState} (h : PtopRun conf cpuFd cs s) :
    ∀ c ∈ cs, ∀ p ∈ insertedRows c.output, 0 ≤ p.cpu := by
  intro c hc p hp
  obtain ⟨r, hr, rfl⟩ := List.mem_map.mp hp
  have hmem := List.mem_of_mem_filter hr
  rw [(run_cycle h hc).2.rows, List.mem_filterMap] at hmem
  obtain ⟨n, -, hn⟩ := hmem
  unfold rowOf at hn
  split at hn
  · cases hn
    exact toRat_percent_nonneg _ _
  · cases hn

/-- **A query is a sum over cycles** if the purges have spared its window and no
two cycles of one second mix; where all terms are finite and none is negative,
only then. -/
theorem energy_by_cycles {conf : Conf} {cpuFd : List PCFile} {before after : List PtopCycle}
    {c : PtopCycle} {s : PtopState} (h : PtopRun conf cpuFd (before ++ c :: after) s)
    (hclock : ClockNondecreasing (before ++ c :: after)) {pid length now : Int}
    (hspares : EachAfter (SparesWindow length now) before) :
    (Unmixed pid length now (before ++ [c]) → CPUEnergyFloat (queryDb c) pid length now =
        windowSum joinedEnergy pid length now (before ++ [c])) ∧
      ((∀ d ∈ before ++ [c], Regular d) → CPUEnergyFloat (queryDb c) pid length now =
        windowSum joinedEnergy pid length now (before ++ [c]) →
          Unmixed pid length now (before ++ [c])) := by
  have hw := windowComplete_of_sparesWindow h hclock hspares
  obtain ⟨t, hrun⟩ := run_to_cycle h
  have hst := run_stamped hrun
  constructor
  · exact sum_selectCpu_of_unmixed hw hst
  · intro hreg
    exact unmixed_of_sum_eq hw hst hreg (insertedRows_cpu_nonneg hrun)

theorem energy_by_cycles_metered :
    ∃ before c s, PtopRun { cpufreqStats := true } [] (before ++ [c]) s ∧
      (before ++ [c]).map Transition.input = metered ∧
      CPUEnergyFloat (queryDb c) 1 10 6 = windowSum joinedEnergy 1 10 6 (before ++ [c]) := by
  obtain ⟨cs, s, hrun, hinput, hclock, hnodup, hnone, hne⟩ := exists_run_of_trace
    (mainLoop { cpufreqStats := true }) (systemInit []) metered
    (fun cs => ClockNondecreasing cs ∧ (cs.map fun c => stamp c.input).Nodup ∧
      (∀ c ∈ cs, ¬ Purges c) ∧ cs ≠ []) (by decide +kernel)
  rw [← List.dropLast_append_getLast hne] at hrun hinput hclock hnodup hnone
  have hspares : EachAfter (SparesWindow 10 6) cs.dropLast := by
    intro earlier d later hsplit hpurge
    exact absurd hpurge (hnone d (List.mem_append_left _ (hsplit ▸ by simp)))
  exact ⟨_, _, s, hrun, hinput, (energy_by_cycles hrun hclock hspares).1 (unmixed_of_nodup hnodup)⟩

/-- The same two cycles, both started in second 5. -/
def rushed : List CycleInput := metered.map fun inp => { inp with ctime := 5 }

/-- Each row is joined to the machine's rows of both cycles. -/
theorem second_counted_twice :
    ∃ before c s, PtopRun { cpufreqStats := true } [] (before ++ [c]) s ∧
      (before ++ [c]).map Transition.input = rushed ∧ ClockNondecreasing (before ++ [c]) ∧
      CPUEnergyFloat (queryDb c) 1 10 5 ≠ windowSum joinedEnergy 1 10 5 (before ++ [c]) := by
  obtain ⟨cs, s, hrun, hinput, hclock, hlen, c, hc, hwrong⟩ := exists_run_of_trace
    (mainLoop { cpufreqStats := true }) (systemInit []) rushed
    (fun cs => ClockNondecreasing cs ∧ cs.length = 2 ∧ ∃ c ∈ cs.drop 1,
      CPUEnergyFloat (queryDb c) 1 10 5 ≠ windowSum joinedEnergy 1 10 5 cs) (by decide +kernel)
  obtain ⟨d, hd⟩ : ∃ d, cs.drop 1 = [d] :=
    List.length_eq_one_iff.mp (by rw [List.length_drop, hlen])
  rw [hd, List.mem_singleton] at hc
  subst hc
  have hsplit : cs = cs.take 1 ++ [c] := by rw [← hd, List.take_append_drop]
  rw [hsplit] at hrun hinput hclock hwrong
  exact ⟨_, c, s, hrun, hinput, hclock, hwrong⟩

end PTop
