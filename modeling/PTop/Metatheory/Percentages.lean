import PTop.Metatheory.Intervals

/-!
# Percentages of an interval

The row of a process holds its times as percentages of the busy jiffies since the
last cycle. Of the user time the first operand is wrong, and of the interval
nobody asks whether it is zero.
-/

namespace PTop

open Framework

/-! ## The parts of the processor time -/

theorem clampTime_of_le {old new : u64} (h : old ≤ new) : clampTime old new = new :=
  if_neg fun hlt => BitVec.not_lt.mpr h hlt.1

/-- A sample none of whose times has decreased is stored as it is. -/
theorem clampSample_of_le {old new : PidStats} (hu : old.utime ≤ new.utime)
    (hs : old.stime ≤ new.stime) (hg : old.gtime ≤ new.gtime) : clampSample old new = new := by
  rw [clampSample, clampTime_of_le hu, clampTime_of_le hs, clampTime_of_le hg]

theorem toNat_u64Subcount_self (x : u64) : u64Subcount x x = 0 := by
  rw [u64Subcount, subcountWith_of_le MAXU64VAL (BitVec.le_refl x), BitVec.sub_self]
  rfl

/-- Counts in units of one positive number add up as numbers do. -/
theorem sum_units_eq_iff {q : ℚ} (hq : 0 < q) (k m n d : ℕ) :
    XFloat.ofNat k * .fin q + XFloat.ofNat m * .fin q + XFloat.ofNat n * .fin q =
      XFloat.ofNat d * .fin q ↔ k + m + n = d := by
  show XFloat.fin ((k : ℚ) * q + m * q + n * q) = XFloat.fin ((d : ℚ) * q) ↔ _
  rw [XFloat.fin_injective.eq_iff, ← add_mul, ← add_mul, mul_left_inj' hq.ne']
  exact_mod_cast Iff.rfl

/-- The row of a node, when its times have not decreased. -/
theorem row_of_writePosition {conf : Conf} {a : WriteArgs} {p : PidEntry} {w : WriteAcc}
    {r : ProcessInfo} (h : (writePosition conf a p w).2.rows = w.rows ++ [r])
    (hu : (p.prev a).utime ≤ (p.curr a).utime) (hs : (p.prev a).stime ≤ (p.curr a).stime)
    (hg : (p.prev a).gtime ≤ (p.curr a).gtime) :
    r = processRow conf a.time a.itv (p.prev a) (p.curr a) := by
  have hrow : (rowOf conf a p).toList = [r] := by
    rw [(writePosition_snd conf a p w).rows] at h
    exact List.append_cancel_left h
  unfold rowOf at hrow
  split at hrow
  · rw [clampSample_of_le hu hs hg] at hrow
    exact (List.singleton_inj.mp hrow).symm
  · cases hrow

/-- **The parts add up only without user time**: what is stored for it is the guest time
taken from zero. -/
theorem percentages_add_up_iff {conf : Conf} {a : WriteArgs} {p : PidEntry} {w : WriteAcc}
    {r : ProcessInfo} (h : (writePosition conf a p w).2.rows = w.rows ++ [r]) (hitv : 0 < a.itv)
    (hu : (p.prev a).utime ≤ (p.curr a).utime) (hs : (p.prev a).stime ≤ (p.curr a).stime)
    (hg : (p.prev a).gtime ≤ (p.curr a).gtime)
    (hguest : (p.curr a).gtime - (p.prev a).gtime ≤ (p.curr a).utime - (p.prev a).utime) :
    r.utime + r.gtime + r.stime = r.cpu ↔ (p.curr a).utime = (p.prev a).utime := by
  have hpos : (0 : ℚ) < a.itv.toNat := by exact_mod_cast BitVec.lt_def.mp hitv
  have hunit : percentUnit a.itv = .fin (100 / a.itv.toNat) := XFloat.fin_div_fin 100 hpos.ne'
  have hquot : (0 : ℚ) < 100 / a.itv.toNat := div_pos (by norm_num) hpos
  rw [row_of_writePosition h hu hs hg]
  simp only [processRow, hunit, toNat_u64Subcount_self]
  rw [sum_units_eq_iff hquot, u64Subcount, u64Subcount, u64Subcount,
    subcountWith_of_le MAXU64VAL hg, subcountWith_of_le MAXU64VAL hs,
    subcountWith_of_le MAXU64VAL hu, ← BitVec.toNat_inj, BitVec.toNat_sub, BitVec.toNat_add,
    BitVec.toNat_sub_of_le hg, BitVec.toNat_sub_of_le hs, BitVec.toNat_sub_of_le hu]
  rw [BitVec.le_def, BitVec.toNat_sub_of_le hg, BitVec.toNat_sub_of_le hu] at hguest
  rw [BitVec.le_def] at hu hs hg
  have hult := (p.curr a).utime.isLt
  have hslt := (p.curr a).stime.isLt
  have hglt := (p.curr a).gtime.isLt
  show (2 ^ 64 - ((p.curr a).gtime.toNat - (p.prev a).gtime.toNat) + 0) % 2 ^ 64 + _ + _ = _ ↔ _
  -- a guest time that has grown is taken from zero and wraps; one that has not leaves zero
  constructor
  · intro heq
    omega
  · intro heq
    omega

/-- A node with these user times, and one more jiffy of system time. -/
def userTimes (old new : u64) : PidEntry where
  fd := 0
  pstList := fun
    | false => { pid := 7, utime := old, stime := 3 }
    | true => { pid := 7, utime := new, stime := 4 }

def tenJiffies : WriteArgs where
  curr := true
  time := 5
  itv := 10
  screen := false

theorem percentages_add_up_iff_kernelOnly :
    ∃ r, (writePosition {} tenJiffies (userTimes 6 6) (.start {} (fun _ => {}) [])).2.rows = [r] ∧
      (r.utime + r.gtime + r.stime = r.cpu ↔ (6 : u64) = 6) := by
  obtain ⟨r, hr⟩ : ∃ r, (writePosition {} tenJiffies (userTimes 6 6)
      (.start {} (fun _ => {}) [])).2.rows = (WriteAcc.start {} (fun _ => {}) []).rows ++ [r] :=
    ⟨_, rfl⟩
  exact ⟨r, hr, percentages_add_up_iff hr (by decide) (by decide) (by decide) (by decide)
    (by decide)⟩

/-- Six of ten jiffies of user time are missing from the parts. -/
theorem user_time_missing :
    ∃ r, (writePosition {} tenJiffies (userTimes 0 6) (.start {} (fun _ => {}) [])).2.rows = [r] ∧
      r.utime = .fin 0 ∧ r.gtime = .fin 0 ∧ r.stime = .fin 10 ∧ r.cpu = .fin 70 ∧
      r.utime + r.gtime + r.stime ≠ r.cpu := by
  refine ⟨_, rfl, ?_⟩
  decide +kernel

/-! ## The interval -/

section Difference

variable (x y : u32)

/-- Two 32-bit readings, by the 64-bit routine. -/
theorem toNat_u64Subcount_zeroExtended :
    (u64Subcount (y.setWidth 64) (x.setWidth 64)).toNat =
      if x.toNat ≤ y.toNat then y.toNat - x.toNat
      else 0x1111111111111111 + y.toNat - x.toNat := by
  have hx := x.isLt
  have hy := y.isLt
  rcases Nat.lt_or_ge y.toNat x.toNat with hlt | hle
  · -- an increase past the end of the register
    have hwrap : y.toNat = (x.toNat + (y.toNat + 2 ^ 32 - x.toNat)) % 2 ^ 32 := by omega
    rw [toNat_u64Subcount_setWidth hwrap (by omega), if_neg (by omega), if_neg (by omega)]
    omega
  · have hplain : y.toNat = (x.toNat + (y.toNat - x.toNat)) % 2 ^ 32 := by omega
    rw [toNat_u64Subcount_setWidth hplain (by omega), if_pos (by omega), if_pos hle]

/-- The difference is zero for equal readings only. -/
theorem u64Subcount_eq_zero_iff :
    u64Subcount (y.setWidth 64) (x.setWidth 64) = 0 ↔ y = x := by
  rw [← BitVec.toNat_inj, toNat_u64Subcount_zeroExtended, ← BitVec.toNat_inj]
  have hx := x.isLt
  show _ = 0 ↔ _
  split <;> omega

/-- Its low 32 bits also for a reading that has gone back by `0x11111111`. -/
theorem u64Subcount_low_eq_zero_iff :
    (u64Subcount (y.setWidth 64) (x.setWidth 64)).setWidth 32 = 0 ↔
      y = x ∨ x.toNat = y.toNat + 0x11111111 := by
  rw [← BitVec.toNat_inj, BitVec.toNat_setWidth, toNat_u64Subcount_zeroExtended,
    ← BitVec.toNat_inj]
  have hx := x.isLt
  have hy := y.isLt
  show _ = 0 ↔ _
  split <;> omega

end Difference

/-- No row of the cycle has been divided by zero, and no query will divide its row of the
machine by zero. -/
structure NeverDividesByZero (out : CycleOutput) : Prop where
  writeStat : out.rows ≠ [] → 0 < out.itv
  cpuEnergy : 0 < atoiU32 out.sysRow.toRow.itv

instance (out : CycleOutput) : Decidable (NeverDividesByZero out) :=
  decidable_of_iff ((out.rows ≠ [] → 0 < out.itv) ∧ 0 < atoiU32 out.sysRow.toRow.itv)
    ⟨fun h => ⟨h.1, h.2⟩, fun h => ⟨h.writeStat, h.cpuEnergy⟩⟩

/-- The busy jiffies have moved, as far as 32 bits show it, if there is anything to report;
and so has the sum of all jiffies, by an amount that the difference does not hide. -/
def IntervalsNonzero (d : PtopCycle) (c c' : StatsCpu) : Prop :=
  ((∃ n ∈ d.output.sampled.preorder, Active (cycleArgs d.input d.pre d.output) n.toPidEntry) →
      c'.busy % 2 ^ 32 ≠ c.busy % 2 ^ 32) ∧
    c'.total % 2 ^ 32 ≠ c.total % 2 ^ 32 ∧
    c.total % 2 ^ 32 ≠ c'.total % 2 ^ 32 + 0x11111111

theorem IntervalsFormed.itv_pos_iff {out : CycleOutput} {c c' : StatsCpu}
    (h : IntervalsFormed out c c') : 0 < out.itv ↔ c'.busy % 2 ^ 32 ≠ c.busy % 2 ^ 32 := by
  have h₁ := c.toNat_runtimeField
  have h₂ := c'.toNat_runtimeField
  have hzero : 0 < out.itv ↔ ¬ out.itv = 0 := BitVec.pos_iff_ne_zero out.itv
  rw [hzero, h.itv, u64Subcount_eq_zero_iff, ← BitVec.toNat_inj]
  omega

theorem IntervalsFormed.rowItv_pos_iff {out : CycleOutput} {c c' : StatsCpu}
    (h : IntervalsFormed out c c') : 0 < atoiU32 out.sysRow.toRow.itv ↔
      c'.total % 2 ^ 32 ≠ c.total % 2 ^ 32 ∧ c.total % 2 ^ 32 ≠ c'.total % 2 ^ 32 + 0x11111111 := by
  have hcolumn : atoiU32 out.sysRow.toRow.itv = out.sysRow.itv.toNat := by
    show (BitVec.ofInt 32 (out.sysRow.itv.toNat : Int)).toNat = _
    rw [BitVec.ofInt_natCast, BitVec.ofNat_toNat, BitVec.setWidth_eq]
  have hzero : 0 < out.sysRow.itv.toNat ↔ ¬ out.sysRow.itv = 0 := by
    rw [← BitVec.toNat_inj]
    exact Nat.pos_iff_ne_zero
  rw [hcolumn, hzero, h.rowItv, u64Subcount_low_eq_zero_iff, not_or, ← BitVec.toNat_inj,
    c.toNat_itvField, c'.toNat_itvField]

/-- **When nothing is divided by zero**, in any two consecutive cycles of any run. -/
theorem never_divides_by_zero_iff {conf : Conf} {cpuFd : List PCFile}
    {cs before after : List PtopCycle} {s : PtopState} {d d' : PtopCycle}
    (h : PtopRun conf cpuFd cs s) (hcs : cs = before ++ d :: d' :: after) {c c' : StatsCpu}
    (hstat : d.input.stat = some (some c)) (hstat' : d'.input.stat = some (some c')) :
    NeverDividesByZero d'.output ↔ IntervalsNonzero d' c c' := by
  subst hcs
  have hformed := run_intervalsFormed h hstat hstat'
  have hrows : d'.output.rows ≠ [] ↔ ∃ n ∈ d'.output.sampled.preorder,
      Active (cycleArgs d'.input d'.pre d'.output) n.toPidEntry := by
    have hmem : d' ∈ before ++ d :: d' :: after := by simp
    obtain ⟨-, hfacts⟩ := run_cycle h hmem
    rw [hfacts.rows, Ne, List.filterMap_eq_nil_iff]
    push Not
    refine exists_congr fun n => and_congr_right fun _ => ?_
    rw [rowOf]
    split <;> rename_i hact
    · exact ⟨fun _ => hact, fun _ => Option.some_ne_none _⟩
    · exact ⟨fun hnone => absurd rfl hnone, fun hact' => absurd hact' hact⟩
  rw [IntervalsNonzero, ← hrows, ← hformed.itv_pos_iff, ← hformed.rowItv_pos_iff]
  constructor
  · rintro ⟨hwrite, hquery⟩
    exact ⟨hwrite, hquery⟩
  · rintro ⟨hwrite, hquery⟩
    exact ⟨hwrite, hquery⟩

/-- Two cycles: in the first the machine has been busy for 100 jiffies, in the second for
`busy`, and the process has run for 30 in between. -/
def backToBack (busy : u64) : List CycleInput :=
  [plainCycle 100 [resident] fun _ => plainFiles { utime := 30 } {},
    plainCycle busy [resident] fun _ => plainFiles { utime := 60 } {}]

theorem exists_backToBack_run (busy : u64) (P : CycleOutput → Prop) [DecidablePred P]
    (h : (match trace (mainLoop {}) (systemInit []) (backToBack busy) with
      | .ok cs => decide (∀ c ∈ cs.drop 1, P c.output)
      | .error _ => false) = true) :
    ∃ d d' s, PtopRun {} [] [d, d'] s ∧ d.input.stat = some (some { cpuUser := 100 }) ∧
      d'.input.stat = some (some { cpuUser := busy }) ∧ P d'.output := by
  obtain ⟨cs, s, hrun, hinput, hP⟩ := exists_run_of_trace (mainLoop {}) (systemInit [])
    (backToBack busy) (fun cs => ∀ c ∈ cs.drop 1, P c.output) h
  obtain ⟨d, d', rfl, hd, hd'⟩ := eq_pair_of_inputs hinput
  exact ⟨d, d', s, hrun, congrArg CycleInput.stat hd, congrArg CycleInput.stat hd',
    hP d' (List.mem_singleton_self d')⟩

theorem never_divides_by_zero_iff_later :
    ∃ d d' s, PtopRun {} [] [d, d'] s ∧ d.input.stat = some (some { cpuUser := 100 }) ∧
      d'.input.stat = some (some { cpuUser := 200 }) ∧
      (NeverDividesByZero d'.output ↔
        IntervalsNonzero d' { cpuUser := 100 } { cpuUser := 200 }) := by
  obtain ⟨d, d', s, hrun, hd, hd', -⟩ := exists_backToBack_run 200 (fun _ => True)
    (by decide +kernel)
  have hcs : [d, d'] = [] ++ d :: d' :: [] := rfl
  exact ⟨d, d', s, hrun, hd, hd', never_divides_by_zero_iff hrun hcs hd hd'⟩

/-- A row is written, and its percentages are infinite. -/
theorem zero_interval_divides :
    ∃ d d' s, PtopRun {} [] [d, d'] s ∧ d.input.stat = some (some { cpuUser := 100 }) ∧
      d'.input.stat = some (some { cpuUser := 100 }) ∧ d'.output.rows ≠ [] ∧
      d'.output.itv = 0 ∧ (∀ r ∈ d'.output.rows, r.cpu = .inf false) ∧
      atoiU32 d'.output.sysRow.toRow.itv = 0 ∧ ¬ NeverDividesByZero d'.output := by
  obtain ⟨d, d', s, hrun, hd, hd', hout⟩ := exists_backToBack_run 100
    (fun out => out.rows ≠ [] ∧ out.itv = 0 ∧ (∀ r ∈ out.rows, r.cpu = .inf false) ∧
      atoiU32 out.sysRow.toRow.itv = 0 ∧ ¬ NeverDividesByZero out) (by decide +kernel)
  exact ⟨d, d', s, hrun, hd, hd', hout⟩

end PTop
