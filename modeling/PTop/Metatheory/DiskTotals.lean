import PTop.Metatheory.CounterRuns
import PTop.Metatheory.CycleRows
import Mathlib.Algebra.BigOperators.Group.List.Basic
import Mathlib.Algebra.Order.BigOperators.Group.List
import Mathlib.Tactic.Ring

/-!
# The disk totals of the machine against the rows of the processes

`write_stat` forms the totals from 32-bit differences of the truncated counters
and the rows from 64-bit differences, which it stores as floats; and only the rows
clamp what was cancelled. Both are sums over the processes reported, so they are
compared process by process.
-/

namespace PTop

open Framework Framework.HTree AvlTree

/-! ## What one process contributes -/

section Contribution

variable (a : WriteArgs)

/-- How far a counter of a process has come since the previous sample. -/
def advance (f : PidStats → u64) (e : PidEntry) : ℕ := (f (e.curr a)).toNat - (f (e.prev a)).toNat

/-- A counter that did not decrease and advanced by less than `2 ^ 32`. -/
structure Advances (f : PidStats → u64) (e : PidEntry) : Prop where
  mono : f (e.prev a) ≤ f (e.curr a)
  lt : advance a f e < 2 ^ 32

/-- The counter went past a multiple of `2 ^ 32`. -/
def Crosses (f : PidStats → u64) (e : PidEntry) : Prop :=
  Wraps 32 (f (e.prev a)).toNat (advance a f e)

instance (f : PidStats → u64) (e : PidEntry) : Decidable (Crosses a f e) :=
  inferInstanceAs (Decidable (Wraps ..))

/-- The disk counters of a process all advance. -/
structure DiskAdvances (e : PidEntry) : Prop where
  read : Advances a PidStats.readBytes e
  write : Advances a PidStats.writeBytes e
  cancelled : Advances a PidStats.cancelledWriteBytes e

/-- The 32-bit differences `write_stat` adds to the totals. -/
def read32 (e : PidEntry) : u32 :=
  subcount ((e.curr a).readBytes.setWidth 32) ((e.prev a).readBytes.setWidth 32)

def write32 (e : PidEntry) : u32 :=
  subcount ((e.curr a).writeBytes.setWidth 32) ((e.prev a).writeBytes.setWidth 32) -
    subcount ((e.curr a).cancelledWriteBytes.setWidth 32)
      ((e.prev a).cancelledWriteBytes.setWidth 32)

instance (f : PidStats → u64) (e : PidEntry) : Decidable (Advances a f e) :=
  decidable_of_iff (f (e.prev a) ≤ f (e.curr a) ∧ advance a f e < 2 ^ 32)
    ⟨fun h => ⟨h.1, h.2⟩, fun h => ⟨h.mono, h.lt⟩⟩

instance (e : PidEntry) : Decidable (DiskAdvances a e) :=
  decidable_of_iff (Advances a PidStats.readBytes e ∧ Advances a PidStats.writeBytes e ∧
      Advances a PidStats.cancelledWriteBytes e)
    ⟨fun h => ⟨h.1, h.2.1, h.2.2⟩, fun h => ⟨h.read, h.write, h.cancelled⟩⟩

/-- What was written reaches the total as it reaches the row: no more was cancelled,
neither or both counters crossed, and the floats lose the same of both; or the row
shows none, and so does the total because a crossing of one counter makes up for
the bytes by which the other is ahead. -/
def WriteExact (conf : Conf) (e : PidEntry) : Prop :=
  let written := advance a PidStats.writeBytes e
  let cancelled := advance a PidStats.cancelledWriteBytes e
  (cancelled ≤ written ∧
      (Crosses a PidStats.writeBytes e ↔ Crosses a PidStats.cancelledWriteBytes e) ∧
      conf.float written - conf.float cancelled = written - cancelled) ∨
    (cancelled = written + MAXU32VAL.toNat ∧ Crosses a PidStats.writeBytes e ∧
      ¬ Crosses a PidStats.cancelledWriteBytes e) ∨
    (cancelled + MAXU32VAL.toNat = written + 2 ^ 32 ∧ ¬ Crosses a PidStats.writeBytes e ∧
      Crosses a PidStats.cancelledWriteBytes e)

/-- What was read reaches the total as it reaches the row: the counter has not crossed,
and a float holds its advance. -/
def ReadExact (conf : Conf) (e : PidEntry) : Prop :=
  ¬ Crosses a PidStats.readBytes e ∧
    conf.float (advance a PidStats.readBytes e) = advance a PidStats.readBytes e

instance (conf : Conf) (e : PidEntry) : Decidable (ReadExact a conf e) :=
  inferInstanceAs (Decidable (_ ∧ _))

instance (conf : Conf) (e : PidEntry) : Decidable (WriteExact a conf e) :=
  inferInstanceAs (Decidable ((_ ∧ (_ ↔ _) ∧ _) ∨ (_ ∧ _) ∨ (_ ∧ _)))

/-- The disk figures of a process are the same in the totals and in its row. -/
structure DiskExact (conf : Conf) (e : PidEntry) : Prop where
  read : ReadExact a conf e
  write : WriteExact a conf e

instance (conf : Conf) (e : PidEntry) : Decidable (DiskExact a conf e) :=
  decidable_of_iff (ReadExact a conf e ∧ WriteExact a conf e)
    ⟨fun h => ⟨h.1, h.2⟩, fun h => ⟨h.read, h.write⟩⟩

variable {a} {f : PidStats → u64} {e : PidEntry}

theorem setWidth_eq_reading (x : u64) : x.setWidth 32 = reading 32 x.toNat :=
  (BitVec.ofNat_toNat 32 x).symm

theorem Advances.toNat_curr (h : Advances a f e) :
    (f (e.curr a)).toNat = (f (e.prev a)).toNat + advance a f e := by
  have := BitVec.le_def.mp h.mono
  unfold advance
  omega

theorem Advances.toNat_subcount (h : Advances a f e) :
    (subcount ((f (e.curr a)).setWidth 32) ((f (e.prev a)).setWidth 32)).toNat =
      if Crosses a f e then (0x11111111 + advance a f e) % 2 ^ 32 else advance a f e := by
  rw [setWidth_eq_reading, setWidth_eq_reading, h.toNat_curr]
  exact toNat_subcountWith_reading MAXU32VAL h.lt

theorem Advances.toNat_u64Subcount (h : Advances a f e) :
    (u64Subcount (f (e.curr a)) (f (e.prev a))).toNat = advance a f e :=
  toNat_subcountWith_of_le MAXU64VAL h.mono

/-- The row of a process has what it read, as a float. -/
theorem activeRow_readBytes (conf : Conf) (h : DiskAdvances a e) :
    (activeRow conf a e).readBytes.toRat = conf.float (advance a PidStats.readBytes e) :=
  congrArg (fun n : ℕ => conf.float n) h.read.toNat_u64Subcount

/-- The row of a process has what it wrote, as floats clamped at zero. -/
theorem activeRow_written (conf : Conf) (h : DiskAdvances a e) :
    (activeRow conf a e).writeBytes.toRat - (activeRow conf a e).cancelledWriteBytes.toRat =
      max (conf.float (advance a PidStats.writeBytes e) -
        conf.float (advance a PidStats.cancelledWriteBytes e)) 0 := by
  have hw := h.write.toNat_u64Subcount
  have hc := h.cancelled.toNat_u64Subcount
  simp only [activeRow, processRow, clampSample, Conf.stored, hw, hc, gt_iff_lt,
    XFloat.fin_lt_fin]
  by_cases hlt : conf.float (advance a PidStats.writeBytes e) <
      conf.float (advance a PidStats.cancelledWriteBytes e)
  · rw [if_pos hlt, max_eq_right (sub_nonpos.mpr hlt.le), sub_self]
  · rw [if_neg hlt, max_eq_left (sub_nonneg.mpr (not_lt.mp hlt))]
    rfl

theorem toNat_read32 (h : DiskAdvances a e) : (read32 a e).toNat =
    if Crosses a PidStats.readBytes e then (0x11111111 + advance a PidStats.readBytes e) % 2 ^ 32
    else advance a PidStats.readBytes e := h.read.toNat_subcount

/-- What a float loses of a 32-bit number. -/
theorem single_error {n : ℕ} (h : n < 2 ^ 32) :
    (n : ℚ) - 256 < Rounding.single n ∧ Rounding.single n < (n : ℚ) + 256 := by
  have hbounds := Rounding.single_within.bounds n (Nat.cast_nonneg n)
  have hn : (n : ℚ) < 2 ^ 32 := by exact_mod_cast h
  constructor <;> linarith [hbounds.1, hbounds.2]

/-- **One process, reading.** The error of a crossing is larger than that of a float. -/
theorem read32_eq_iff (conf : Conf) (h : DiskAdvances a e) :
    ((read32 a e).toNat : ℚ) = (activeRow conf.single a e).readBytes.toRat ↔
      ReadExact a conf.single e := by
  obtain ⟨hlow, hhigh⟩ := single_error h.read.lt
  rw [activeRow_readBytes _ h, toNat_read32 h, ReadExact]
  have hlt := h.read.lt
  show _ = Rounding.single _ ↔ _ ∧ Rounding.single _ = _
  generalize advance a PidStats.readBytes e = d at *
  split
  · rename_i hc
    refine iff_of_false (fun heq => ?_) fun hexact => hexact.1 hc
    -- in integers the two are far apart
    have hfar : d + 256 ≤ (0x11111111 + d) % 2 ^ 32 ∨ (0x11111111 + d) % 2 ^ 32 + 256 ≤ d := by
      omega
    rw [← heq] at hlow hhigh
    rcases hfar with hfar | hfar
    · have : (d : ℚ) + 256 ≤ ((0x11111111 + d) % 2 ^ 32 : ℕ) := by exact_mod_cast hfar
      linarith
    · have : (((0x11111111 + d) % 2 ^ 32 : ℕ) : ℚ) + 256 ≤ d := by exact_mod_cast hfar
      linarith
  · rename_i hc
    rw [and_iff_right hc, eq_comm]

/-- The 32-bit difference of the writes, by the crossings. -/
theorem write32_cases (h : DiskAdvances a e) {w c : ℕ} (hw : advance a PidStats.writeBytes e = w)
    (hc : advance a PidStats.cancelledWriteBytes e = c) :
    (c ≤ w → (Crosses a PidStats.writeBytes e ↔ Crosses a PidStats.cancelledWriteBytes e) →
        (write32 a e).toNat = w - c) ∧
      (c ≤ w → ¬ (Crosses a PidStats.writeBytes e ↔ Crosses a PidStats.cancelledWriteBytes e) →
        (write32 a e).toNat + 512 ≤ w - c ∨ w - c + 512 ≤ (write32 a e).toNat) ∧
      (w < c → ((write32 a e).toNat = 0 ↔
        (c = w + MAXU32VAL.toNat ∧ Crosses a PidStats.writeBytes e ∧
            ¬ Crosses a PidStats.cancelledWriteBytes e) ∨
          (c + MAXU32VAL.toNat = w + 2 ^ 32 ∧ ¬ Crosses a PidStats.writeBytes e ∧
            Crosses a PidStats.cancelledWriteBytes e))) := by
  have hwlt := h.write.lt
  have hclt := h.cancelled.lt
  have hM : MAXU32VAL.toNat = 0x11111111 := rfl
  rw [write32, BitVec.toNat_sub, h.write.toNat_subcount, h.cancelled.toNat_subcount, hM]
  rw [hw] at hwlt ⊢
  rw [hc] at hclt ⊢
  by_cases hcw : Crosses a PidStats.writeBytes e <;>
    by_cases hcc : Crosses a PidStats.cancelledWriteBytes e <;>
    simp only [hcw, hcc, if_true, if_false, not_true, not_false_iff, iff_self, and_true, and_false,
      or_false, false_or, iff_false, iff_true, true_implies, false_implies, implies_true,
      true_and] <;> omega

/-- **One process, writing.** Where the crossings differ the error is larger than that of
the floats, unless the row shows zero. -/
theorem write32_eq_iff (conf : Conf) (h : DiskAdvances a e) :
    ((write32 a e).toNat : ℚ) = (activeRow conf.single a e).writeBytes.toRat -
        (activeRow conf.single a e).cancelledWriteBytes.toRat ↔ WriteExact a conf.single e := by
  obtain ⟨hwlow, hwhigh⟩ := single_error h.write.lt
  obtain ⟨hclow, hchigh⟩ := single_error h.cancelled.lt
  have hcases := write32_cases h rfl rfl
  rw [activeRow_written _ h, WriteExact]
  show _ = max (Rounding.single _ - Rounding.single _) 0 ↔ (_ ∧ _ ∧ Rounding.single _ -
    Rounding.single _ = _) ∨ _ ∨ _
  generalize advance a PidStats.writeBytes e = w at *
  generalize advance a PidStats.cancelledWriteBytes e = c at *
  obtain ⟨hsame, hfar, hnone⟩ := hcases
  rcases Nat.lt_or_ge w c with hlt | hle
  · -- the row shows zero
    have hmono : Rounding.single w ≤ Rounding.single c :=
      Rounding.single.mono (by exact_mod_cast hlt.le)
    rw [max_eq_right (sub_nonpos.mpr hmono), Nat.cast_eq_zero, hnone hlt]
    exact (or_iff_right fun hfirst => absurd hfirst.1 (Nat.not_le.mpr hlt)).symm
  · have hmono : Rounding.single c ≤ Rounding.single w :=
      Rounding.single.mono (by exact_mod_cast hle)
    have hM : 0 < MAXU32VAL.toNat ∧ MAXU32VAL.toNat < 2 ^ 32 := by decide
    rw [max_eq_left (sub_nonneg.mpr hmono),
      or_iff_left (by rintro (⟨heq, -⟩ | ⟨heq, -⟩) <;> omega), and_iff_right hle]
    by_cases hcross : Crosses a PidStats.writeBytes e ↔ Crosses a PidStats.cancelledWriteBytes e
    · rw [hsame hle hcross, Nat.cast_sub hle, and_iff_right hcross, eq_comm]
    · refine iff_of_false (fun heq => ?_) fun hexact => hcross hexact.1
      rcases hfar hle hcross with hfar | hfar
      · have hfar : ((write32 a e).toNat : ℚ) + 512 ≤ w - c := by
          rw [← Nat.cast_sub hle]
          exact_mod_cast hfar
        linarith
      · have hfar : (w : ℚ) - c + 512 ≤ (write32 a e).toNat := by
          rw [← Nat.cast_sub hle]
          exact_mod_cast hfar
        linarith

end Contribution

/-! ## Errors at crossings cannot cancel -/

section ReadErrors

variable {a : WriteArgs}

variable (a) in
/-- The error of a process in `totaldiskread`. -/
def readError (e : PidEntry) : ℤ :=
  if Crosses a PidStats.readBytes e then
    ((0x11111111 + advance a PidStats.readBytes e) % 2 ^ 32 : ℕ) - advance a PidStats.readBytes e
  else 0

/-- The contribution to `totaldiskread`, with its error. -/
theorem toNat_read32_eq_add {e : PidEntry} (h : DiskAdvances a e) :
    ((read32 a e).toNat : ℤ) = advance a PidStats.readBytes e + readError a e := by
  rw [toNat_read32 h, readError]
  split <;> omega

/-- The error of a crossing is one of two numbers, by the size of the advance. -/
theorem readError_cases {e : PidEntry} (h : Advances a PidStats.readBytes e) :
    (¬ Crosses a PidStats.readBytes e ∧ readError a e = 0) ∨
    (Crosses a PidStats.readBytes e ∧ readError a e = 0x11111111) ∨
    (Crosses a PidStats.readBytes e ∧ readError a e = 0x11111111 - 2 ^ 32) := by
  have hlt := h.lt
  unfold readError
  by_cases hc : Crosses a PidStats.readBytes e
  · rw [if_pos hc]
    by_cases hshort : 0x11111111 + advance a PidStats.readBytes e < 2 ^ 32
    · exact Or.inr (Or.inl ⟨hc, by omega⟩)
    · exact Or.inr (Or.inr ⟨hc, by omega⟩)
  · exact Or.inl ⟨hc, if_neg hc⟩

/-- The errors of a list of processes, counted by size. -/
theorem sum_readError : ∀ {l : List AvlNode},
    (∀ n ∈ l, Advances a PidStats.readBytes n.toPidEntry) →
      ∃ j k : ℕ, (l.map fun n => readError a n.toPidEntry).sum =
          0x11111111 * j - (2 ^ 32 - 0x11111111) * k ∧ j + k ≤ l.length ∧
        (j + k = 0 ↔ ∀ n ∈ l, ¬ Crosses a PidStats.readBytes n.toPidEntry)
  | [], _ => ⟨0, 0, by simp⟩
  | n :: l, h => by
      obtain ⟨j, k, hsum, hlen, hzero⟩ := sum_readError fun m hm => h m (List.mem_cons_of_mem _ hm)
      simp only [List.map_cons, List.sum_cons, List.length_cons, List.forall_mem_cons, ← hzero]
      rcases readError_cases (h n List.mem_cons_self) with ⟨hc, he⟩ | ⟨hc, he⟩ | ⟨hc, he⟩
      · exact ⟨j, k, by omega, by omega, by simp [hc]⟩
      · exact ⟨j + 1, k, by omega, by omega, by simp [hc]⟩
      · exact ⟨j, k + 1, by omega, by omega, by simp [hc]⟩

/-- **With fewer than `2 ^ 32` processes, the errors add up to zero only if
there are none.** -/
theorem sum_readError_eq_zero_iff {l : List AvlNode}
    (h : ∀ n ∈ l, Advances a PidStats.readBytes n.toPidEntry) (hlen : l.length < 2 ^ 32) :
    (l.map fun n => readError a n.toPidEntry).sum = 0 ↔
      ∀ n ∈ l, ¬ Crosses a PidStats.readBytes n.toPidEntry := by
  obtain ⟨j, k, hsum, hjk, hzero⟩ := sum_readError h
  rw [hsum, ← hzero]
  constructor
  · intro h0
    have hcancel : MAXU32VAL.toNat * j = (2 ^ 32 - MAXU32VAL.toNat) * k := by
      have hM : MAXU32VAL.toNat = 0x11111111 := rfl
      rw [hM]
      omega
    exact Nat.eq_zero_of_dvd_of_lt (dvd_of_errors_cancel coprime_MAXU32VAL hcancel) (by omega)
  · intro h0
    obtain ⟨rfl, rfl⟩ := Nat.add_eq_zero_iff.mp h0
    rfl

end ReadErrors

/-! ## The totals of a cycle -/

section Totals

variable {conf : Conf} {inp : CycleInput} {s s' : PtopState} {out : CycleOutput}

/-- A total of 32-bit contributions does not overflow. -/
theorem CycleFacts.toNat_total (h : CycleFacts conf inp s s' out) (hs : StateOk s)
    (share : PidEntry → u32) :
    (out.sampled.preorder.map fun n =>
        if Active (cycleArgs inp s out) n.toPidEntry then (share n.toPidEntry).setWidth 64
        else (0 : u64)).sum.toNat =
      ((activeNodes (cycleArgs inp s out) out.sampled).map fun n =>
        (share n.toPidEntry).toNat).sum := by
  have hmap : ((out.sampled.preorder.map fun n =>
      if Active (cycleArgs inp s out) n.toPidEntry then (share n.toPidEntry).setWidth 64
      else (0 : u64)).map BitVec.toNat).sum =
      ((activeNodes (cycleArgs inp s out) out.sampled).map fun n =>
        (share n.toPidEntry).toNat).sum := by
    rw [activeNodes, sum_map_filter, List.map_map]
    congr 1
    apply List.map_congr_left
    intro n _
    simp only [Function.comp_apply, decide_eq_true_eq]
    split
    · rw [BitVec.toNat_setWidth, Nat.mod_eq_of_lt ((share _).isLt.trans (by decide))]
    · rfl
  -- fewer than `2 ^ 32` contributions below `2 ^ 32`: the 64-bit sum is exact
  have hbound := List.sum_le_card_nsmul
    ((activeNodes (cycleArgs inp s out) out.sampled).map fun n => (share n.toPidEntry).toNat)
    (2 ^ 32) (by
      intro x hx
      obtain ⟨n, -, rfl⟩ := List.mem_map.mp hx
      exact (share n.toPidEntry).isLt.le)
  have hlen := h.length_activeNodes hs
  rw [toNat_sum, hmap]
  rw [hmap]
  rw [List.length_map, nsmul_eq_mul, Nat.cast_id] at hbound
  omega

/-- The totals of a cycle are those of its rows, exactly. -/
structure DiskTotalsExact (out : CycleOutput) : Prop where
  read : (out.sysRow.totaldiskread.toNat : ℚ) = (out.rows.map fun r => r.readBytes.toRat).sum
  write : (out.sysRow.totaldiskwrite.toNat : ℚ) =
    (out.rows.map fun r => r.writeBytes.toRat - r.cancelledWriteBytes.toRat).sum

instance (out : CycleOutput) : Decidable (DiskTotalsExact out) :=
  decidable_of_iff
    ((out.sysRow.totaldiskread.toNat : ℚ) = (out.rows.map fun r => r.readBytes.toRat).sum ∧
      (out.sysRow.totaldiskwrite.toNat : ℚ) =
        (out.rows.map fun r => r.writeBytes.toRat - r.cancelledWriteBytes.toRat).sum)
    ⟨fun h => ⟨h.1, h.2⟩, fun h => ⟨h.read, h.write⟩⟩

/-- **The two totals, process by process.** -/
theorem CycleFacts.diskTotals (h : CycleFacts conf inp s s' out) (hs : StateOk s) :
    (out.sysRow.totaldiskread.toNat : ℚ) =
        ((activeNodes (cycleArgs inp s out) out.sampled).map fun n =>
          ((read32 (cycleArgs inp s out) n.toPidEntry).toNat : ℚ)).sum ∧
      (out.sysRow.totaldiskwrite.toNat : ℚ) =
        ((activeNodes (cycleArgs inp s out) out.sampled).map fun n =>
          ((write32 (cycleArgs inp s out) n.toPidEntry).toNat : ℚ)).sum := by
  have hread : out.sysRow.totaldiskread.toNat =
      ((activeNodes (cycleArgs inp s out) out.sampled).map fun n =>
        (read32 (cycleArgs inp s out) n.toPidEntry).toNat).sum := by
    rw [h.totaldiskread]
    exact h.toNat_total hs (read32 (cycleArgs inp s out))
  have hwrite : out.sysRow.totaldiskwrite.toNat =
      ((activeNodes (cycleArgs inp s out) out.sampled).map fun n =>
        (write32 (cycleArgs inp s out) n.toPidEntry).toNat).sum := by
    rw [h.totaldiskwrite]
    exact h.toNat_total hs (write32 (cycleArgs inp s out))
  rw [hread, hwrite]
  exact ⟨(sum_map_hom (Nat.castAddMonoidHom ℚ) fun _ _ => rfl).symm,
    (sum_map_hom (Nat.castAddMonoidHom ℚ) fun _ _ => rfl).symm⟩

/-- The totals are exact iff the two sums over the reported processes are equal. -/
theorem CycleFacts.diskTotalsExact_iff (h : CycleFacts conf inp s s' out) (hs : StateOk s) :
    DiskTotalsExact out ↔
      ((activeNodes (cycleArgs inp s out) out.sampled).map fun n =>
          ((read32 (cycleArgs inp s out) n.toPidEntry).toNat : ℚ)).sum =
        ((activeNodes (cycleArgs inp s out) out.sampled).map fun n =>
          (activeRow conf (cycleArgs inp s out) n.toPidEntry).readBytes.toRat).sum ∧
      ((activeNodes (cycleArgs inp s out) out.sampled).map fun n =>
          ((write32 (cycleArgs inp s out) n.toPidEntry).toNat : ℚ)).sum =
        ((activeNodes (cycleArgs inp s out) out.sampled).map fun n =>
          (activeRow conf (cycleArgs inp s out) n.toPidEntry).writeBytes.toRat -
            (activeRow conf (cycleArgs inp s out) n.toPidEntry).cancelledWriteBytes.toRat).sum := by
  obtain ⟨hread, hwrite⟩ := h.diskTotals hs
  rw [← hread, ← hwrite]
  constructor
  · intro hexact
    rw [hexact.read, hexact.write, h.rows_eq_map, List.map_map, List.map_map]
    exact ⟨rfl, rfl⟩
  · rintro ⟨hr, hw⟩
    constructor
    · rw [hr, h.rows_eq_map, List.map_map]
      rfl
    · rw [hw, h.rows_eq_map, List.map_map]
      rfl

end Totals

section Main

variable {conf : Conf} {inp : CycleInput} {s s' : PtopState} {out : CycleOutput}

/-- With each process the same in both, so are the sums. -/
theorem CycleFacts.diskTotalsExact_of_forall (h : CycleFacts conf.single inp s s' out)
    (hs : StateOk s) (hadv : ∀ n ∈ activeNodes (cycleArgs inp s out) out.sampled,
      DiskAdvances (cycleArgs inp s out) n.toPidEntry)
    (hall : ∀ n ∈ activeNodes (cycleArgs inp s out) out.sampled,
      DiskExact (cycleArgs inp s out) conf.single n.toPidEntry) : DiskTotalsExact out := by
  refine (h.diskTotalsExact_iff hs).mpr ⟨?_, ?_⟩
  · exact congrArg List.sum (List.map_congr_left fun n hn =>
      (read32_eq_iff conf (hadv n hn)).mpr (hall n hn).read)
  · exact congrArg List.sum (List.map_congr_left fun n hn =>
      (write32_eq_iff conf (hadv n hn)).mpr (hall n hn).write)

/-- One process that differs is not made up for. -/
theorem CycleFacts.diskExact_of_totalsExact (h : CycleFacts conf.single inp s s' out)
    (hs : StateOk s) (hadv : ∀ n ∈ activeNodes (cycleArgs inp s out) out.sampled,
      DiskAdvances (cycleArgs inp s out) n.toPidEntry)
    (hone : (activeNodes (cycleArgs inp s out) out.sampled).countP (fun n =>
      ¬ DiskExact (cycleArgs inp s out) conf.single n.toPidEntry) ≤ 1)
    (hexact : DiskTotalsExact out) : ∀ n ∈ activeNodes (cycleArgs inp s out) out.sampled,
      DiskExact (cycleArgs inp s out) conf.single n.toPidEntry := by
  obtain ⟨hread, hwrite⟩ := (h.diskTotalsExact_iff hs).mp hexact
  have hreads := (sum_map_eq_iff_of_countP_le_one (p := fun n : AvlNode =>
      ReadExact (cycleArgs inp s out) conf.single n.toPidEntry)
    (fun n hn => (read32_eq_iff conf (hadv n hn)).symm)
    ((countP_not_le (fun _ h => h.read) _).trans hone)).mp hread
  have hwrites := (sum_map_eq_iff_of_countP_le_one (p := fun n : AvlNode =>
      WriteExact (cycleArgs inp s out) conf.single n.toPidEntry)
    (fun n hn => (write32_eq_iff conf (hadv n hn)).symm)
    ((countP_not_le (fun _ h => h.write) _).trans hone)).mp hwrite
  exact fun n hn => ⟨hreads n hn, hwrites n hn⟩

/-- Where the floats hold what was read, no error of a crossing makes up for another. -/
theorem CycleFacts.diskread_eq_iff (h : CycleFacts conf.single inp s s' out) (hs : StateOk s)
    (hadv : ∀ n ∈ activeNodes (cycleArgs inp s out) out.sampled,
      DiskAdvances (cycleArgs inp s out) n.toPidEntry)
    (hfits : ∀ n ∈ activeNodes (cycleArgs inp s out) out.sampled, Rounding.single
      (advance (cycleArgs inp s out) PidStats.readBytes n.toPidEntry) =
        advance (cycleArgs inp s out) PidStats.readBytes n.toPidEntry) :
    (out.sysRow.totaldiskread.toNat : ℚ) = (out.rows.map fun r => r.readBytes.toRat).sum ↔
      ∀ n ∈ activeNodes (cycleArgs inp s out) out.sampled,
        ¬ Crosses (cycleArgs inp s out) PidStats.readBytes n.toPidEntry := by
  have hrows : (out.rows.map fun r => r.readBytes.toRat).sum =
      ((activeNodes (cycleArgs inp s out) out.sampled).map fun n =>
        (advance (cycleArgs inp s out) PidStats.readBytes n.toPidEntry : ℚ)).sum := by
    rw [h.rows_eq_map, List.map_map]
    refine congrArg List.sum (List.map_congr_left fun n hn => ?_)
    exact (activeRow_readBytes conf.single (hadv n hn)).trans (hfits n hn)
  have htotal : (out.sysRow.totaldiskread.toNat : ℚ) =
      ((activeNodes (cycleArgs inp s out) out.sampled).map fun n =>
        (advance (cycleArgs inp s out) PidStats.readBytes n.toPidEntry : ℚ)).sum +
      (((activeNodes (cycleArgs inp s out) out.sampled).map fun n =>
        readError (cycleArgs inp s out) n.toPidEntry).sum : ℤ) := by
    have herror : ((((activeNodes (cycleArgs inp s out) out.sampled).map fun n =>
        readError (cycleArgs inp s out) n.toPidEntry).sum : ℤ) : ℚ) =
        ((activeNodes (cycleArgs inp s out) out.sampled).map fun n =>
          (readError (cycleArgs inp s out) n.toPidEntry : ℚ)).sum :=
      (sum_map_hom (Int.castAddHom ℚ) fun _ _ => rfl).symm
    rw [(h.diskTotals hs).1, herror, ← List.sum_map_add]
    refine congrArg List.sum (List.map_congr_left fun n hn => ?_)
    exact_mod_cast congrArg (fun z : ℤ => (z : ℚ)) (toNat_read32_eq_add (hadv n hn))
  rw [htotal, hrows, add_eq_left, Int.cast_eq_zero,
    sum_readError_eq_zero_iff (fun n hn => (hadv n hn).read) (h.length_activeNodes hs)]

end Main

section Totals

variable {conf : Conf} {s : PtopState}

/-- **When the totals are those of the rows.** In every cycle in which the disk counters
of the reported processes advance by less than `2 ^ 32`: if each process is the same in
both; and only then if at most one is not. Where the floats hold what was read, the
total read is exact iff no process has crossed a multiple of `2 ^ 32`. -/
theorem disk_totals_exact_iff {cpuFd : List PCFile} {cs : List PtopCycle}
    (h : PtopRun conf.single cpuFd cs s) {c : PtopCycle} (hc : c ∈ cs)
    (hadv : ∀ n ∈ activeNodes (cycleArgs c.input c.pre c.output) c.output.sampled,
      DiskAdvances (cycleArgs c.input c.pre c.output) n.toPidEntry) :
    ((∀ n ∈ activeNodes (cycleArgs c.input c.pre c.output) c.output.sampled,
        DiskExact (cycleArgs c.input c.pre c.output) conf.single n.toPidEntry) →
      DiskTotalsExact c.output) ∧
    ((activeNodes (cycleArgs c.input c.pre c.output) c.output.sampled).countP (fun n =>
        ¬ DiskExact (cycleArgs c.input c.pre c.output) conf.single n.toPidEntry) ≤ 1 →
      (DiskTotalsExact c.output ↔
        ∀ n ∈ activeNodes (cycleArgs c.input c.pre c.output) c.output.sampled,
          DiskExact (cycleArgs c.input c.pre c.output) conf.single n.toPidEntry)) ∧
    ((∀ n ∈ activeNodes (cycleArgs c.input c.pre c.output) c.output.sampled, Rounding.single
        (advance (cycleArgs c.input c.pre c.output) PidStats.readBytes n.toPidEntry) =
          advance (cycleArgs c.input c.pre c.output) PidStats.readBytes n.toPidEntry) →
      ((c.output.sysRow.totaldiskread.toNat : ℚ) =
          (c.output.rows.map fun r => r.readBytes.toRat).sum ↔
        ∀ n ∈ activeNodes (cycleArgs c.input c.pre c.output) c.output.sampled,
          ¬ Crosses (cycleArgs c.input c.pre c.output) PidStats.readBytes n.toPidEntry)) := by
  obtain ⟨hs, hf⟩ := run_cycle h hc
  refine ⟨hf.diskTotalsExact_of_forall hs hadv, ?_, hf.diskread_eq_iff hs hadv⟩
  intro hone
  exact ⟨hf.diskExact_of_totalsExact hs hadv hone, hf.diskTotalsExact_of_forall hs hadv⟩

/-- A process that has read 256 bytes less than `2 ^ 32` and then reads 258 more. -/
def crossing : List CycleInput :=
  [plainCycle 100 [resident] fun _ => plainFiles { utime := 1 } { readBytes := 0xFFFFFF00 },
    plainCycle 200 [resident] fun _ => plainFiles { utime := 2 } { readBytes := 0x100000002 }]

/-- The cycles of that run with what the two theorems ask of them. -/
theorem exists_crossing_run :
    ∃ c₁ c₂ s, PtopRun (Conf.single {}) [] [c₁, c₂] s ∧
      [c₁, c₂].map Transition.input = crossing ∧
      (∀ c ∈ [c₁, c₂], ∀ n ∈ activeNodes (cycleArgs c.input c.pre c.output) c.output.sampled,
        DiskAdvances (cycleArgs c.input c.pre c.output) n.toPidEntry) ∧
      (∀ n ∈ activeNodes (cycleArgs c₁.input c₁.pre c₁.output) c₁.output.sampled,
        DiskExact (cycleArgs c₁.input c₁.pre c₁.output) (Conf.single {}) n.toPidEntry) ∧
      (activeNodes (cycleArgs c₂.input c₂.pre c₂.output) c₂.output.sampled).countP (fun n =>
        ¬ DiskExact (cycleArgs c₂.input c₂.pre c₂.output) (Conf.single {}) n.toPidEntry) = 1 := by
  obtain ⟨cs, s, hrun, hinput, hlen, hadv, hfirst, hsecond⟩ := exists_run_of_trace
    (mainLoop (Conf.single {})) (systemInit []) crossing
    (fun cs => cs.length = 2 ∧
      (∀ c ∈ cs, ∀ n ∈ activeNodes (cycleArgs c.input c.pre c.output) c.output.sampled,
        DiskAdvances (cycleArgs c.input c.pre c.output) n.toPidEntry) ∧
      (∀ c ∈ cs[0]?, ∀ n ∈ activeNodes (cycleArgs c.input c.pre c.output) c.output.sampled,
        DiskExact (cycleArgs c.input c.pre c.output) (Conf.single {}) n.toPidEntry) ∧
      ∀ c ∈ cs[1]?, (activeNodes (cycleArgs c.input c.pre c.output) c.output.sampled).countP
        (fun n => ¬ DiskExact (cycleArgs c.input c.pre c.output) (Conf.single {})
          n.toPidEntry) = 1) (by decide +kernel)
  obtain ⟨c₁, c₂, rfl⟩ := List.length_eq_two.mp hlen
  exact ⟨c₁, c₂, s, hrun, hinput, hadv, hfirst c₁ rfl, hsecond c₂ rfl⟩

theorem disk_totals_exact_iff_crossing :
    ∃ c₁ c₂ s, PtopRun (Conf.single {}) [] [c₁, c₂] s ∧
      [c₁, c₂].map Transition.input = crossing ∧ DiskTotalsExact c₁.output ∧
      ¬ DiskTotalsExact c₂.output := by
  obtain ⟨c₁, c₂, s, hrun, hinput, hadv, hfirst, hsecond⟩ := exists_crossing_run
  have hc₁ : c₁ ∈ [c₁, c₂] := by simp
  have hc₂ : c₂ ∈ [c₁, c₂] := by simp
  refine ⟨c₁, c₂, s, hrun, hinput, (disk_totals_exact_iff hrun hc₁ (hadv c₁ hc₁)).1 hfirst, ?_⟩
  rw [(disk_totals_exact_iff hrun hc₂ (hadv c₂ hc₂)).2.1 hsecond.le]
  intro hall
  rw [List.countP_eq_zero.mpr fun n hn => by simpa using hall n hn] at hsecond
  exact absurd hsecond (by decide)

/-- The second cycle counts `0x11111111` bytes more than the 258 of its row. -/
theorem crossing_miscounted :
    ∃ cs s c, PtopRun (Conf.single {}) [] cs s ∧ cs.map Transition.input = crossing ∧ c ∈ cs ∧
      (∀ n ∈ activeNodes (cycleArgs c.input c.pre c.output) c.output.sampled,
        DiskAdvances (cycleArgs c.input c.pre c.output) n.toPidEntry) ∧
      c.output.rows.map (fun r => r.readBytes.toRat) = [258] ∧
      c.output.sysRow.totaldiskread = 0x11111111 + 258 ∧ ¬ DiskTotalsExact c.output := by
  obtain ⟨cs, s, hrun, hinput, c, hc, hwrong⟩ := exists_run_of_trace
    (mainLoop (Conf.single {})) (systemInit []) crossing
    (fun cs => ∃ c ∈ cs,
      (∀ n ∈ activeNodes (cycleArgs c.input c.pre c.output) c.output.sampled,
        DiskAdvances (cycleArgs c.input c.pre c.output) n.toPidEntry) ∧
      c.output.rows.map (fun r => r.readBytes.toRat) = [258] ∧
      c.output.sysRow.totaldiskread = 0x11111111 + 258 ∧
      ¬ DiskTotalsExact c.output) (by decide +kernel)
  exact ⟨cs, s, c, hrun, hinput, hc, hwrong⟩

end Totals

end PTop
