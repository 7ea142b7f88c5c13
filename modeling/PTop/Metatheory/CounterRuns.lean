import PTop.Model.Common
import Mathlib.Data.Nat.Prime.Basic
import Mathlib.Tactic.NormNum.GCD

/-!
# Summing counter differences over a run

Every rate and every disk total is a sum of `subcount` or `u64_subcount` values,
so what matters is their sum over a run. The constant is `0x11…1` where the
modulus is meant: a step that wraps comes out too large by the constant, or,
when that overflows the register, too small by the rest of the modulus.
-/

namespace PTop

open Framework

section Wraps

variable {w : ℕ} (maxVal : BitVec w)

/-- A wrapping step whose difference comes out too large. -/
def shortWrap (c d : ℕ) : Bool := decide (Wraps w c d) && decide (maxVal.toNat + d < 2 ^ w)

/-- A wrapping step whose difference comes out too small. -/
def longWrap (c d : ℕ) : Bool := decide (Wraps w c d) && decide (2 ^ w ≤ maxVal.toNat + d)

/-- Number of wraps in a run. -/
def wrapCount (w c : ℕ) (ds : List ℕ) : ℕ := countSteps (fun c d => decide (Wraps w c d)) c ds

/-- The errors of the run's wraps cancel out. -/
def WrapsCancel (c : ℕ) (ds : List ℕ) : Prop :=
  maxVal.toNat * countSteps (shortWrap maxVal) c ds =
    (2 ^ w - maxVal.toNat) * countSteps (longWrap maxVal) c ds

/-- The three kinds of step. -/
theorem wrap_cases (c d : ℕ) :
    (¬ Wraps w c d ∧ shortWrap maxVal c d = false ∧ longWrap maxVal c d = false) ∨
    (Wraps w c d ∧ maxVal.toNat + d < 2 ^ w ∧
      shortWrap maxVal c d = true ∧ longWrap maxVal c d = false) ∨
    (Wraps w c d ∧ 2 ^ w ≤ maxVal.toNat + d ∧
      shortWrap maxVal c d = false ∧ longWrap maxVal c d = true) := by
  by_cases hw : Wraps w c d
  · rcases Nat.lt_or_ge (maxVal.toNat + d) (2 ^ w) with h | h
    · exact Or.inr (Or.inl ⟨hw, h, by simp [shortWrap, hw, h],
        by simp [longWrap, Nat.not_le.mpr h]⟩)
    · exact Or.inr (Or.inr ⟨hw, h, by simp [shortWrap, Nat.not_lt.mpr h],
        by simp [longWrap, hw, h]⟩)
  · exact Or.inl ⟨hw, by simp [shortWrap, hw], by simp [longWrap, hw]⟩

theorem subcountWith_step (c d : ℕ) (hd : d < 2 ^ w) :
    ((subcountWith maxVal (reading w (c + d)) (reading w c)).toNat : ℤ) =
      d + (if shortWrap maxVal c d then (maxVal.toNat : ℤ) else 0) +
        (if longWrap maxVal c d then (maxVal.toNat - 2 ^ w : ℤ) else 0) := by
  have hM : maxVal.toNat < 2 ^ w := maxVal.isLt
  rw [toNat_subcountWith_reading maxVal hd]
  rcases wrap_cases maxVal c d with ⟨hw, hs, hl⟩ | ⟨hw, h, hs, hl⟩ | ⟨hw, h, hs, hl⟩
  · simp [hw, hs, hl]
  · -- too large by the constant
    rw [if_pos hw, Nat.mod_eq_of_lt h]
    simp [hs, hl, add_comm]
  · -- the constant overflows the register: too small by the rest of the modulus
    have hmod : (maxVal.toNat + d) % 2 ^ w = maxVal.toNat + d - 2 ^ w := by
      rw [Nat.mod_eq_sub_mod h, Nat.mod_eq_of_lt (by omega)]
    rw [if_pos hw, hmod]
    push_cast [h]
    simp only [hs, hl, Bool.false_eq_true, if_false, if_true]
    ring

/-- The sum of a run, error by error. -/
theorem runSum_subcountWith (c : ℕ) (ds : List ℕ) (hds : ∀ d ∈ ds, d < 2 ^ w) :
    (runSum (subcountWith maxVal) c ds : ℤ) = ds.sum +
      maxVal.toNat * countSteps (shortWrap maxVal) c ds +
      (maxVal.toNat - 2 ^ w) * countSteps (longWrap maxVal) c ds :=
  runSum_eq_sum_add (subcountWith_step maxVal) ds c hds

theorem runSum_subcountWith_iff (c : ℕ) (ds : List ℕ) (hds : ∀ d ∈ ds, d < 2 ^ w) :
    runSum (subcountWith maxVal) c ds = ds.sum ↔ WrapsCancel maxVal c ds := by
  have hsum := runSum_subcountWith maxVal c ds hds
  have hM : maxVal.toNat ≤ 2 ^ w := maxVal.isLt.le
  unfold WrapsCancel
  generalize ds.sum = total at hsum ⊢
  zify [hM]
  rw [hsum]
  constructor
  · intro h
    linarith
  · intro h
    linarith

theorem wrapCount_eq : ∀ (ds : List ℕ) (c : ℕ), wrapCount w c ds =
    countSteps (shortWrap maxVal) c ds + countSteps (longWrap maxVal) c ds
  | [], _ => rfl
  | d :: ds, c => by
      have ih := wrapCount_eq ds (c + d)
      simp only [wrapCount] at ih
      simp only [wrapCount, countSteps, ih]
      rcases wrap_cases maxVal c d with ⟨hw, hs, hl⟩ | ⟨hw, -, hs, hl⟩ | ⟨hw, -, hs, hl⟩ <;>
        simp only [hw, hs, hl, decide_true, decide_false, Bool.false_eq_true, if_true,
          if_false] <;>
        omega

/-- When the constant shares no factor with the modulus, errors cancel only in
multiples of `2 ^ w`. -/
theorem dvd_of_errors_cancel {maxVal : BitVec w} (hco : Nat.Coprime maxVal.toNat (2 ^ w))
    {a b : ℕ} (h : maxVal.toNat * a = (2 ^ w - maxVal.toNat) * b) : 2 ^ w ∣ a + b := by
  have hM : maxVal.toNat < 2 ^ w := maxVal.isLt
  have hmul : maxVal.toNat * (a + b) = 2 ^ w * b := by
    have : (2 ^ w - maxVal.toNat) * b + maxVal.toNat * b = 2 ^ w * b := by
      rw [← Nat.add_mul, Nat.sub_add_cancel hM.le]
    rw [Nat.mul_add, h, this]
  exact hco.symm.dvd_of_dvd_mul_left ⟨b, hmul⟩

/-- So errors cancel only in a run with no wrap, or with at least `2 ^ w` of them. -/
theorem wrapsCancel_iff (hco : Nat.Coprime maxVal.toNat (2 ^ w)) (c : ℕ) (ds : List ℕ) :
    WrapsCancel maxVal c ds ↔
      wrapCount w c ds = 0 ∨ 2 ^ w ≤ wrapCount w c ds ∧ WrapsCancel maxVal c ds := by
  constructor
  · intro h
    by_cases hz : wrapCount w c ds = 0
    · exact Or.inl hz
    · refine Or.inr ⟨?_, h⟩
      rw [wrapCount_eq maxVal] at hz ⊢
      exact Nat.le_of_dvd (Nat.pos_of_ne_zero hz) (dvd_of_errors_cancel hco h)
  · rintro (h | ⟨-, h⟩)
    · rw [wrapCount_eq maxVal] at h
      obtain ⟨ha, hb⟩ := Nat.add_eq_zero_iff.mp h
      rw [WrapsCancel, ha, hb, Nat.mul_zero, Nat.mul_zero]
    · exact h

end Wraps

theorem coprime_MAXU32VAL : Nat.Coprime MAXU32VAL.toNat (2 ^ 32) := by decide

theorem coprime_MAXU64VAL : Nat.Coprime MAXU64VAL.toNat (2 ^ 64) := by decide

/-- **When the differences of a run add up.** For both widths: exactly when the
counter never wraps during the run, or wraps at least as often as the register
has values, in the one proportion in which the errors cancel. -/
theorem subcount_run_exact_iff (c : ℕ) (ds : List ℕ) :
    ((∀ d ∈ ds, d < 2 ^ 32) →
      (runSum subcount c ds = ds.sum ↔
        wrapCount 32 c ds = 0 ∨
          2 ^ 32 ≤ wrapCount 32 c ds ∧ WrapsCancel MAXU32VAL c ds)) ∧
    ((∀ d ∈ ds, d < 2 ^ 64) →
      (runSum u64Subcount c ds = ds.sum ↔
        wrapCount 64 c ds = 0 ∨
          2 ^ 64 ≤ wrapCount 64 c ds ∧ WrapsCancel MAXU64VAL c ds)) := by
  constructor
  · intro hds
    exact (runSum_subcountWith_iff MAXU32VAL c ds hds).trans
      (wrapsCancel_iff MAXU32VAL coprime_MAXU32VAL c ds)
  · intro hds
    exact (runSum_subcountWith_iff MAXU64VAL c ds hds).trans
      (wrapsCancel_iff MAXU64VAL coprime_MAXU64VAL c ds)

/-- Two increments without a wrap, at both widths. -/
theorem subcount_run_exact_at :
    runSum subcount 4294967290 [2, 3] = 5 ∧ runSum u64Subcount 7 [4294967296] = 4294967296 :=
  ⟨((subcount_run_exact_iff 4294967290 [2, 3]).1 (by decide)).mpr (Or.inl (by decide)),
    ((subcount_run_exact_iff 7 [4294967296]).2 (by decide)).mpr (Or.inl (by decide))⟩

/-- One tick across the 32-bit boundary is counted as `0x11111112`, one across
the 64-bit boundary as `0x1111111111111112`. -/
theorem subcount_run_wrong_at_wrap :
    (∀ d ∈ [1], d < 2 ^ 32) ∧ runSum subcount (2 ^ 32 - 1) [1] = 0x11111112 ∧
      runSum subcount (2 ^ 32 - 1) [1] ≠ [1].sum ∧
      runSum u64Subcount (2 ^ 64 - 1) [1] = 0x1111111111111112 ∧
      runSum u64Subcount (2 ^ 64 - 1) [1] ≠ [1].sum := by
  decide

end PTop
