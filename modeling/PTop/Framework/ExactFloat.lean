import Mathlib.Data.Rat.Cast.Order
import Mathlib.Algebra.Order.Field.Rat

/-!
# Floating point without rounding

Finite values are exact rationals; the infinities and NaN are kept, because a
program that divides by an unguarded counter reaches them. Signed zero is not
kept: a zero divisor counts as positive.
-/

namespace PTop.Framework

/-- A floating-point value whose finite part is exact. -/
inductive XFloat where
  | fin (q : ℚ)
  | inf (neg : Bool)
  | nan
deriving DecidableEq

namespace XFloat

def ofNat (n : ℕ) : XFloat := fin n

/-- The rational a finite value denotes (junk `0` otherwise). -/
def toRat : XFloat → ℚ
  | fin q => q
  | _ => 0

def isFinite : XFloat → Bool
  | fin _ => true
  | _ => false

def add : XFloat → XFloat → XFloat
  | fin p, fin q => fin (p + q)
  | fin _, inf s => inf s
  | inf s, fin _ => inf s
  | inf s, inf t => if s = t then inf s else nan
  | _, _ => nan

def mul : XFloat → XFloat → XFloat
  | fin p, fin q => fin (p * q)
  | fin p, inf s => if p = 0 then nan else inf (s ^^ decide (p < 0))
  | inf s, fin q => if q = 0 then nan else inf (s ^^ decide (q < 0))
  | inf s, inf t => inf (s ^^ t)
  | _, _ => nan

def div : XFloat → XFloat → XFloat
  | fin p, fin q => if q = 0 then (if p = 0 then nan else inf (decide (p < 0))) else fin (p / q)
  | fin _, inf _ => fin 0
  | inf s, fin q => inf (s ^^ decide (q < 0))
  | _, _ => nan

/-- Ordered comparison: false as soon as one side is NaN. -/
def blt : XFloat → XFloat → Bool
  | fin p, fin q => decide (p < q)
  | fin _, inf s => !s
  | inf s, fin _ => s
  | inf s, inf t => s && !t
  | _, _ => false

instance : Add XFloat := ⟨add⟩
instance : Mul XFloat := ⟨mul⟩
instance : Div XFloat := ⟨div⟩
instance : Zero XFloat := ⟨fin 0⟩
instance : LT XFloat := ⟨fun a b => a.blt b = true⟩
instance (a b : XFloat) : Decidable (a < b) := inferInstanceAs (Decidable (a.blt b = true))

@[simp] theorem toRat_fin (q : ℚ) : (fin q).toRat = q := rfl
@[simp] theorem fin_mul_fin (p q : ℚ) : fin p * fin q = fin (p * q) := rfl
theorem fin_div_fin (p : ℚ) {q : ℚ} (h : q ≠ 0) : fin p / fin q = fin (p / q) := if_neg h
@[simp] theorem fin_lt_fin {p q : ℚ} : fin p < fin q ↔ p < q := decide_eq_true_iff
@[simp] theorem toRat_ofNat (n : ℕ) : (ofNat n).toRat = n := rfl

@[simp] theorem nan_add : ∀ a : XFloat, nan + a = nan
  | fin _ => rfl
  | inf _ => rfl
  | nan => rfl

@[simp] theorem add_nan : ∀ a : XFloat, a + nan = nan
  | fin _ => rfl
  | inf _ => rfl
  | nan => rfl

protected theorem add_comm : ∀ a b : XFloat, a + b = b + a
  | fin p, fin q => congrArg fin (Rat.add_comm p q)
  | nan, b => by rw [nan_add, add_nan]
  | a, nan => by rw [nan_add, add_nan]
  | fin _, inf _ => rfl
  | inf _, fin _ => rfl
  | inf s, inf t => by cases s <;> cases t <;> rfl

protected theorem add_assoc : ∀ a b c : XFloat, a + b + c = a + (b + c)
  | fin p, fin q, fin r => congrArg fin (Rat.add_assoc p q r)
  | nan, b, c => by rw [nan_add, nan_add, nan_add]
  | a, nan, c => by rw [add_nan, nan_add, add_nan]
  | a, b, nan => by rw [add_nan, add_nan, add_nan]
  | fin _, fin _, inf _ => rfl
  | fin _, inf _, fin _ => rfl
  | inf _, fin _, fin _ => rfl
  | fin _, inf s, inf t => by cases s <;> cases t <;> rfl
  | inf s, fin _, inf t => by cases s <;> cases t <;> rfl
  | inf s, inf t, fin _ => by cases s <;> cases t <;> rfl
  | inf s, inf t, inf u => by cases s <;> cases t <;> cases u <;> rfl

protected theorem zero_add : ∀ a : XFloat, fin 0 + a = a
  | fin q => congrArg fin (Rat.zero_add q)
  | inf _ => rfl
  | nan => rfl

/-- Without rounding, sums do not depend on the order of their terms. -/
instance : AddCommMonoid XFloat where
  zero_add := XFloat.zero_add
  add_zero a := (XFloat.add_comm a (fin 0)).trans (XFloat.zero_add a)
  add_comm := XFloat.add_comm
  add_assoc := XFloat.add_assoc
  nsmul := nsmulRec

/-- The finite values are closed under addition. -/
def finHom : ℚ →+ XFloat where
  toFun := fin
  map_zero' := rfl
  map_add' _ _ := rfl

theorem fin_injective : Function.Injective fin := by
  intro p q h
  cases h
  rfl

theorem lt_irrefl : ∀ a : XFloat, ¬ a < a
  | fin q => by simp
  | inf s => by cases s <;> decide
  | nan => by decide

theorem lt_asymm : ∀ {a b : XFloat}, a < b → ¬ b < a
  | fin p, fin q, h => by
      rw [fin_lt_fin] at h ⊢
      exact not_lt.mpr h.le
  | fin _, inf s, h => by
      change (!s) = true at h
      change ¬ s = true
      simpa using h
  | inf s, fin _, h => by
      change s = true at h
      change ¬ (!s) = true
      simpa using h
  | inf s, inf t, h => by revert h; cases s <;> cases t <;> decide
  | nan, _, h => absurd h Bool.false_ne_true
  | fin _, nan, h => absurd h Bool.false_ne_true
  | inf _, nan, h => absurd h Bool.false_ne_true

/-! ## Shares of a common whole

`ofNat d * x` for varying `d` and one fixed `x`, as when counts are turned into
percentages of one interval: although NaN may be among them, comparison is
still negatively transitive there. -/

/-- A count expressed in units of `x`. -/
def IsShareOf (x a : XFloat) : Prop := ∃ d : ℕ, a = ofNat d * x

theorem IsShareOf.not_lt_of_not_finite {x a b : XFloat} (hx : x.isFinite = false)
    (ha : IsShareOf x a) (hb : IsShareOf x b) : ¬ a < b := by
  obtain ⟨d, rfl⟩ := ha
  obtain ⟨e, rfl⟩ := hb
  have key : ∀ n : ℕ, ofNat n * x = nan ∨ ∃ s, x = inf s ∧ ofNat n * x = inf s := by
    intro n
    cases x with
    | fin q => simp [isFinite] at hx
    | nan => exact Or.inl rfl
    | inf s =>
        by_cases hn : (n : ℚ) = 0
        · exact Or.inl (if_pos hn)
        · refine Or.inr ⟨s, rfl, ?_⟩
          have hneg : decide ((n : ℚ) < 0) = false :=
            decide_eq_false (not_lt.mpr (Nat.cast_nonneg n))
          show mul (fin n) (inf s) = inf s
          simp [mul, hn, hneg]
  rcases key d with hd | ⟨s, rfl, hd⟩ <;> rcases key e with he | ⟨t, ht, he⟩ <;> rw [hd, he]
  · decide
  · cases t <;> decide
  · cases s <;> decide
  · cases ht
    exact lt_irrefl _

/-- Among shares of one whole, "not below" is transitive. -/
theorem IsShareOf.not_lt_trans {x a b c : XFloat} (ha : IsShareOf x a)
    (hb : IsShareOf x b) (hc : IsShareOf x c) (hab : ¬ a < b) (hbc : ¬ b < c) : ¬ a < c := by
  cases hx : x with
  | fin q =>
      obtain ⟨d, rfl⟩ := ha
      obtain ⟨e, rfl⟩ := hb
      obtain ⟨f, rfl⟩ := hc
      subst hx
      simp only [ofNat, fin_mul_fin, fin_lt_fin, not_lt] at *
      exact hbc.trans hab
  | inf s => exact not_lt_of_not_finite (by rw [hx]; rfl) ha hc
  | nan => exact not_lt_of_not_finite (by rw [hx]; rfl) ha hc

end XFloat

end PTop.Framework
