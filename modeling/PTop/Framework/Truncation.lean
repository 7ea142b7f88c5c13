import Mathlib.Algebra.Order.Field.Rat
import Mathlib.Data.Nat.Cast.Field
import Mathlib.Data.Nat.Cast.Order.Field
import PTop.Framework.Tables

/-!
# Sums that are rounded down

Counts are turned into units of `m` by a division that drops the remainder. Doing
it for each part drops at least as much as doing it once for the whole, and less
than one unit more for each part but the first.
-/

namespace PTop.Framework

variable {α : Type*} {m : ℕ}

/-- What the divisions keep and what they drop. -/
theorem mul_sum_div_add_sum_mod (m : ℕ) (f : α → ℕ) : ∀ l : List α,
    m * (l.map fun a => f a / m).sum + (l.map fun a => f a % m).sum = (l.map f).sum
  | [] => rfl
  | a :: l => by
      have ih := mul_sum_div_add_sum_mod m f l
      have ha := Nat.div_add_mod (f a) m
      rw [List.map_cons, List.map_cons, List.map_cons, List.sum_cons, List.sum_cons, List.sum_cons,
        Nat.mul_add]
      omega

theorem sum_mod_lt (hm : 0 < m) (f : α → ℕ) {l : List α} (hl : l ≠ []) :
    (l.map fun a => f a % m).sum < m * l.length := by
  have hlt : (l.map fun a => f a % m).sum < (l.map fun _ => m).sum := by
    refine List.sum_lt_sum_of_ne_nil hl _ _ fun a _ => Nat.mod_lt (f a) hm
  rwa [List.map_const', List.sum_replicate, nsmul_eq_mul, Nat.cast_id, Nat.mul_comm] at hlt

/-- **The parts come to no more than the whole.** -/
theorem sum_div_le_div_sum (hm : 0 < m) (f : α → ℕ) (l : List α) :
    (l.map fun a => f a / m).sum ≤ (l.map f).sum / m := by
  rw [Nat.le_div_iff_mul_le hm, Nat.mul_comm, ← mul_sum_div_add_sum_mod m f l]
  exact Nat.le_add_right _ _

/-- **And to less than one unit less for each part but the first.** -/
theorem div_sum_le_sum_div (hm : 0 < m) (f : α → ℕ) {l : List α} (hl : l ≠ []) :
    (l.map f).sum / m ≤ (l.map fun a => f a / m).sum + (l.length - 1) := by
  have hlen : 0 < l.length := List.length_pos_of_ne_nil hl
  have hlt : (l.map f).sum / m < (l.map fun a => f a / m).sum + l.length := by
    rw [Nat.div_lt_iff_lt_mul hm, ← mul_sum_div_add_sum_mod m f l, Nat.mul_comm _ m, Nat.mul_add]
    exact Nat.add_lt_add_left (sum_mod_lt hm f hl) _
  omega

/-- The division drops nothing iff there is nothing to drop. -/
theorem cast_div_eq_iff (hm : 0 < m) (n : ℕ) : ((n / m : ℕ) : ℚ) = n / m ↔ m ∣ n := by
  have hm' : (m : ℚ) ≠ 0 := by exact_mod_cast hm.ne'
  constructor
  · intro h
    rw [eq_div_iff hm'] at h
    have hmul : n / m * m = n := by exact_mod_cast h
    exact ⟨n / m, by rw [Nat.mul_comm, hmul]⟩
  · intro h
    exact Nat.cast_div h hm'

end PTop.Framework
