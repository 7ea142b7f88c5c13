import Mathlib.Algebra.BigOperators.Group.Finset.Basic
import Mathlib.Algebra.BigOperators.Group.List.Basic
import Mathlib.Data.BitVec
import Mathlib.Tactic.Ring
import Mathlib.Tactic.Linarith

/-!
# Counters read modulo a power of two

A counter that only grows is observed through a `w`-bit register. `reading` is
what the register shows; `Wraps` says that an increment carries the counter
past a multiple of `2 ^ w`, which is the only event the register hides.
-/

namespace PTop.Framework

variable {w : ℕ}

/-- What a `w`-bit register shows of a counter. -/
def reading (w c : ℕ) : BitVec w := BitVec.ofNat w c

/-- The increment `d` carries a counter standing at `c` past a multiple of `2 ^ w`. -/
def Wraps (w c d : ℕ) : Prop := 2 ^ w ≤ c % 2 ^ w + d

instance (w c d : ℕ) : Decidable (Wraps w c d) := inferInstanceAs (Decidable (_ ≤ _))

@[simp] theorem toNat_reading (c : ℕ) : (reading w c).toNat = c % 2 ^ w :=
  BitVec.toNat_ofNat ..

theorem reading_mod_of_not_wraps {c d : ℕ} (h : ¬ Wraps w c d) :
    (c + d) % 2 ^ w = c % 2 ^ w + d := by
  have h' : c % 2 ^ w + d < 2 ^ w := Nat.lt_of_not_le h
  rw [Nat.add_mod, Nat.mod_eq_of_lt (Nat.lt_of_le_of_lt (Nat.le_add_left _ _) h')]
  exact Nat.mod_eq_of_lt h'

theorem reading_mod_of_wraps {c d : ℕ} (hd : d < 2 ^ w) (h : Wraps w c d) :
    (c + d) % 2 ^ w + 2 ^ w = c % 2 ^ w + d := by
  have hc : c % 2 ^ w < 2 ^ w := Nat.mod_lt _ (Nat.two_pow_pos w)
  have h' : 2 ^ w ≤ c % 2 ^ w + d := h
  rw [Nat.add_mod, Nat.mod_eq_of_lt hd, Nat.mod_eq_sub_mod h',
    Nat.mod_eq_of_lt (by omega)]
  omega

/-- The register goes backwards exactly at a wrap. -/
theorem reading_lt_iff_wraps {c d : ℕ} (hd : d < 2 ^ w) :
    reading w (c + d) < reading w c ↔ Wraps w c d := by
  rw [BitVec.lt_def, toNat_reading, toNat_reading]
  by_cases h : Wraps w c d
  · have := reading_mod_of_wraps hd h
    exact ⟨fun _ => h, fun _ => by omega⟩
  · have := reading_mod_of_not_wraps h
    exact ⟨fun hlt => by omega, fun hw => absurd hw h⟩

/-- Modular subtraction recovers every increment below `2 ^ w`. -/
theorem reading_sub_reading (c d : ℕ) :
    reading w (c + d) - reading w c = BitVec.ofNat w d := by
  rw [reading, BitVec.ofNat_add, reading, BitVec.add_comm, BitVec.add_sub_cancel]

/-! ## Runs of increments -/

/-- Sum over a run of `f new old`, the counter being read after every increment. -/
def runSum (f : BitVec w → BitVec w → BitVec w) : ℕ → List ℕ → ℕ
  | _, [] => 0
  | c, d :: ds => (f (reading w (c + d)) (reading w c)).toNat + runSum f (c + d) ds

/-- Number of steps of a run, as (counter before, increment), that meet `p`. -/
def countSteps (p : ℕ → ℕ → Bool) : ℕ → List ℕ → ℕ
  | _, [] => 0
  | c, d :: ds => (if p c d then 1 else 0) + countSteps p (c + d) ds

/-- If every step of a run misses its increment by an amount that depends only
on the step's kind, the run's sum misses the total by the counted amounts. -/
theorem runSum_eq_sum_add {f : BitVec w → BitVec w → BitVec w} {p q : ℕ → ℕ → Bool}
    {a b : ℤ} {B : ℕ}
    (hstep : ∀ c d, d < B → ((f (reading w (c + d)) (reading w c)).toNat : ℤ) =
      d + (if p c d then a else 0) + (if q c d then b else 0)) :
    ∀ (ds : List ℕ) (c : ℕ), (∀ d ∈ ds, d < B) →
      (runSum f c ds : ℤ) = ds.sum + a * countSteps p c ds + b * countSteps q c ds
  | [], c, _ => by simp [runSum, countSteps]
  | d :: ds, c, h => by
      have hd := hstep c d (h d List.mem_cons_self)
      have ih := runSum_eq_sum_add hstep ds (c + d) fun e he => h e (List.mem_cons_of_mem _ he)
      simp only [runSum, countSteps, List.sum_cons, Nat.cast_add, ih, hd]
      split_ifs <;> push_cast <;> ring

/-! ## Sums of bit vectors -/

/-- A sum of bit vectors that stays below the modulus. -/
theorem toNat_sum {w : ℕ} : ∀ {l : List (BitVec w)}, (l.map BitVec.toNat).sum < 2 ^ w →
    l.sum.toNat = (l.map BitVec.toNat).sum
  | [], _ => by simp
  | x :: l, h => by
      rw [List.map_cons, List.sum_cons] at h ⊢
      rw [List.sum_cons, BitVec.toNat_add, toNat_sum (Nat.lt_of_le_of_lt (Nat.le_add_left _ _) h),
        Nat.mod_eq_of_lt h]

/-- Readings add up to the reading of the sum. -/
theorem sum_reading {w : ℕ} : ∀ l : List ℕ, (l.map (reading w)).sum = reading w l.sum
  | [] => rfl
  | c :: l => by
      rw [List.map_cons, List.sum_cons, List.sum_cons, sum_reading l, reading, reading, reading,
        BitVec.ofNat_add]

/-- A sum of bit vectors wraps as a whole. -/
theorem toNat_sum_range {w : ℕ} (f : ℕ → BitVec w) (n : ℕ) :
    (∑ i ∈ Finset.range n, f i).toNat = (∑ i ∈ Finset.range n, (f i).toNat) % 2 ^ w := by
  induction n with
  | zero => simp
  | succ n ih =>
      rw [Finset.sum_range_succ, Finset.sum_range_succ, BitVec.toNat_add, ih, Nat.mod_add_mod]

end PTop.Framework
