import Mathlib.Algebra.BigOperators.Group.List.Basic
import Mathlib.Data.Int.Log
import Mathlib.Data.Rat.Floor
import Mathlib.Tactic.FieldSimp
import Mathlib.Tactic.GCongr
import Mathlib.Tactic.Linarith
import Mathlib.Tactic.Positivity
import Mathlib.Tactic.Ring

/-!
# Arithmetic that rounds

A floating-point operation computes a number and keeps what its format can hold of
it. A program is written with the rounding as a parameter: `exact` is arithmetic
without rounding, and `single` that of a `float`, except that the exponent is not
bounded.
-/

namespace PTop.Framework

/-! ## The nearest integer -/

/-- The nearest integer, and the even one of two that are equally near. -/
def nearestEven (x : ℚ) : ℤ :=
  if 2 * (x - ⌊x⌋) < 1 ∨ 2 * (x - ⌊x⌋) = 1 ∧ ⌊x⌋ % 2 = 0 then ⌊x⌋ else ⌊x⌋ + 1

@[simp] theorem nearestEven_intCast (n : ℤ) : nearestEven n = n := by
  rw [nearestEven, Int.floor_intCast, sub_self, if_pos (Or.inl (by norm_num))]

theorem nearestEven_cases (x : ℚ) : nearestEven x = ⌊x⌋ ∧ 2 * (x - ⌊x⌋) ≤ 1 ∨
    nearestEven x = ⌊x⌋ + 1 ∧ 1 ≤ 2 * (x - ⌊x⌋) := by
  unfold nearestEven
  split
  · rename_i h
    rcases h with hlt | ⟨heq, -⟩
    · exact Or.inl ⟨rfl, hlt.le⟩
    · exact Or.inl ⟨rfl, heq.le⟩
  · rename_i h
    exact Or.inr ⟨rfl, not_lt.mp fun hlt => h (Or.inl hlt)⟩

/-- What is dropped or added is at most a half. -/
theorem abs_nearestEven_sub_le (x : ℚ) : |(nearestEven x : ℚ) - x| ≤ 1 / 2 := by
  have hfloor := Int.floor_le x
  have hlt := Int.lt_floor_add_one x
  rcases nearestEven_cases x with ⟨heq, hhalf⟩ | ⟨heq, hhalf⟩ <;> rw [heq, abs_le] <;> push_cast <;>
    constructor <;> linarith

theorem nearestEven_mono {x y : ℚ} (hxy : x ≤ y) : nearestEven x ≤ nearestEven y := by
  have hfloor := Int.floor_mono hxy
  have hx := nearestEven_cases x
  have hy := nearestEven_cases y
  rcases hfloor.lt_or_eq with hlt | heq
  · -- an integer separates the two
    omega
  · unfold nearestEven
    rw [heq]
    split
    · split <;> omega
    · rename_i hup
      rw [if_neg]
      rintro (hlt | ⟨htie, heven⟩)
      · exact hup (Or.inl (by linarith))
      · rcases hxy.lt_or_eq with hlt | rfl
        · exact hup (Or.inl (by linarith))
        · exact hup (Or.inr ⟨htie, heven⟩)

theorem nearestEven_neg (x : ℚ) : nearestEven (-x) = -nearestEven x := by
  have hfloor := Int.floor_le x
  have hlt := Int.lt_floor_add_one x
  rcases hfloor.eq_or_lt with heq | hpos
  · rw [← heq, ← Int.cast_neg, nearestEven_intCast, nearestEven_intCast]
  · have hneg : ⌊-x⌋ = -⌊x⌋ - 1 := by
      rw [Int.floor_eq_iff]
      push_cast
      constructor <;> linarith
    have hfrac : 2 * (-x - ⌊-x⌋) = 2 - 2 * (x - ⌊x⌋) := by
      rw [hneg]
      push_cast
      ring
    unfold nearestEven
    rw [hfrac, hneg]
    rcases lt_trichotomy (2 * (x - ⌊x⌋)) 1 with hlow | htie | hhigh
    · rw [if_pos (Or.inl hlow), if_neg]
      · ring
      · rintro (h | ⟨h, -⟩) <;> linarith
    · -- of two integers next to each other one is even
      rw [htie]
      have hhalf : (2 : ℚ) - 1 = 1 := by norm_num
      rw [hhalf]
      simp only [lt_irrefl, false_or, true_and]
      split <;> split <;> omega
    · rw [if_pos (Or.inl (by linarith)), if_neg]
      · ring
      · rintro (h | ⟨h, -⟩) <;> linarith

/-! ## Roundings -/

/-- What an arithmetic keeps of a number. -/
structure Rounding where
  round : ℚ → ℚ
  mono : Monotone round
  zero : round 0 = 0

namespace Rounding

instance : CoeFun Rounding fun _ => ℚ → ℚ := ⟨Rounding.round⟩

/-- Arithmetic without rounding. -/
def exact : Rounding := ⟨id, monotone_id, rfl⟩

section Operations

variable (r : Rounding)

def add (x y : ℚ) : ℚ := r (x + y)

def sub (x y : ℚ) : ℚ := r (x - y)

def mul (x y : ℚ) : ℚ := r (x * y)

def div (x y : ℚ) : ℚ := r (x / y)

/-- A sum accumulated term by term. -/
def sum (xs : List ℚ) : ℚ := xs.foldl r.add 0

theorem sum_concat (xs : List ℚ) (x : ℚ) : r.sum (xs ++ [x]) = r.add (r.sum xs) x := by
  rw [sum, List.foldl_append]
  rfl

theorem sum_eq_zero {xs : List ℚ} (h : ∀ x ∈ xs, x = 0) : r.sum xs = 0 := by
  induction xs using List.reverseRecOn with
  | nil => rfl
  | append_singleton xs x ih =>
      rw [sum_concat, ih fun y hy => h y (List.mem_append_left _ hy), h x (by simp), add, add_zero,
        r.zero]

theorem nonneg {x : ℚ} (h : 0 ≤ x) : 0 ≤ r x := r.zero.symm.trans_le (r.mono h)

end Operations

@[simp] theorem exact_apply (x : ℚ) : exact x = x := rfl

theorem exact_sum (xs : List ℚ) : exact.sum xs = xs.sum := by
  induction xs using List.reverseRecOn with
  | nil => rfl
  | append_singleton xs x ih =>
      rw [sum_concat, ih, List.sum_append, List.sum_singleton]
      rfl

/-! ## Numbers with a bounded number of digits -/

/-- The distance between numbers of the size of `x` that have `f` binary digits after the
first one. -/
def grid (f : ℕ) (x : ℚ) : ℚ := 2 ^ Int.log 2 |x| / 2 ^ f

/-- The nearest number with `f` binary digits after the first one. -/
def roundTo (f : ℕ) (x : ℚ) : ℚ := nearestEven (x / grid f x) * grid f x

section Digits

variable {f : ℕ} {x y : ℚ}

theorem grid_pos (f : ℕ) (x : ℚ) : 0 < grid f x := by
  unfold grid
  exact div_pos (zpow_pos (by norm_num) _) (by positivity)

theorem pow_mul_grid (f : ℕ) (x : ℚ) : 2 ^ f * grid f x = 2 ^ Int.log 2 |x| := by
  rw [grid, mul_div_cancel₀ _ (by positivity)]

theorem roundTo_zero (f : ℕ) : roundTo f 0 = 0 := by
  rw [roundTo, zero_div, ← Int.cast_zero, nearestEven_intCast, Int.cast_zero, zero_mul]

theorem roundTo_neg (f : ℕ) (x : ℚ) : roundTo f (-x) = -roundTo f x := by
  rw [roundTo, roundTo, grid, grid, abs_neg, neg_div, nearestEven_neg]
  push_cast
  ring

theorem roundTo_nonneg (h : 0 ≤ x) : 0 ≤ roundTo f x := by
  have hnear : nearestEven ((0 : ℤ) : ℚ) ≤ nearestEven (x / grid f x) :=
    nearestEven_mono (by push_cast; exact div_nonneg h (grid_pos f x).le)
  rw [nearestEven_intCast] at hnear
  exact mul_nonneg (by exact_mod_cast hnear) (grid_pos f x).le

/-- A positive number is a multiple of its grid between two powers of two. -/
theorem div_grid_bounds (h : 0 < x) : 2 ^ f ≤ x / grid f x ∧ x / grid f x ≤ 2 ^ (f + 1) := by
  have hlow := Int.zpow_log_le_self (b := 2) (by norm_num) h
  have hhigh := Int.lt_zpow_succ_log_self (b := 2) (by norm_num) x
  push_cast at hlow hhigh
  rw [zpow_add_one₀ (by norm_num)] at hhigh
  have hgrid := pow_mul_grid f x
  rw [abs_of_pos h] at hgrid
  rw [le_div_iff₀ (grid_pos f x), div_le_iff₀ (grid_pos f x), pow_succ, mul_right_comm, hgrid]
  exact ⟨hlow, hhigh.le⟩

theorem roundTo_le_of_pos (h : 0 < x) (hxy : x ≤ y) : roundTo f x ≤ roundTo f y := by
  have hy : 0 < y := h.trans_le hxy
  have hlog := Int.log_mono_right (b := 2) h hxy
  rcases hlog.eq_or_lt with heq | hlt
  · -- one grid for both
    have hgrid : grid f x = grid f y := by rw [grid, grid, abs_of_pos h, abs_of_pos hy, heq]
    rw [roundTo, roundTo, hgrid]
    have hdiv := div_le_div_of_nonneg_right hxy (grid_pos f y).le
    exact mul_le_mul_of_nonneg_right (by exact_mod_cast nearestEven_mono hdiv) (grid_pos f y).le
  · -- a power of two separates the two
    have hx' : nearestEven (x / grid f x) ≤ (2 : ℤ) ^ (f + 1) := by
      rw [← nearestEven_intCast (2 ^ (f + 1))]
      exact nearestEven_mono (by push_cast; exact (div_grid_bounds h).2)
    have hy' : (2 : ℤ) ^ f ≤ nearestEven (y / grid f y) := by
      rw [← nearestEven_intCast (2 ^ f)]
      exact nearestEven_mono (by push_cast; exact (div_grid_bounds hy).1)
    have hx'' : (nearestEven (x / grid f x) : ℚ) ≤ 2 ^ (f + 1) := by exact_mod_cast hx'
    have hy'' : (2 : ℚ) ^ f ≤ nearestEven (y / grid f y) := by exact_mod_cast hy'
    calc roundTo f x ≤ 2 ^ (f + 1) * grid f x :=
          mul_le_mul_of_nonneg_right hx'' (grid_pos f x).le
      _ = 2 ^ (Int.log 2 |x| + 1) := by
          rw [pow_succ, mul_right_comm, pow_mul_grid, zpow_add_one₀ (by norm_num)]
      _ ≤ 2 ^ Int.log 2 |y| := by
          rw [abs_of_pos h, abs_of_pos hy]
          exact zpow_le_zpow_right₀ (by norm_num) hlt
      _ = 2 ^ f * grid f y := (pow_mul_grid f y).symm
      _ ≤ roundTo f y := mul_le_mul_of_nonneg_right hy'' (grid_pos f y).le

theorem roundTo_mono (f : ℕ) : Monotone (roundTo f) := by
  intro x y hxy
  rcases lt_or_ge 0 x with hx | hx
  · exact roundTo_le_of_pos hx hxy
  · have hneg : roundTo f x ≤ 0 := by
      have h := roundTo_nonneg (f := f) (neg_nonneg.mpr hx)
      rw [roundTo_neg] at h
      exact neg_nonneg.mp h
    rcases lt_or_ge y 0 with hy | hy
    · have h := roundTo_le_of_pos (f := f) (neg_pos.mpr hy) (neg_le_neg hxy)
      rw [roundTo_neg, roundTo_neg] at h
      exact neg_le_neg_iff.mp h
    · exact hneg.trans (roundTo_nonneg hy)

/-- The error is a share of the number. -/
theorem abs_roundTo_sub_le (h : 0 ≤ x) : |roundTo f x - x| ≤ 1 / 2 ^ (f + 1) * x := by
  rcases h.eq_or_lt with rfl | hpos
  · rw [roundTo_zero, sub_zero, abs_zero, mul_zero]
  have hgrid := grid_pos f x
  have hsub : roundTo f x - x = (nearestEven (x / grid f x) - x / grid f x) * grid f x := by
    rw [roundTo, sub_mul, div_mul_cancel₀ _ hgrid.ne']
  rw [hsub, abs_mul, abs_of_pos hgrid]
  calc _ ≤ 1 / 2 * grid f x :=
        mul_le_mul_of_nonneg_right (abs_nearestEven_sub_le _) hgrid.le
    _ = 1 / 2 ^ (f + 1) * (2 ^ f * grid f x) := by
        rw [pow_succ]
        field_simp
    _ ≤ 1 / 2 ^ (f + 1) * x := by
        refine mul_le_mul_of_nonneg_left ?_ (by positivity)
        rw [← le_div_iff₀ hgrid]
        exact (div_grid_bounds hpos).1

/-- A number of at most `f + 1` digits is kept. -/
theorem roundTo_natCast {n : ℕ} (hn : n < 2 ^ (f + 1)) : roundTo f n = n := by
  rcases n.eq_zero_or_pos with rfl | hpos
  · exact_mod_cast roundTo_zero f
  have hpos' : (0 : ℚ) < n := by exact_mod_cast hpos
  have hlog : Int.log 2 |(n : ℚ)| = (Nat.log 2 n : ℤ) := by
    rw [abs_of_pos hpos', Int.log_natCast]
  have hle : Nat.log 2 n ≤ f :=
    Nat.le_of_lt_succ (Nat.log_lt_of_lt_pow hpos.ne' hn)
  -- the grid is no coarser than the integers
  have hdiv : (n : ℚ) / grid f n = ((n * 2 ^ (f - Nat.log 2 n) : ℕ) : ℤ) := by
    rw [grid, hlog, zpow_natCast, div_div_eq_mul_div, mul_div_assoc, div_eq_mul_inv (2 ^ f),
      ← pow_sub₀ (2 : ℚ) (by norm_num) hle]
    push_cast
    rfl
  rw [roundTo, hdiv, nearestEven_intCast, ← hdiv, div_mul_cancel₀ _ (grid_pos f n).ne']

end Digits

/-- Rounding to `f` binary digits after the first one. -/
def binary (f : ℕ) : Rounding := ⟨roundTo f, roundTo_mono f, roundTo_zero f⟩

/-- A C `float`: 24 binary digits. -/
def single : Rounding := binary 23

theorem single_natCast {n : ℕ} (hn : n < 2 ^ 24) : single n = n := roundTo_natCast hn

/-! ## Relative errors -/

/-- What is kept of a number differs from it by at most the share `u`. -/
structure Within (r : Rounding) (u : ℚ) : Prop where
  nonneg : 0 ≤ u
  le_one : u ≤ 1
  bounds : ∀ x, 0 ≤ x → (1 - u) * x ≤ r x ∧ r x ≤ (1 + u) * x

theorem binary_within (f : ℕ) : (binary f).Within (1 / 2 ^ (f + 1)) := by
  refine ⟨by positivity, ?_, fun x hx => ?_⟩
  · rw [div_le_one (by positivity)]
    exact one_le_pow₀ (by norm_num)
  · have h := abs_le.mp (abs_roundTo_sub_le (f := f) hx)
    constructor
    · show _ ≤ roundTo f x
      linarith [h.1]
    · show roundTo f x ≤ _
      linarith [h.2]

theorem single_within : single.Within (1 / 2 ^ 24) := binary_within 23

namespace Within

variable {r : Rounding} {u : ℚ}

/-- One more rounding of a figure that has been rounded `k` times. -/
theorem step (h : r.Within u) {x y : ℚ} {k : ℕ} (hx : 0 ≤ x)
    (hy : (1 - u) ^ k * x ≤ y ∧ y ≤ (1 + u) ^ k * x) :
    (1 - u) ^ (k + 1) * x ≤ r y ∧ r y ≤ (1 + u) ^ (k + 1) * x := by
  have hu : 0 ≤ 1 - u := sub_nonneg.mpr h.le_one
  have hu' : 0 ≤ 1 + u := add_nonneg zero_le_one h.nonneg
  have hy₀ : 0 ≤ y := (mul_nonneg (pow_nonneg hu k) hx).trans hy.1
  obtain ⟨hlow, hhigh⟩ := h.bounds y hy₀
  rw [pow_succ', pow_succ', mul_assoc, mul_assoc]
  exact ⟨(mul_le_mul_of_nonneg_left hy.1 hu).trans hlow,
    hhigh.trans (mul_le_mul_of_nonneg_left hy.2 hu')⟩

/-- The bounds of fewer roundings are bounds for more. -/
theorem weaken (h : r.Within u) {x y : ℚ} {k n : ℕ} (hkn : k ≤ n) (hx : 0 ≤ x)
    (hy : (1 - u) ^ k * x ≤ y ∧ y ≤ (1 + u) ^ k * x) :
    (1 - u) ^ n * x ≤ y ∧ y ≤ (1 + u) ^ n * x := by
  have hu : 0 ≤ 1 - u := sub_nonneg.mpr h.le_one
  have hlow : (1 - u) ^ n ≤ (1 - u) ^ k :=
    pow_le_pow_of_le_one hu (sub_le_self 1 h.nonneg) hkn
  have hhigh : (1 + u) ^ k ≤ (1 + u) ^ n :=
    pow_le_pow_right₀ (le_add_of_nonneg_right h.nonneg) hkn
  exact ⟨(mul_le_mul_of_nonneg_right hlow hx).trans hy.1,
    hy.2.trans (mul_le_mul_of_nonneg_right hhigh hx)⟩

/-- **An accumulated sum.** Terms that have been rounded `k` times add up to the sum
of what they stand for, up to `k` roundings and one for each term. -/
theorem sum_bounds (h : r.Within u) {k : ℕ} {α : Type*} {f g : α → ℚ} {l : List α}
    (hl : ∀ a ∈ l, 0 ≤ f a ∧ (1 - u) ^ k * f a ≤ g a ∧ g a ≤ (1 + u) ^ k * f a) :
    (1 - u) ^ (k + l.length) * (l.map f).sum ≤ r.sum (l.map g) ∧
      r.sum (l.map g) ≤ (1 + u) ^ (k + l.length) * (l.map f).sum := by
  induction l using List.reverseRecOn with
  | nil => simp [Rounding.sum]
  | append_singleton l a ih =>
      have hinit := ih fun b hb => hl b (List.mem_append_left _ hb)
      obtain ⟨ha, hterm⟩ := hl a (List.mem_append_right _ (List.mem_singleton_self a))
      have hsum : 0 ≤ (l.map f).sum := by
        refine List.sum_nonneg fun x hx => ?_
        obtain ⟨b, hb, rfl⟩ := List.mem_map.mp hx
        exact (hl b (List.mem_append_left _ hb)).1
      -- the term has been rounded less often than the sum before it
      have hterm := h.weaken (Nat.le_add_right k l.length) ha hterm
      simp only [List.map_append, List.map_singleton, sum_concat, List.sum_append,
        List.sum_singleton, List.length_append, List.length_singleton, ← Nat.add_assoc]
      refine h.step (add_nonneg hsum ha) ⟨?_, ?_⟩
      · rw [mul_add]
        exact add_le_add hinit.1 hterm.1
      · rw [mul_add]
        exact add_le_add hinit.2 hterm.2

end Within

end Rounding

end PTop.Framework
