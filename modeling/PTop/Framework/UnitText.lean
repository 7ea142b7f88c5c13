import PTop.Framework.Scanf
import Mathlib.Algebra.BigOperators.Group.List.Basic
import Mathlib.Algebra.GroupWithZero.Nat

/-!
# Quantities in several units

A quantity in several units is a list of components, a number and its unit. It is
written with each number in decimal and the letter of its unit behind it, and that
text can be read in one way only.

`splitUnits` breaks a quantity up, one unit after another, and takes a unit out only
where more than one whole unit is left. What it delivers adds up to the quantity
whatever the units are.
-/

namespace PTop.Framework

variable {υ : Type*}

/-! ## Text -/

/-- Each number in decimal, and the letter of its unit. -/
def unitText (letter : υ → UInt8) : List (ℕ × υ) → List UInt8
  | [] => []
  | (n, u) :: cs => decimal n ++ letter u :: unitText letter cs

theorem unitText_append (letter : υ → UInt8) (ds : List (ℕ × υ)) : ∀ cs : List (ℕ × υ),
    unitText letter (cs ++ ds) = unitText letter cs ++ unitText letter ds
  | [] => rfl
  | (n, u) :: cs => by
      rw [List.cons_append, unitText, unitText, unitText_append letter ds cs, List.append_assoc,
        List.cons_append]

theorem unitText_eq_nil_iff {letter : υ → UInt8} {cs : List (ℕ × υ)} :
    unitText letter cs = [] ↔ cs = [] := by
  cases cs with
  | nil => simp [unitText]
  | cons c cs => simp [unitText]

/-- **The text determines the components.** -/
theorem unitText_injective {letter : υ → UInt8} (hinj : Function.Injective letter)
    (hdigit : ∀ u, isDigit (letter u) = false) : Function.Injective (unitText letter) := by
  intro cs
  induction cs with
  | nil =>
      intro ds h
      exact (unitText_eq_nil_iff.mp h.symm).symm
  | cons c cs ih =>
      rintro (_ | ⟨d, ds⟩) h
      · exact absurd (unitText_eq_nil_iff.mp h) (List.cons_ne_nil c cs)
      -- the digits end at the letter, so both parts of the first component come off
      · have hspan (c : ℕ × υ) (cs : List (ℕ × υ)) :
            EndsSpan isDigit (letter c.2 :: unitText letter cs) := endsSpan_cons _ (hdigit c.2)
        have hnum := congrArg (List.takeWhile isDigit) h
        have hrest := congrArg (List.dropWhile isDigit) h
        simp only [unitText] at hnum hrest
        rw [takeWhile_append_span (isDigit_of_mem_decimal _) (hspan c cs),
          takeWhile_append_span (isDigit_of_mem_decimal _) (hspan d ds)] at hnum
        rw [dropWhile_append_span (isDigit_of_mem_decimal _) (hspan c cs),
          dropWhile_append_span (isDigit_of_mem_decimal _) (hspan d ds), List.cons.injEq] at hrest
        have hcoef : c.1 = d.1 := by
          rw [← digitsValue_decimal c.1, hnum, digitsValue_decimal]
        rw [ih hrest.2, Prod.ext hcoef (hinj hrest.1)]

/-- The text is no longer than its numbers, where each unit has a width. -/
theorem length_unitText_le {letter : υ → UInt8} {width : υ → ℕ} : ∀ {cs : List (ℕ × υ)},
    (∀ c ∈ cs, (decimal c.1).length ≤ width c.2) →
      (unitText letter cs).length ≤ ((cs.map Prod.snd).map fun u => width u + 1).sum
  | [], _ => Nat.le_refl 0
  | c :: cs, h => by
      have hc := h c List.mem_cons_self
      have ih : (unitText letter cs).length ≤ _ :=
        length_unitText_le fun d hd => h d (List.mem_cons_of_mem c hd)
      rw [unitText, List.length_append, List.length_cons, List.map_cons, List.map_cons,
        List.sum_cons]
      omega

/-! ## Breaking a quantity up -/

variable (size : υ → ℕ)

/-- What components add up to. -/
def unitTotal (cs : List (ℕ × υ)) : ℕ := (cs.map fun c => c.1 * size c.2).sum

/-- What is left after a unit has been tried. -/
def unitRest (u : υ) (v : ℕ) : ℕ := if size u < v then v % size u else v

/-- Take out one unit after another, and give what is left the unit `last`. -/
def splitUnits (last : υ) : List υ → ℕ → List (ℕ × υ)
  | [], v => if v = 0 then [] else [(v, last)]
  | u :: us, v =>
      if size u < v then (v / size u, u) :: splitUnits last us (v % size u)
      else splitUnits last us v

variable {size} {last : υ}

@[simp] theorem unitTotal_nil : unitTotal size [] = 0 := rfl

@[simp] theorem unitTotal_cons (c : ℕ × υ) (cs : List (ℕ × υ)) :
    unitTotal size (c :: cs) = c.1 * size c.2 + unitTotal size cs := by
  rw [unitTotal, List.map_cons, List.sum_cons, unitTotal]

/-- **Nothing is lost.** -/
theorem unitTotal_splitUnits (hlast : size last = 1) : ∀ (us : List υ) (v : ℕ),
    unitTotal size (splitUnits size last us v) = v
  | [], v => by
      rw [splitUnits]
      split
      · rename_i h
        rw [unitTotal_nil, h]
      · rw [unitTotal_cons, unitTotal_nil, hlast, Nat.mul_one, Nat.add_zero]
  | u :: us, v => by
      rw [splitUnits]
      split
      · rw [unitTotal_cons, unitTotal_splitUnits hlast us, Nat.mul_comm, Nat.div_add_mod]
      · exact unitTotal_splitUnits hlast us v

/-- The units come in the order in which they are tried, each at most once. -/
theorem splitUnits_sublist : ∀ (us : List υ) (v : ℕ),
    ((splitUnits size last us v).map Prod.snd).Sublist (us ++ [last])
  | [], v => by
      rw [splitUnits]
      split
      · exact List.nil_sublist _
      · exact List.Sublist.refl _
  | u :: us, v => by
      rw [splitUnits]
      split
      · exact (splitUnits_sublist us (v % size u)).cons_cons u
      · exact (splitUnits_sublist us v).cons u

theorem splitUnits_pos (hsize : ∀ u, 0 < size u) : ∀ (us : List υ) (v : ℕ),
    ∀ c ∈ splitUnits size last us v, 0 < c.1
  | [], v => by
      rw [splitUnits]
      intro c hc
      split at hc
      · exact absurd hc List.not_mem_nil
      · rw [List.mem_singleton.mp hc]
        exact Nat.pos_of_ne_zero ‹_›
  | u :: us, v => by
      rw [splitUnits]
      intro c hc
      split at hc
      · rcases List.mem_cons.mp hc with rfl | hc
        · exact Nat.div_pos (le_of_lt ‹_›) (hsize u)
        · exact splitUnits_pos hsize us _ c hc
      · exact splitUnits_pos hsize us v c hc

theorem forall_mem_splitUnits_nil {P : ℕ × υ → Prop} {v : ℕ} :
    (∀ c ∈ splitUnits size last [] v, P c) ↔ (v ≠ 0 → P (v, last)) := by
  rw [splitUnits]
  split
  · simp [*]
  · simp [*]

theorem forall_mem_splitUnits_cons {P : ℕ × υ → Prop} {u : υ} {us : List υ} {v : ℕ} :
    (∀ c ∈ splitUnits size last (u :: us) v, P c) ↔
      (size u < v → P (v / size u, u)) ∧
        ∀ c ∈ splitUnits size last us (unitRest size u v), P c := by
  rw [splitUnits, unitRest]
  split
  · rw [List.forall_mem_cons]
    exact and_congr_left' (by simp [*])
  · exact (and_iff_right fun h => absurd h ‹_›).symm

/-- A whole unit left over is the one case in which more than a remainder is left. -/
theorem unitRest_of_ne {u : υ} {v : ℕ} (h : v ≠ size u) : unitRest size u v = v % size u := by
  unfold unitRest
  split
  · rfl
  · exact (Nat.mod_eq_of_lt (by omega)).symm

theorem unitRest_lt_iff {u : υ} (hsize : 0 < size u) {v : ℕ} :
    unitRest size u v < size u ↔ v ≠ size u := by
  constructor
  · rintro h rfl
    rw [unitRest, if_neg (lt_irrefl _)] at h
    exact lt_irrefl _ h
  · intro h
    rw [unitRest_of_ne h]
    exact Nat.mod_lt v hsize

theorem unitRest_le {u : υ} (hsize : 0 < size u) (v : ℕ) : unitRest size u v ≤ size u := by
  by_cases h : v = size u
  · rw [unitRest, if_neg (by omega), h]
  · exact ((unitRest_lt_iff hsize).mpr h).le

end PTop.Framework
