import PTop.Framework.Machine
import PTop.Framework.WrapCounter
import Mathlib.Algebra.Order.BigOperators.Group.List

/-!
# Counters that cannot always be read

A group of growing counters is read in every round, through registers, and the
sum of what they show is stored; a counter that cannot be read adds zero. The next
round compares with what is stored, but what a counter has advanced by is counted
from the last round that read it.
-/

namespace PTop.Framework

variable {α : Type*} {w : ℕ}

/-- A counter: where it stands in each round, and whether a round can read it. -/
structure Source (α : Type*) where
  counter : ℕ → ℕ
  grows : Monotone counter
  readable : α → Bool

namespace Source

variable (src : Source α)

/-- The number of rounds up to the last one that read the counter. -/
def lastRound (before : List α) : ℕ := (before.rdropWhile fun x => !src.readable x).length

/-- Where the counter stood then; zero if no round has read it. -/
def lastRead (before : List α) : ℕ :=
  match src.lastRound before with
  | 0 => 0
  | k + 1 => src.counter k

/-- What the counter has advanced by since then. -/
def advance (before : List α) : ℕ := src.counter before.length - src.lastRead before

/-- The part of it that a round sees. -/
def seen (before : List α) (x : α) : ℕ := if src.readable x then src.advance before else 0

/-- What a round stores. -/
def stored (w : ℕ) (before : List α) (x : α) : BitVec w :=
  if src.readable x then reading w (src.counter before.length) else 0

theorem stored_of_readable {before : List α} {x : α} (h : src.readable x = true) :
    src.stored w before x = reading w (src.counter before.length) := if_pos h

theorem stored_of_not_readable {before : List α} {x : α} (h : src.readable x = false) :
    src.stored w before x = 0 := if_neg (by rw [h]; exact Bool.false_ne_true)

/-- What the round before has stored; nothing before the first. -/
def lastStored (w : ℕ) (before : List α) : BitVec w :=
  match before.getLast? with
  | none => 0
  | some x => src.stored w before.dropLast x

theorem lastStored_concat (before : List α) (x : α) :
    src.lastStored w (before ++ [x]) = src.stored w before x := by
  rw [lastStored, List.getLast?_concat, List.dropLast_concat]

theorem lastRead_concat (before : List α) (x : α) : src.lastRead (before ++ [x]) =
    if src.readable x then src.counter before.length else src.lastRead before := by
  rw [lastRead, lastRound, length_rdropWhile_concat]
  cases src.readable x <;> rfl

/-- The counter is not below where it was read. -/
theorem lastRead_le (before : List α) : src.lastRead before ≤ src.counter before.length := by
  have hle : src.lastRound before ≤ before.length :=
    (List.rdropWhile_prefix (fun x => !src.readable x) before).length_le
  rw [lastRead]
  split
  · exact Nat.zero_le _
  · rename_i k hk
    rw [hk] at hle
    exact src.grows (Nat.le_of_succ_le hle)

theorem seen_le (before : List α) (x : α) : src.seen before x ≤ src.advance before := by
  rw [seen]
  split
  · exact le_rfl
  · exact Nat.zero_le _

end Source

/-! ## What a group stores -/

/-- What a round stores of the group. -/
def storedSum (w : ℕ) (srcs : List (Source α)) (before : List α) (x : α) : BitVec w :=
  (srcs.map fun src => src.stored w before x).sum

def lastStoredSum (w : ℕ) (srcs : List (Source α)) (before : List α) : BitVec w :=
  (srcs.map fun src => src.lastStored w before).sum

theorem lastStoredSum_nil (srcs : List (Source α)) : lastStoredSum w srcs [] = 0 := by
  induction srcs with
  | nil => rfl
  | cons src srcs ih =>
      rw [lastStoredSum, List.map_cons, List.sum_cons]
      exact (congrArg ((0 : BitVec w) + ·) ih).trans (BitVec.zero_add 0)

theorem lastStoredSum_concat (srcs : List (Source α)) (before : List α) (x : α) :
    lastStoredSum w srcs (before ++ [x]) = storedSum w srcs before x := by
  rw [lastStoredSum, storedSum]
  simp only [Source.lastStored_concat]

/-- What is stored stays in step with the counters: one that cannot be read finds zero
stored, and what the others advance by does not wrap the sum. -/
structure Kept (w : ℕ) (srcs : List (Source α)) (before : List α) (x : α) : Prop where
  found : ∀ src ∈ srcs, src.readable x = true ∨ src.lastStored w before = 0
  fits : ¬ Wraps w (srcs.map fun src => src.lastRead before).sum
    (srcs.map fun src => src.seen before x).sum

instance (srcs : List (Source α)) (before : List α) (x : α) : Decidable (Kept w srcs before x) :=
  decidable_of_iff (_ ∧ _) ⟨fun h => ⟨h.1, h.2⟩, fun h => ⟨h.found, h.fits⟩⟩

section Kept

variable {srcs : List (Source α)} {before : List α} {x : α}

/-- **What is stored of a counter is what was last read of it.** -/
theorem lastStored_eq {src : Source α} (hsrc : src ∈ srcs) (h : EachAfter (Kept w srcs) before) :
    src.lastStored w before = reading w (src.lastRead before) := by
  induction before using List.reverseRecOn with
  | nil => rfl
  | append_singleton before x ih =>
      obtain ⟨hbefore, hx⟩ := eachAfter_snoc.mp h
      rw [src.lastStored_concat, src.lastRead_concat, Source.stored]
      split
      · rfl
      · rename_i hno
        rw [← ih hbefore]
        exact ((hx.found src hsrc).resolve_left hno).symm

theorem Kept.stored_eq (hx : Kept w srcs before x) (h : EachAfter (Kept w srcs) before)
    {src : Source α} (hsrc : src ∈ srcs) :
    src.stored w before x = reading w (src.lastRead before + src.seen before x) := by
  rw [Source.stored, Source.seen]
  split
  · rw [Source.advance, Nat.add_sub_cancel' (src.lastRead_le before)]
  · rename_i hno
    rw [Nat.add_zero, ← lastStored_eq hsrc h]
    exact ((hx.found src hsrc).resolve_left hno).symm

/-- **What a round stores exceeds what is stored by what it sees.** -/
theorem Kept.toNat_storedSum (hx : Kept w srcs before x) (h : EachAfter (Kept w srcs) before) :
    (storedSum w srcs before x).toNat =
      (lastStoredSum w srcs before).toNat + (srcs.map fun src => src.seen before x).sum := by
  have hold : lastStoredSum w srcs before =
      reading w (srcs.map fun src => src.lastRead before).sum := by
    rw [← sum_reading, lastStoredSum, List.map_map]
    exact congrArg List.sum (List.map_congr_left fun src hsrc => lastStored_eq hsrc h)
  have hnew : storedSum w srcs before x = reading w ((srcs.map fun src => src.lastRead before).sum +
      (srcs.map fun src => src.seen before x).sum) := by
    rw [← List.sum_map_add, ← sum_reading, storedSum, List.map_map]
    exact congrArg List.sum (List.map_congr_left fun src hsrc => hx.stored_eq h hsrc)
  rw [hold, hnew, toNat_reading, toNat_reading, reading_mod_of_not_wraps hx.fits]

/-- A counter on its own that stays below the modulus. -/
theorem kept_singleton_iff {src : Source α} (hlt : ∀ k, src.counter k < 2 ^ w)
    (h : EachAfter (Kept w [src]) before) :
    Kept w [src] before x ↔ src.readable x = true ∨ src.lastRead before = 0 := by
  have hlast : src.lastRead before < 2 ^ w := (src.lastRead_le before).trans_lt (hlt _)
  have hzero : src.lastStored w before = 0 ↔ src.lastRead before = 0 := by
    rw [lastStored_eq List.mem_cons_self h, ← BitVec.toNat_inj, toNat_reading,
      Nat.mod_eq_of_lt hlast]
    rfl
  constructor
  · intro hx
    exact (hx.found src List.mem_cons_self).imp_right hzero.mp
  · intro hx
    refine ⟨fun src' hsrc' => ?_, ?_⟩
    · cases List.mem_singleton.mp hsrc'
      exact hx.imp_right hzero.mpr
    · have hsum : src.lastRead before + src.seen before x ≤ src.counter before.length := by
        calc src.lastRead before + src.seen before x
            ≤ src.lastRead before + src.advance before :=
              Nat.add_le_add_left (src.seen_le before x) _
          _ = src.counter before.length := Nat.add_sub_cancel' (src.lastRead_le before)
      rw [List.map_singleton, List.map_singleton, List.sum_singleton, List.sum_singleton, Wraps,
        Nat.mod_eq_of_lt hlast, not_le]
      exact hsum.trans_lt (hlt _)

end Kept

end PTop.Framework
