import Mathlib.Data.List.Basic

/-!
# Slots with several writers

Writers store into the same slots one after the other, each into some of them. What
a slot shows in the end is what the last of its writers stored, so the order of the
writers matters as soon as two of them disagree.
-/

namespace PTop.Framework

variable {ι ν : Type*}

/-- What a slot shows after these writers; `none` when none of them writes it. -/
def lastWrite : List (ι → Option ν) → ι → Option ν
  | [], _ => none
  | w :: ws, i => (lastWrite ws i).or (w i)

theorem lastWrite_concat (ws : List (ι → Option ν)) (w : ι → Option ν) (i : ι) :
    lastWrite (ws ++ [w]) i = (w i).or (lastWrite ws i) := by
  induction ws with
  | nil =>
      show (none : Option ν).or (w i) = (w i).or none
      rw [Option.none_or, Option.or_none]
  | cons v ws ih =>
      show (lastWrite (ws ++ [w]) i).or (v i) = _
      rw [ih, Option.or_assoc]
      rfl

/-- What is shown was written. -/
theorem mem_of_lastWrite {ws : List (ι → Option ν)} {i : ι} {v : ν}
    (h : lastWrite ws i = some v) : ∃ w ∈ ws, w i = some v := by
  induction ws with
  | nil => cases h
  | cons w ws ih =>
      rcases Option.or_eq_some_iff.mp h with hlast | ⟨-, hw⟩
      · obtain ⟨w', hmem, hw'⟩ := ih hlast
        exact ⟨w', List.mem_cons_of_mem w hmem, hw'⟩
      · exact ⟨w, List.mem_cons_self, hw⟩

/-- **Writers that agree leave one result**, whatever their order. -/
theorem lastWrite_of_agree {ws : List (ι → Option ν)} {i : ι} {a : Option ν} (hne : ws ≠ [])
    (h : ∀ w ∈ ws, w i = a) : lastWrite ws i = a := by
  induction ws with
  | nil => exact absurd rfl hne
  | cons w ws ih =>
      show (lastWrite ws i).or (w i) = a
      rw [h w List.mem_cons_self]
      rcases eq_or_ne ws [] with rfl | hws
      · exact Option.none_or
      · rw [ih hws fun v hv => h v (List.mem_cons_of_mem w hv), Option.or_self]

/-- Leaving out part of what is written leaves it out of what is shown. -/
theorem lastWrite_map {ν' : Type*} (f : ν → ν') (ws : List (ι → Option ν)) (i : ι) :
    lastWrite (ws.map fun w j => (w j).map f) i = (lastWrite ws i).map f := by
  induction ws with
  | nil => rfl
  | cons w ws ih =>
      show (lastWrite (ws.map fun w j => (w j).map f) i).or ((w i).map f) = _
      rw [ih]
      show _ = ((lastWrite ws i).or (w i)).map f
      cases lastWrite ws i <;> rfl

end PTop.Framework
