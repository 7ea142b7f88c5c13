import PTop.Framework.Machine

/-!
# Two computations that may stop, side by side

A machine whose step is such a computation stands beside a twin. The rules follow the
shape of the code: what the parts have in common, the whole has in common.
-/

namespace PTop.Framework

/-- Both go on, with results that belong together, or both stop, for reasons that do. -/
inductive Alike {ε δ α β : Type*} (E : ε → δ → Prop) (Q : α → β → Prop) :
    Except ε α → Except δ β → Prop where
  | ok {a b} (h : Q a b) : Alike E Q (.ok a) (.ok b)
  | error {e d} (h : E e d) : Alike E Q (.error e) (.error d)

namespace Alike

section Rules

variable {ε δ : Type*} {E : ε → δ → Prop}

theorem map {α β α' β' : Type*} {Q : α → β → Prop} {Q' : α' → β' → Prop} {x : Except ε α}
    {y : Except δ β} {f : α → α'} {g : β → β'} (h : Alike E Q x y)
    (hf : ∀ a b, Q a b → Q' (f a) (g b)) : Alike E Q' (x.map f) (y.map g) := by
  cases h with
  | ok h => exact .ok (hf _ _ h)
  | error h => exact .error h

theorem mapError {ε' δ' α β : Type*} {E' : ε' → δ' → Prop} {Q : α → β → Prop} {x : Except ε α}
    {y : Except δ β} {f : ε → ε'} {g : δ → δ'} (h : Alike E Q x y)
    (hf : ∀ e d, E e d → E' (f e) (g d)) : Alike E' Q (x.mapError f) (y.mapError g) := by
  cases h with
  | ok h => exact .ok h
  | error h => exact .error (hf _ _ h)

/-- **The rule of sequencing.** -/
theorem bind {α β α' β' : Type} {Q : α → β → Prop} {Q' : α' → β' → Prop} {x : Except ε α}
    {y : Except δ β} {f : α → Except ε α'} {g : β → Except δ β'} (h : Alike E Q x y)
    (hf : ∀ a b, Q a b → Alike E Q' (f a) (g b)) : Alike E Q' (x >>= f) (y >>= g) := by
  cases h with
  | ok h => exact hf _ _ h
  | error h => exact .error h

end Rules

/-- **Computations side by side are machines side by side.** -/
theorem bisimulation {σ ι ω ε σ' ι' ω' δ : Type*} {f : ι → σ → Except ε (σ × ω)}
    {g : ι' → σ' → Except δ (σ' × ω')} {E : ε → δ → Prop} {R : σ → σ' → Prop} {I : ι → ι' → Prop}
    {O : ω → ω' → Prop} (h : ∀ {i j s t}, I i j → R s t →
      Alike E (fun a b => R a.1 b.1 ∧ O a.2 b.2) (f i s) (g j t)) :
    Bisimulation (Steps f) (Steps g) R I O where
  matched := by
    intro s t i j s' o t' o' hR hI hs ht
    have hboth := h hI hR
    rw [show f i s = .ok (s', o) from hs, show g j t = .ok (t', o') from ht] at hboth
    cases hboth with
    | ok h => exact h
  enabled := by
    intro s t i j hR hI
    have hboth := h hI hR
    unfold Steps
    generalize f i s = x at hboth ⊢
    generalize g j t = y at hboth ⊢
    constructor
    · rintro ⟨s', o, rfl⟩
      cases hboth with
      | @ok _ b h => exact ⟨b.1, b.2, rfl⟩
    · rintro ⟨t', o', rfl⟩
      cases hboth with
      | @ok a _ h => exact ⟨a.1, a.2, rfl⟩

end Alike

end PTop.Framework
