import Mathlib.Data.List.Basic

/-!
# Computations that leave a trace

A computation that may stop, together with the events up to the point where it did.
A function is instrumented by a twin over `Traced`; that the twin computes the same
is one equation about `result`.
-/

namespace PTop.Framework

universe u v

/-- A result, if there is one, and what happened on the way. -/
structure Traced (ε : Type u) (α : Type v) where
  trace : List ε
  result : Option α

namespace Traced

variable {ε ε' : Type u} {α β : Type v}

/-- Go on after a computation, unless it stopped. -/
def andThen (x : Traced ε α) (f : α → Traced ε β) : Traced ε β :=
  match x.result with
  | none => ⟨x.trace, none⟩
  | some a => ⟨x.trace ++ (f a).trace, (f a).result⟩

instance : Monad (Traced ε) where
  pure a := ⟨[], some a⟩
  bind := andThen

/-- An event. -/
def tell (e : ε) : Traced ε PUnit := ⟨[e], some ⟨⟩⟩

/-- A computation without events. -/
def lift (x : Option α) : Traced ε α := ⟨[], x⟩

/-- The events seen from outside. -/
def within (f : ε → ε') (x : Traced ε α) : Traced ε' α := ⟨x.trace.map f, x.result⟩

@[simp] theorem trace_pure (a : α) : (pure a : Traced ε α).trace = [] := rfl
@[simp] theorem result_pure (a : α) : (pure a : Traced ε α).result = some a := rfl
@[simp] theorem result_tell (e : ε) : (tell e).result = some ⟨⟩ := rfl
@[simp] theorem result_lift (x : Option α) : (lift x : Traced ε α).result = x := rfl
@[simp] theorem trace_within (f : ε → ε') (x : Traced ε α) :
    (x.within f).trace = x.trace.map f := rfl
@[simp] theorem result_within (f : ε → ε') (x : Traced ε α) :
    (x.within f).result = x.result := rfl

/-- The result does not depend on the events. -/
@[simp] theorem result_bind (x : Traced ε α) (f : α → Traced ε β) :
    (x >>= f).result = x.result.bind fun a => (f a).result := by
  show (x.andThen f).result = _
  unfold andThen
  cases x.result <;> rfl

/-- The events of one part, then those of the next. -/
theorem trace_bind {x : Traced ε α} {a : α} (h : x.result = some a) (f : α → Traced ε β) :
    (x >>= f).trace = x.trace ++ (f a).trace := by
  show (x.andThen f).trace = _
  unfold andThen
  rw [h]

end Traced

end PTop.Framework
