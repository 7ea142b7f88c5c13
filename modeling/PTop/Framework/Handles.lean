import PTop.Framework.Machine
import Mathlib.Data.List.Perm.Basic

/-!
# Handles: nothing lost, nothing closed twice

A program opens and closes handles and keeps the open ones in places of its own.
The log of opens and closes says which handles are open; an account says that
the places hold exactly these, each once. Every way to change a place comes with
the events that keep the account.
-/

namespace PTop.Framework

/-- Something that happens to a handle. -/
inductive HandleEvent (H : Type*) where
  | opened (h : H)
  | closed (h : H)

variable {H : Type*} [DecidableEq H]

/-- The handles open after an event. -/
def HandleEvent.apply (live : List H) : HandleEvent H → List H
  | .opened h => h :: live
  | .closed h => live.erase h

/-- The handles opened and not yet closed. -/
def live (log : List (HandleEvent H)) : List H := log.foldl HandleEvent.apply []

/-- The event opens no handle that is open already. -/
def HandleEvent.Fresh (before : List (HandleEvent H)) : HandleEvent H → Prop
  | .opened h => h ∉ live before
  | .closed _ => True

/-- The event closes no handle that is not open. -/
def HandleEvent.Hits (before : List (HandleEvent H)) : HandleEvent H → Prop
  | .opened _ => True
  | .closed h => h ∈ live before

instance (before : List (HandleEvent H)) : DecidablePred (HandleEvent.Fresh before)
  | .opened h => inferInstanceAs (Decidable (h ∉ live before))
  | .closed _ => .isTrue trivial

/-- What the environment promises about its handles. -/
def OpensFresh : List (HandleEvent H) → Prop := EachAfter HandleEvent.Fresh

/-- What the program owes. -/
def ClosesLive : List (HandleEvent H) → Prop := EachAfter HandleEvent.Hits

instance (log : List (HandleEvent H)) : Decidable (OpensFresh log) :=
  inferInstanceAs (Decidable (EachAfter _ log))

/-- The places of the program hold the open handles, each once. -/
structure Accounts (held : List H) (log : List (HandleEvent H)) : Prop where
  nodup : held.Nodup
  perm : held.Perm (live log)
  closes : ClosesLive log

@[simp] theorem live_snoc_opened (log : List (HandleEvent H)) (h : H) :
    live (log ++ [.opened h]) = h :: live log := by
  simp [live, HandleEvent.apply]

@[simp] theorem live_snoc_closed (log : List (HandleEvent H)) (h : H) :
    live (log ++ [.closed h]) = (live log).erase h := by
  simp [live, HandleEvent.apply]

namespace Accounts

variable {held held' : List H} {log : List (HandleEvent H)} {h : H}

theorem nil : Accounts ([] : List H) [] := ⟨List.nodup_nil, .refl _, eachAfter_nil _⟩

/-- It does not matter which place holds which handle. -/
theorem of_perm (ha : Accounts held log) (hp : held'.Perm held) : Accounts held' log :=
  ⟨hp.nodup_iff.mpr ha.nodup, hp.trans ha.perm, ha.closes⟩

theorem mem_iff (ha : Accounts held log) : h ∈ held ↔ h ∈ live log := ha.perm.mem_iff

/-- A fresh handle is put into a place. -/
theorem opened (ha : Accounts held log) (hfresh : OpensFresh (log ++ [.opened h])) :
    Accounts (h :: held) (log ++ [.opened h]) := by
  have hnew : h ∉ live log := (eachAfter_snoc.mp hfresh).2
  refine ⟨List.nodup_cons.mpr ⟨fun hmem => hnew (ha.mem_iff.mp hmem), ha.nodup⟩, ?_, ?_⟩
  · rw [live_snoc_opened]
    exact ha.perm.cons h
  · exact eachAfter_snoc.mpr ⟨ha.closes, trivial⟩

/-- Fresh handles are put into places one after the other. -/
theorem openAll : ∀ {hs held : List H} {log : List (HandleEvent H)}, Accounts held log →
    OpensFresh (log ++ hs.map .opened) → Accounts (hs ++ held) (log ++ hs.map .opened)
  | [], held, log, ha, _ => by simpa using ha
  | h :: hs, held, log, ha, hfresh => by
      rw [List.map_cons, List.append_cons] at hfresh ⊢
      have hrest := openAll (ha.opened hfresh.of_append) hfresh
      exact hrest.of_perm List.perm_middle.symm

/-- A handle is closed and taken out of its place. -/
theorem closed (ha : Accounts (h :: held) log) : Accounts held (log ++ [.closed h]) := by
  refine ⟨(List.nodup_cons.mp ha.nodup).2, ?_, ?_⟩
  · rw [live_snoc_closed]
    have herase := ha.perm.erase h
    rwa [List.erase_cons_head] at herase
  · exact eachAfter_snoc.mpr ⟨ha.closes, ha.mem_iff.mp List.mem_cons_self⟩

/-- Several places are emptied one after the other. -/
theorem closeAll : ∀ {hs : List H} {log : List (HandleEvent H)},
    Accounts (hs ++ held) log → Accounts held (log ++ hs.map .closed)
  | [], log, ha => by simpa using ha
  | h :: hs, log, ha => by
      have hrest : Accounts held (log ++ [.closed h] ++ hs.map .closed) := closeAll (closed ha)
      rwa [List.append_assoc, List.singleton_append] at hrest

end Accounts

/-! ## Changing one place -/

/-- What a place holds before and after a change, and the events of the change. -/
inductive PlaceChange : Option H → Option H → List (HandleEvent H) → Prop where
  | keep (x : Option H) : PlaceChange x x []
  | opens (h : H) : PlaceChange none (some h) [.opened h]
  | closes (h : H) : PlaceChange (some h) none [.closed h]

/-- **A change of one place keeps the account.** -/
theorem Accounts.change {x x' : Option H} {rest : List H} {log ev : List (HandleEvent H)}
    (ha : Accounts (x.toList ++ rest) log) (hchange : PlaceChange x x' ev)
    (hfresh : OpensFresh (log ++ ev)) : Accounts (x'.toList ++ rest) (log ++ ev) := by
  cases hchange with
  | keep => rwa [List.append_nil]
  | opens h => exact ha.opened hfresh
  | closes h => exact Accounts.closed ha

end PTop.Framework
