import Mathlib.Data.List.Basic

/-!
# Arrays with checked accesses, and loops over them

C reads and writes `a[i]` whatever `i` is. Here an access outside the array ends the
run and reports its index, so a run that goes through is one whose accesses are all
inside the array.
-/

namespace PTop.Framework

variable {α σ ε : Type*} {N : ℕ}

/-! ## Accesses -/

/-- Read `a[i]`. -/
def checkedGet (outside : Int → ε) (a : Vector α N) (i : Int) : Except ε α :=
  if h : 0 ≤ i ∧ i.toNat < N then .ok (a.get ⟨i.toNat, h.2⟩) else .error (outside i)

/-- Write `a[i]`. -/
def checkedSet (outside : Int → ε) (a : Vector α N) (i : Int) (x : α) : Except ε (Vector α N) :=
  if h : 0 ≤ i ∧ i.toNat < N then .ok (a.set i.toNat x h.2) else .error (outside i)

theorem checkedGet_natCast {outside : Int → ε} {a : Vector α N} {i : ℕ} (h : i < N) :
    checkedGet outside a i = .ok (a.get ⟨i, h⟩) :=
  dif_pos ⟨Int.natCast_nonneg i, h⟩

theorem checkedSet_natCast {outside : Int → ε} {a : Vector α N} {i : ℕ} (h : i < N) (x : α) :
    checkedSet outside a i x = .ok (a.set i x h) :=
  dif_pos ⟨Int.natCast_nonneg i, h⟩

theorem checkedSet_outside {outside : Int → ε} (a : Vector α N) {i : ℕ} (h : N ≤ i) (x : α) :
    checkedSet outside a i x = .error (outside i) :=
  dif_neg fun hin => absurd hin.2 (Nat.not_lt.mpr h)

/-! ## Loops -/

/-- `for (i = 0; i < n; i++)` over a body that may stop. -/
def forLoop (body : ℕ → σ → Except ε σ) : ℕ → σ → Except ε σ
  | 0, s => .ok s
  | n + 1, s => (forLoop body n s).bind (body n)

/-- **The invariant rule**, for a loop that goes through. -/
theorem forLoop_ok (Inv : ℕ → σ → Prop) {body : ℕ → σ → Except ε σ} {s : σ} (h₀ : Inv 0 s) :
    ∀ {n : ℕ}, (∀ i < n, ∀ s, Inv i s → ∃ s', body i s = .ok s' ∧ Inv (i + 1) s') →
      ∃ s', forLoop body n s = .ok s' ∧ Inv n s'
  | 0, _ => ⟨s, rfl, h₀⟩
  | n + 1, hstep => by
      obtain ⟨t, ht, hInv⟩ := forLoop_ok Inv h₀ fun i hi => hstep i (Nat.lt_succ_of_lt hi)
      obtain ⟨t', ht', hInv'⟩ := hstep n (Nat.lt_succ_self n) t hInv
      refine ⟨t', ?_, hInv'⟩
      rw [forLoop, ht]
      exact ht'

/-- **The first step that stops**, stops the loop. -/
theorem forLoop_error {body : ℕ → σ → Except ε σ} {m : ℕ} {s t : σ} {e : ε}
    (ht : forLoop body m s = .ok t) (he : body m t = .error e) :
    ∀ {n : ℕ}, m < n → forLoop body n s = .error e
  | n + 1, hmn => by
      rw [forLoop]
      rcases Nat.lt_succ_iff_lt_or_eq.mp hmn with hlt | rfl
      · rw [forLoop_error ht he hlt]
        rfl
      · rw [ht]
        exact he

/-! ## What a pass over the first cells does -/

/-- The cells before an index. -/
def firstCells (n : ℕ) (a : Vector α N) : List α := a.toList.take n

theorem firstCells_succ (a : Vector α N) {i : ℕ} (h : i < N) :
    firstCells (i + 1) a = firstCells i a ++ [a.get ⟨i, h⟩] :=
  List.take_succ_eq_append_getElem (by rwa [Vector.length_toList])

/-- The cells before an index have been changed, the others not yet. -/
def Swept (f : ℕ → α → α) (a : Vector α N) (i : ℕ) (b : Vector α N) : Prop :=
  ∀ j (h : j < N), b.get ⟨j, h⟩ = if j < i then f j (a.get ⟨j, h⟩) else a.get ⟨j, h⟩

theorem swept_zero (f : ℕ → α → α) (a : Vector α N) : Swept f a 0 a := by
  intro j h
  rw [if_neg (Nat.not_lt_zero j)]

theorem Swept.current {f : ℕ → α → α} {a b : Vector α N} {i : ℕ} (h : Swept f a i b) (hi : i < N) :
    b.get ⟨i, hi⟩ = a.get ⟨i, hi⟩ := by
  rw [h i hi, if_neg (Nat.lt_irrefl i)]

theorem Swept.set {f : ℕ → α → α} {a b : Vector α N} {i : ℕ} (h : Swept f a i b) (hi : i < N)
    {x : α} (hx : x = f i (a.get ⟨i, hi⟩)) : Swept f a (i + 1) (b.set i x hi) := by
  intro j hj
  show (b.set i x hi)[j] = _
  rw [Vector.getElem_set]
  by_cases hij : i = j
  · subst hij
    rw [if_pos rfl, if_pos (Nat.lt_succ_self i), hx]
  · rw [if_neg hij]
    refine (h j hj).trans ?_
    by_cases hlt : j < i
    · rw [if_pos hlt, if_pos (Nat.lt_succ_of_lt hlt)]
    · rw [if_neg hlt, if_neg (by omega)]

/-- A cell that the pass leaves as it is. -/
theorem Swept.skip {f : ℕ → α → α} {a b : Vector α N} {i : ℕ} (h : Swept f a i b) (hi : i < N)
    (hx : a.get ⟨i, hi⟩ = f i (a.get ⟨i, hi⟩)) : Swept f a (i + 1) b := by
  intro j hj
  by_cases hij : i = j
  · subst hij
    rw [h.current hi, if_pos (Nat.lt_succ_self i), ← hx]
  · rw [h j hj]
    by_cases hlt : j < i
    · rw [if_pos hlt, if_pos (Nat.lt_succ_of_lt hlt)]
    · rw [if_neg hlt, if_neg (by omega)]

theorem length_firstCells (a : Vector α N) {n : ℕ} (h : n ≤ N) : (firstCells n a).length = n := by
  rw [firstCells, List.length_take, Vector.length_toList, Nat.min_eq_left h]

theorem Swept.firstCells_eq {f : ℕ → α → α} {a b : Vector α N} {n : ℕ} (h : Swept f a n b) :
    ∀ {i : ℕ}, i ≤ n → i ≤ N → firstCells i b = (firstCells i a).mapIdx f
  | 0, _, _ => rfl
  | i + 1, hin, hi => by
      have ih := h.firstCells_eq (Nat.le_of_succ_le hin) (Nat.le_of_succ_le hi)
      have hlen := length_firstCells a (Nat.le_of_succ_le hi)
      rw [firstCells_succ b hi, firstCells_succ a hi, List.mapIdx_append, ih, h i hi,
        if_pos (by omega), List.mapIdx_singleton, Nat.zero_add, hlen]

/-- A pass that does the same to every cell. -/
theorem Swept.firstCells_map {g : α → α} {a b : Vector α N} {n : ℕ}
    (h : Swept (fun _ => g) a n b) (hn : n ≤ N) : firstCells n b = (firstCells n a).map g := by
  rw [h.firstCells_eq (Nat.le_refl n) hn]
  exact List.ext_getElem (by simp) (by simp)

/-- A pass that fills the cells. -/
theorem Swept.firstCells_range {g : ℕ → α} {a b : Vector α N} {n : ℕ}
    (h : Swept (fun i _ => g i) a n b) (hn : n ≤ N) : firstCells n b = (List.range n).map g := by
  rw [h.firstCells_eq (Nat.le_refl n) hn]
  exact List.ext_getElem (by simp [length_firstCells a hn]) (by simp)

end PTop.Framework
