import Mathlib.Data.List.Induction
import Mathlib.Data.List.Sort
import Mathlib.Data.Set.Function
import Mathlib.Order.Interval.Set.Defs

/-!
# Bounded insertion into an array

An array that keeps its first entries in descending order takes a new entry by
shifting the smaller ones up. Read from its last entry to its first, that is an
ordered insertion into a list. With a capacity, an array that is full ignores
the new entry.

The order is a relation `below`, and only its behaviour on the entries at hand
is assumed.
-/

namespace PTop.Framework

variable {α : Type*}

/-- The first `n` entries, the last one first. -/
def prefixRev (A : ℕ → α) : ℕ → List α
  | 0 => []
  | n + 1 => A n :: prefixRev A n

theorem prefixRev_congr {A B : ℕ → α} : ∀ {n : ℕ}, (∀ j < n, A j = B j) →
    prefixRev A n = prefixRev B n
  | 0, _ => rfl
  | n + 1, h => by
      rw [prefixRev, prefixRev, h n (Nat.lt_succ_self n),
        prefixRev_congr fun j hj => h j (Nat.lt_succ_of_lt hj)]

theorem reverse_prefixRev (A : ℕ → α) : ∀ n, (prefixRev A n).reverse = (List.range n).map A
  | 0 => rfl
  | n + 1 => by
      rw [prefixRev, List.reverse_cons, reverse_prefixRev A n, List.range_succ, List.map_append,
        List.map_singleton]

section Insertion

variable (below : α → α → Prop) [DecidableRel below]

/-- Shift the entries below `x` up by one place, from entry `n - 1` downwards.
Returns the place that has become free. -/
def shiftBelow (x : α) : ℕ → (ℕ → α) → ℕ × (ℕ → α)
  | 0, A => (0, A)
  | i + 1, A =>
      if below (A i) x then shiftBelow x i (Function.update A (i + 1) (A i)) else (i + 1, A)

theorem shiftBelow_fst_le (x : α) : ∀ {n : ℕ} {A : ℕ → α}, (shiftBelow below x n A).1 ≤ n
  | 0, _ => Nat.le_refl 0
  | n + 1, A => by
      rw [shiftBelow]
      split
      · exact (shiftBelow_fst_le x).trans (Nat.le_succ n)
      · exact Nat.le_refl _

/-- Insert `x` among the first `n` entries. -/
def insertSlot (x : α) (n : ℕ) (A : ℕ → α) : ℕ → α :=
  Function.update (shiftBelow below x n A).2 (shiftBelow below x n A).1 x

/-- Insert `x` unless the array is full. -/
def boundedInsert (cap : ℕ) (x : α) (n : ℕ) (A : ℕ → α) : ℕ → α :=
  if n < cap then insertSlot below x n A else A

theorem insertSlot_succ (x : α) (n : ℕ) (A : ℕ → α) :
    insertSlot below x (n + 1) A =
      if below (A n) x then insertSlot below x n (Function.update A (n + 1) (A n))
      else Function.update A (n + 1) x := by
  unfold insertSlot
  by_cases h : below (A n) x
  · simp only [shiftBelow, if_pos h]
  · simp only [shiftBelow, if_neg h]

/-- Entries past the end are not touched. -/
theorem insertSlot_of_gt (x : α) : ∀ {n : ℕ} {A : ℕ → α} {j : ℕ}, n < j →
    insertSlot below x n A j = A j
  | 0, A, j, hj => Function.update_of_ne hj.ne' ..
  | n + 1, A, j, hj => by
      rw [insertSlot_succ]
      split
      · rw [insertSlot_of_gt x (Nat.lt_of_succ_lt hj), Function.update_of_ne hj.ne']
      · rw [Function.update_of_ne hj.ne']

/-- **Shifting and storing is ordered insertion.** -/
theorem prefixRev_insertSlot (x : α) : ∀ (n : ℕ) (A : ℕ → α),
    prefixRev (insertSlot below x n A) (n + 1) =
      (prefixRev A n).orderedInsert (fun a b => ¬ below b a) x
  | 0, A => by simp [prefixRev, insertSlot, shiftBelow]
  | n + 1, A => by
      by_cases h : below (A n) x
      · have hshift : insertSlot below x (n + 1) A =
            insertSlot below x n (Function.update A (n + 1) (A n)) := by
          rw [insertSlot_succ, if_pos h]
        have htop : insertSlot below x (n + 1) A (n + 1) = A n := by
          rw [hshift, insertSlot_of_gt below x (Nat.lt_succ_self n), Function.update_self]
        have hrest : prefixRev (Function.update A (n + 1) (A n)) n = prefixRev A n :=
          prefixRev_congr fun j hj => Function.update_of_ne (by omega) ..
        rw [prefixRev, htop, hshift, prefixRev_insertSlot x n, hrest, prefixRev,
          List.orderedInsert_cons, if_neg (not_not.mpr h)]
      · have hstop : insertSlot below x (n + 1) A = Function.update A (n + 1) x := by
          rw [insertSlot_succ, if_neg h]
        have hrest : prefixRev (Function.update A (n + 1) x) (n + 1) = prefixRev A (n + 1) :=
          prefixRev_congr fun j hj => Function.update_of_ne (by omega) ..
        rw [prefixRev, hstop, hrest, Function.update_self, prefixRev, List.orderedInsert_cons,
          if_pos h]

end Insertion

/-- Ordered insertion by `r` keeps a list sorted by `s` where both agree on the new
element, and `s` holds along `r`. -/
theorem pairwise_orderedInsert {r s : α → α → Prop} [DecidableRel r] {x : α} :
    ∀ {l : List α}, (∀ b ∈ l, r x b → s x b) → (∀ b ∈ l, ¬ r x b → s b x) →
      (∀ b ∈ l, ∀ c ∈ l, r x b → s b c → s x c) → l.Pairwise s → (l.orderedInsert r x).Pairwise s
  | [], _, _, _, _ => List.pairwise_singleton s x
  | b :: l, hbefore, hafter, htrans, hl => by
      obtain ⟨hb, hl'⟩ := List.pairwise_cons.mp hl
      rw [List.orderedInsert_cons]
      by_cases h : r x b
      · rw [if_pos h]
        refine List.pairwise_cons.mpr ⟨?_, hl⟩
        intro c hc
        rcases List.mem_cons.mp hc with rfl | hc'
        · exact hbefore c hc h
        · exact htrans b List.mem_cons_self c hc h (hb c hc')
      · rw [if_neg h]
        have ih := pairwise_orderedInsert
          (fun c hc => hbefore c (List.mem_cons_of_mem b hc))
          (fun c hc => hafter c (List.mem_cons_of_mem b hc))
          (fun c hc d hd => htrans c (List.mem_cons_of_mem b hc) d (List.mem_cons_of_mem b hd)) hl'
        refine List.pairwise_cons.mpr ⟨?_, ih⟩
        intro c hc
        rcases (List.mem_orderedInsert r).mp hc with rfl | hc
        · exact hafter b List.mem_cons_self h
        · exact hb c hc

/-! ## A sequence of offers -/

section Offers

variable (below : α → α → Prop)

/-- `below` is a strict weak order on the entries of `xs`. -/
structure WeakOrderOn (xs : List α) : Prop where
  asymm : ∀ a ∈ xs, ∀ b ∈ xs, below a b → ¬ below b a
  negTrans : ∀ a ∈ xs, ∀ b ∈ xs, ∀ c ∈ xs, ¬ below a b → ¬ below b c → ¬ below a c

/-- `kept` are the highest entries of `xs`, in descending order. -/
def IsTop (kept xs : List α) : Prop :=
  kept.Pairwise (fun a b => ¬ below a b) ∧
    ∃ left, (kept ++ left).Perm xs ∧ ∀ x ∈ left, ∀ y ∈ kept, ¬ below y x

variable {below}

/-- The first entries of a sequence are its highest iff no later one is higher. -/
theorem isTop_iff {kept xs : List α} {cap : ℕ} (hperm : kept.Perm (xs.take cap))
    (hsorted : kept.Pairwise fun a b => ¬ below a b) :
    IsTop below kept xs ↔ ∀ x ∈ xs.drop cap, ∀ y ∈ xs.take cap, ¬ below y x := by
  have hsplit : ∀ {left : List α}, (kept ++ left).Perm xs ↔ left.Perm (xs.drop cap) := by
    intro left
    have hxs : (kept ++ xs.drop cap).Perm xs := by
      have h := hperm.append_right (xs.drop cap)
      rwa [List.take_append_drop] at h
    constructor
    · intro h
      exact (List.perm_append_left_iff kept).mp (h.trans hxs.symm)
    · intro h
      exact ((List.perm_append_left_iff kept).mpr h).trans hxs
  constructor
  · rintro ⟨-, left, hleft, hhigh⟩ x hx y hy
    exact hhigh x ((hsplit.mp hleft).mem_iff.mpr hx) y (hperm.mem_iff.mpr hy)
  · intro h
    refine ⟨hsorted, xs.drop cap, hsplit.mpr (List.Perm.refl _), ?_⟩
    intro x hx y hy
    exact h x hx y (hperm.mem_iff.mp hy)

variable (below) [DecidableRel below]

/-- Offer one entry to an array of `d.2` offers so far. -/
def offerTo (cap : ℕ) (d : (ℕ → α) × ℕ) (x : α) : (ℕ → α) × ℕ :=
  (boundedInsert below cap x d.2 d.1, d.2 + 1)

theorem foldl_offerTo_snd (cap : ℕ) (A : ℕ → α) (n : ℕ) (xs : List α) :
    (xs.foldl (offerTo below cap) (A, n)).2 = n + xs.length := by
  induction xs using List.reverseRecOn with
  | nil => rfl
  | append_singleton xs x ih =>
      rw [List.foldl_append, List.length_append]
      exact congrArg (· + 1) ih

/-- One more offer: an ordered insertion while there is room, nothing after. -/
theorem prefixRev_offer (cap : ℕ) (A : ℕ → α) (xs : List α) (x : α) :
    prefixRev ((xs ++ [x]).foldl (offerTo below cap) (A, 0)).1 (min (xs ++ [x]).length cap) =
      if xs.length < cap then
        (prefixRev (xs.foldl (offerTo below cap) (A, 0)).1 (min xs.length cap)).orderedInsert
          (fun a b => ¬ below b a) x
      else prefixRev (xs.foldl (offerTo below cap) (A, 0)).1 (min xs.length cap) := by
  have hlen := foldl_offerTo_snd below cap A 0 xs
  rw [Nat.zero_add] at hlen
  rw [List.foldl_append, List.foldl_cons, List.foldl_nil, List.length_append,
    List.length_singleton]
  simp only [offerTo, hlen, boundedInsert]
  by_cases hfull : xs.length < cap
  · rw [if_pos hfull, if_pos hfull, Nat.min_eq_left hfull.le, Nat.min_eq_left hfull,
      prefixRev_insertSlot]
  · rw [if_neg hfull, if_neg hfull, Nat.min_eq_right (not_lt.mp hfull),
      Nat.min_eq_right (by omega)]

theorem WeakOrderOn.of_append {below : α → α → Prop} {xs ys : List α}
    (h : WeakOrderOn below (xs ++ ys)) : WeakOrderOn below xs where
  asymm a ha b hb := h.asymm a (List.mem_append_left ys ha) b (List.mem_append_left ys hb)
  negTrans a ha b hb c hc := h.negTrans a (List.mem_append_left ys ha) b
    (List.mem_append_left ys hb) c (List.mem_append_left ys hc)

/-- The entries kept are the first offers. -/
theorem foldl_offerTo_perm (cap : ℕ) (A : ℕ → α) (xs : List α) :
    (prefixRev (xs.foldl (offerTo below cap) (A, 0)).1 (min xs.length cap)).Perm
      (xs.take cap) := by
  induction xs using List.reverseRecOn with
  | nil => simp [prefixRev]
  | append_singleton xs x ih =>
      rw [prefixRev_offer]
      by_cases hfull : xs.length < cap
      · rw [List.take_of_length_le hfull.le] at ih
        rw [if_pos hfull, List.take_of_length_le (by simpa using Nat.succ_le_of_lt hfull)]
        exact (List.perm_orderedInsert _ x _).trans
          ((ih.cons x).trans (List.perm_append_singleton x xs).symm)
      · rw [if_neg hfull, List.take_append_of_le_length (not_lt.mp hfull)]
        exact ih

/-- **A relation the offers keep.** `s` orders the entries kept, the last one
first, if every new entry is put on its right side. -/
theorem foldl_offerTo_pairwise {s : α → α → Prop} (cap : ℕ) (A : ℕ → α) {xs : List α}
    (hstep : ∀ before x after, xs = before ++ x :: after → before.length < cap →
      (∀ b ∈ before, ¬ below b x → s x b) ∧ (∀ b ∈ before, below b x → s b x) ∧
        ∀ b ∈ before, ∀ c ∈ before, ¬ below b x → s b c → s x c) :
    (prefixRev (xs.foldl (offerTo below cap) (A, 0)).1 (min xs.length cap)).Pairwise s := by
  induction xs using List.reverseRecOn with
  | nil => simp [prefixRev]
  | append_singleton xs x ih =>
      have hmem : ∀ {b}, b ∈ prefixRev (xs.foldl (offerTo below cap) (A, 0)).1
          (min xs.length cap) → b ∈ xs := fun hb =>
        List.mem_of_mem_take ((foldl_offerTo_perm below cap A xs).mem_iff.mp hb)
      have ih := ih fun before y after hxs => hstep before y (after ++ [x]) (by simp [hxs])
      rw [prefixRev_offer]
      by_cases hfull : xs.length < cap
      · obtain ⟨hbefore, hafter, htrans⟩ := hstep xs x [] rfl hfull
        rw [if_pos hfull]
        refine pairwise_orderedInsert ?_ ?_ ?_ ih
        · intro b hb h
          exact hbefore b (hmem hb) h
        · intro b hb h
          exact hafter b (hmem hb) (not_not.mp h)
        · intro b hb c hc h hbc
          exact htrans b (hmem hb) c (hmem hc) h hbc
      · rw [if_neg hfull]
        exact ih

/-- **A bounded array keeps the first offers, in order.** -/
theorem foldl_offerTo (cap : ℕ) (A : ℕ → α) {xs : List α} (hxs : WeakOrderOn below xs) :
    (prefixRev (xs.foldl (offerTo below cap) (A, 0)).1 (min xs.length cap)).Perm (xs.take cap) ∧
      (prefixRev (xs.foldl (offerTo below cap) (A, 0)).1 (min xs.length cap)).Pairwise
        fun a b => ¬ below b a := by
  refine ⟨foldl_offerTo_perm below cap A xs, foldl_offerTo_pairwise below cap A ?_⟩
  rintro before x after rfl -
  have hmem : ∀ {b}, b ∈ before → b ∈ before ++ x :: after := fun hb =>
    List.mem_append_left _ hb
  have hx : x ∈ before ++ x :: after := List.mem_append_cons_self
  refine ⟨fun b _ h => h, fun b hb h => hxs.asymm b (hmem hb) x hx h, ?_⟩
  intro b hb c hc h₁ h₂
  exact hxs.negTrans c (hmem hc) b (hmem hb) x hx h₂ h₁

/-- Entries past the ones kept are not touched. -/
theorem foldl_offerTo_of_ge (cap : ℕ) (A : ℕ → α) (xs : List α) {j : ℕ}
    (hj : min xs.length cap ≤ j) : (xs.foldl (offerTo below cap) (A, 0)).1 j = A j := by
  induction xs using List.reverseRecOn with
  | nil => rfl
  | append_singleton xs x ih =>
      have hlen := foldl_offerTo_snd below cap A 0 xs
      rw [List.length_append, List.length_singleton] at hj
      rw [List.foldl_append, List.foldl_cons, List.foldl_nil, offerTo, boundedInsert, hlen]
      by_cases hroom : 0 + xs.length < cap
      · rw [if_pos hroom]
        exact (insertSlot_of_gt below x (by omega)).trans (ih (by omega))
      · rw [if_neg hroom]
        exact ih (by omega)

/-- The kept entries are the highest ones exactly when no later offer is higher. -/
theorem isTop_foldl_offerTo (cap : ℕ) (A : ℕ → α) {xs : List α} (hxs : WeakOrderOn below xs) :
    IsTop below ((List.range (min xs.length cap)).map
        (xs.foldl (offerTo below cap) (A, 0)).1) xs ↔
      ∀ x ∈ xs.drop cap, ∀ y ∈ xs.take cap, ¬ below y x := by
  obtain ⟨hperm, hsorted⟩ := foldl_offerTo below cap A hxs
  rw [← reverse_prefixRev]
  exact isTop_iff ((List.reverse_perm _).trans hperm) (List.pairwise_reverse.mpr hsorted)

end Offers

/-! ## Arrival order -/

section Arrival

variable {β : Type*} (below : α → α → Prop) [DecidableRel below]

/-- Insertion sees an entry through the order only. -/
theorem shiftBelow_map (f : β → α) (x : β) : ∀ (n : ℕ) (A : ℕ → β),
    shiftBelow below (f x) n (f ∘ A) =
      ((shiftBelow (Order.Preimage f below) x n A).1,
        f ∘ (shiftBelow (Order.Preimage f below) x n A).2)
  | 0, _ => rfl
  | n + 1, A => by
      rw [shiftBelow, shiftBelow]
      by_cases h : below (f (A n)) (f x)
      · rw [if_pos (show below ((f ∘ A) n) (f x) from h),
          if_pos (show Order.Preimage f below (A n) x from h), Function.comp_apply,
          ← Function.comp_update, shiftBelow_map f x n]
      · rw [if_neg (show ¬ below ((f ∘ A) n) (f x) from h),
          if_neg (show ¬ Order.Preimage f below (A n) x from h)]

theorem offerTo_map (f : β → α) (cap : ℕ) (A : ℕ → β) (n : ℕ) (x : β) :
    offerTo below cap (f ∘ A, n) (f x) =
      (f ∘ (offerTo (Order.Preimage f below) cap (A, n) x).1, n + 1) := by
  unfold offerTo boundedInsert
  by_cases h : n < cap
  · simp only [if_pos h, insertSlot, shiftBelow_map, Function.comp_update]
  · simp only [if_neg h]

theorem foldl_offerTo_map (f : β → α) (cap : ℕ) : ∀ (xs : List β) (A : ℕ → β) (n : ℕ),
    ((xs.map f).foldl (offerTo below cap) (f ∘ A, n)).1 =
      f ∘ (xs.foldl (offerTo (Order.Preimage f below) cap) (A, n)).1
  | [], _, _ => rfl
  | x :: xs, A, n => by
      rw [List.map_cons, List.foldl_cons, List.foldl_cons, offerTo_map]
      exact foldl_offerTo_map f cap xs _ (n + 1)

/-- What the first entries of `B` are after the offers `xs`: `σ` gives the arrival
number of each of them. -/
structure KeptInOrder (cap : ℕ) (xs : List α) (B : ℕ → α) (σ : ℕ → ℕ) : Prop where
  entry : ∀ i < min xs.length cap, xs[σ i]? = some (B i)
  bijOn : Set.BijOn σ (Set.Iio (min xs.length cap)) (Set.Iio (min xs.length cap))
  descending : ∀ i j, i < j → j < min xs.length cap → ¬ below (B i) (B j)
  stable : ∀ i j, i < j → j < min xs.length cap → ¬ below (B j) (B i) → σ i < σ j

/-- **No offer is duplicated, and equal ones stay in arrival order.** -/
theorem exists_keptInOrder (cap : ℕ) (A : ℕ → α) {xs : List α} (hxs : WeakOrderOn below xs) :
    ∃ σ, KeptInOrder below cap xs (xs.foldl (offerTo below cap) (A, 0)).1 σ := by
  -- the same offers, each with its arrival number
  set B : ℕ → α × ℕ := (xs.zipIdx.foldl (offerTo (Order.Preimage Prod.fst below) cap)
    (fun j => (A j, 0), 0)).1 with hB
  have hfst : (xs.foldl (offerTo below cap) (A, 0)).1 = Prod.fst ∘ B := by
    have hmap := foldl_offerTo_map below Prod.fst cap xs.zipIdx (fun j => (A j, 0)) 0
    rwa [List.zipIdx_map_fst] at hmap
  have hmem : ∀ {p : α × ℕ}, p ∈ xs.zipIdx → p.1 ∈ xs := fun hp =>
    List.mem_of_getElem? (List.mem_zipIdx_iff_getElem?.mp hp)
  have hperm : ((List.range (min xs.length cap)).map B).Perm (xs.zipIdx.take cap) := by
    have h := foldl_offerTo_perm (Order.Preimage Prod.fst below) cap (fun j => (A j, 0)) xs.zipIdx
    rw [List.length_zipIdx, ← hB] at h
    rw [← reverse_prefixRev]
    exact (List.reverse_perm _).trans h
  have hsorted : ((List.range (min xs.length cap)).map B).Pairwise fun p q =>
      ¬ below p.1 q.1 ∧ (¬ below q.1 p.1 → p.2 < q.2) := by
    rw [← reverse_prefixRev, List.pairwise_reverse, hB, ← List.length_zipIdx (i := 0)]
    refine foldl_offerTo_pairwise (Order.Preimage Prod.fst below) cap _ ?_
    intro before x after hsplit _
    have hin : ∀ {p}, p ∈ before → p.1 ∈ xs := fun hp =>
      hmem (hsplit ▸ List.mem_append_left _ hp)
    have hx : x.1 ∈ xs := hmem (hsplit ▸ List.mem_append_cons_self)
    -- numbers grow along the offers
    have hlate : ∀ {p}, p ∈ before → p.2 < x.2 := by
      intro p hp
      have hnum : xs.zipIdx.Pairwise fun p q => p.2 < q.2 := by
        rw [← List.pairwise_map, List.zipIdx_map_snd]
        exact List.pairwise_lt_range'
      rw [hsplit] at hnum
      exact (List.pairwise_append.mp hnum).2.2 p hp x List.mem_cons_self
    refine ⟨fun b hb h => ⟨h, fun _ => hlate hb⟩, ?_, ?_⟩
    · intro b hb h
      exact ⟨hxs.asymm b.1 (hin hb) x.1 hx h, fun hn => absurd h hn⟩
    · intro b hb c hc h₁ h₂
      exact ⟨hxs.negTrans c.1 (hin hc) b.1 (hin hb) x.1 hx h₂.1 h₁, fun _ => hlate hc⟩
  have hbefore : ∀ i j, i < j → j < min xs.length cap →
      ¬ below (B i).1 (B j).1 ∧ (¬ below (B j).1 (B i).1 → (B i).2 < (B j).2) := by
    intro i j hij hj
    rw [List.pairwise_map] at hsorted
    have h := List.pairwise_iff_getElem.mp hsorted i j (by simpa using hij.trans hj)
      (by simpa using hj) hij
    rwa [List.getElem_range, List.getElem_range] at h
  have hnumbers : ((List.range (min xs.length cap)).map fun i => (B i).2).Perm
      (List.range (min xs.length cap)) := by
    have h := hperm.map Prod.snd
    rw [List.map_map, List.map_take, List.zipIdx_map_snd, ← List.range_eq_range',
      List.take_range, Nat.min_comm cap] at h
    exact h
  refine ⟨fun i => (B i).2, ?_, ⟨?_, ?_, ?_⟩, ?_, ?_⟩
  · intro i hi
    have hi : B i ∈ (List.range (min xs.length cap)).map B :=
      List.mem_map_of_mem (List.mem_range.mpr hi)
    rw [hfst, Function.comp_apply]
    exact List.mem_zipIdx_iff_getElem?.mp (List.mem_of_mem_take (hperm.mem_iff.mp hi))
  · intro i hi
    exact List.mem_range.mp (hnumbers.mem_iff.mp (List.mem_map_of_mem (List.mem_range.mpr hi)))
  · intro i hi j hj hij
    exact List.inj_on_of_nodup_map (hnumbers.nodup_iff.mpr List.nodup_range)
      (List.mem_range.mpr hi) (List.mem_range.mpr hj) hij
  · intro k hk
    obtain ⟨i, hi, hik⟩ := List.mem_map.mp (hnumbers.mem_iff.mpr (List.mem_range.mpr hk))
    exact ⟨i, List.mem_range.mp hi, hik⟩
  · intro i j hij hj
    rw [hfst]
    exact (hbefore i j hij hj).1
  · intro i j hij hj h
    rw [hfst] at h
    exact (hbefore i j hij hj).2 h

end Arrival

end PTop.Framework
