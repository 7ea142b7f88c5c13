import Mathlib.Algebra.BigOperators.Group.Finset.Piecewise
import Mathlib.Algebra.Order.BigOperators.Group.List
import Mathlib.Algebra.Order.BigOperators.Group.Finset

/-!
# Tables: selections, joins and their sums

A table is a list of rows. A sum over the join of two tables can be taken along the
rows of either of them, so that what is charged to the groups of one table is bounded
row by row of the other.
-/

namespace PTop.Framework

variable {α β κ M N : Type*}

/-! ## Selections -/

theorem filterMap_ite (p : α → Prop) [DecidablePred p] (f : α → β) :
    ∀ l : List α, (l.filterMap fun x => if p x then some (f x) else none) = (l.filter p).map f
  | [] => rfl
  | x :: l => by
      have ih := filterMap_ite p f l
      by_cases h : p x
      · simp [h, ih]
      · simp [h, ih]

/-- Picking the one element with a key out of a list without repeated keys. -/
theorem filterMap_of_nodup_key {key : α → κ} {f : α → Option β} {g : α → Option β}
    {x : α} : ∀ {l : List α}, (l.map key).Nodup → x ∈ l → (∀ y ∈ l, key y ≠ key x → g y = none) →
      g x = f x → l.filterMap g = (f x).toList
  | y :: l, hnd, hx, hg, hfg => by
      rw [List.map_cons, List.nodup_cons] at hnd
      rcases List.mem_cons.mp hx with rfl | hx'
      · have hrest : l.filterMap g = [] := by
          rw [List.filterMap_eq_nil_iff]
          intro z hz
          refine hg z (List.mem_cons_of_mem _ hz) fun hk => hnd.1 ?_
          exact hk ▸ List.mem_map_of_mem hz
        rw [List.filterMap_cons, hfg]
        cases f x <;> simp [hrest]
      · have hy : g y = none := by
          refine hg y List.mem_cons_self fun hk => hnd.1 ?_
          exact hk ▸ List.mem_map_of_mem hx'
        rw [List.filterMap_cons, hy]
        exact filterMap_of_nodup_key hnd.2 hx' (fun z hz => hg z (List.mem_cons_of_mem _ hz)) hfg

/-- Collecting from the elements of a selection. -/
theorem flatMap_eq_flatMap_filter {g g' : α → List β} {w : α → Bool} : ∀ {l : List α},
    (∀ x ∈ l, g x = if w x then g' x else []) → l.flatMap g = (l.filter w).flatMap g'
  | [], _ => rfl
  | x :: l, h => by
      have ih := flatMap_eq_flatMap_filter fun y hy => h y (List.mem_cons_of_mem x hy)
      rw [List.flatMap_cons, h x List.mem_cons_self, ih, List.filter_cons]
      split
      · rw [List.flatMap_cons]
      · rfl

/-- The rows of a table, group by group. -/
theorem perm_flatMap_filter_key [DecidableEq κ] (key : α → κ) (key' : β → κ) : ∀ {bs : List β}
    {as : List α}, (bs.map key').Nodup → (∀ a ∈ as, ∃ b ∈ bs, key a = key' b) →
      as.Perm (bs.flatMap fun b => as.filter fun a => key a = key' b)
  | [], as, _, h => by
      have has : as = [] := by
        rw [List.eq_nil_iff_forall_not_mem]
        intro a ha
        obtain ⟨b, hb, -⟩ := h a ha
        exact List.not_mem_nil hb
      rw [has, List.flatMap_nil]
  | b :: bs, as, hnd, h => by
      rw [List.map_cons, List.nodup_cons] at hnd
      have hrest : ∀ a ∈ as.filter (fun a => !decide (key a = key' b)),
          ∃ c ∈ bs, key a = key' c := by
        intro a ha
        obtain ⟨ha, hne⟩ := List.mem_filter.mp ha
        obtain ⟨c, hc, hac⟩ := h a ha
        rcases List.mem_cons.mp hc with rfl | hc
        · simp [hac] at hne
        · exact ⟨c, hc, hac⟩
      have ih := perm_flatMap_filter_key key key' hnd.2 hrest
      -- the groups of the others are not touched by taking the group of `b` away
      have hgroups : ∀ c ∈ bs, ((as.filter fun a => !decide (key a = key' b)).filter fun a =>
          key a = key' c) = as.filter fun a => key a = key' c := by
        intro c hc
        rw [List.filter_filter]
        apply List.filter_congr
        intro a _
        by_cases hac : key a = key' c
        · have hne : key' c ≠ key' b := fun he => hnd.1 (he ▸ List.mem_map_of_mem hc)
          simp [hac, hne]
        · simp [hac]
      have hflat : (bs.flatMap fun c => (as.filter fun a => !decide (key a = key' b)).filter
          fun a => key a = key' c) = bs.flatMap fun c => as.filter fun a => key a = key' c := by
        rw [List.flatMap_def, List.flatMap_def, List.map_congr_left hgroups]
      rw [hflat] at ih
      rw [List.flatMap_cons]
      exact (List.filter_append_perm _ as).symm.trans (ih.append_left _)

/-! ## Joins -/

/-- The pairs of rows that match. -/
def joinOn (rel : α → β → Bool) (as : List α) (bs : List β) : List (α × β) :=
  as.flatMap fun a => (bs.filter (rel a)).map fun b => (a, b)

section Sum

variable [AddCommMonoid M]

theorem sum_map_eq_zero {f : α → M} {l : List α} (h : ∀ x ∈ l, f x = 0) : (l.map f).sum = 0 := by
  apply List.sum_eq_zero
  intro y hy
  obtain ⟨x, hx, rfl⟩ := List.mem_map.mp hy
  exact h x hx

/-- A sum of images is the image of the sum. -/
theorem sum_map_hom [AddCommMonoid N] (φ : M →+ N) {f : α → M} {g : α → N} {l : List α}
    (h : ∀ x ∈ l, g x = φ (f x)) : (l.map g).sum = φ (l.map f).sum := by
  rw [map_list_sum, List.map_map]
  congr 1
  exact List.map_congr_left h

/-- Double sums agree where their terms do. -/
theorem sum_map_sum_congr {γ : Type*} {rows : γ → List α} {f g : γ → α → M} {cs : List γ}
    (h : ∀ c ∈ cs, ∀ a ∈ rows c, f c a = g c a) :
    (cs.map fun c => ((rows c).map (f c)).sum).sum =
      (cs.map fun c => ((rows c).map (g c)).sum).sum := by
  congr 1
  apply List.map_congr_left
  intro c hc
  exact congrArg List.sum (List.map_congr_left (h c hc))

theorem sum_map_filter (p : α → Bool) (f : α → M) : ∀ as : List α,
    ((as.filter p).map f).sum = (as.map fun a => if p a then f a else 0).sum
  | [] => rfl
  | a :: as => by
      have ih := sum_map_filter p f as
      by_cases hp : p a
      · simp [hp, ih]
      · simp [hp, ih]

/-- A selection that falls into two without common rows. -/
theorem sum_map_filter_or {p q r : α → Bool} (f : α → M) (hr : ∀ a, r a = (p a || q a))
    (hdisjoint : ∀ a, p a = true → q a = false) (as : List α) :
    ((as.filter r).map f).sum = ((as.filter p).map f).sum + ((as.filter q).map f).sum := by
  rw [sum_map_filter, sum_map_filter, sum_map_filter, ← List.sum_map_add]
  congr 1
  apply List.map_congr_left
  intro a _
  rw [hr a]
  by_cases hp : p a = true
  · simp [hp, hdisjoint a hp]
  · simp [hp]

theorem sum_map_flatMap {γ : Type*} (g : γ → List α) (f : α → M) : ∀ cs : List γ,
    ((cs.flatMap g).map f).sum = (cs.map fun c => ((g c).map f).sum).sum
  | [] => rfl
  | c :: cs => by
      rw [List.flatMap_cons, List.map_append, List.sum_append, sum_map_flatMap g f cs,
        List.map_cons, List.sum_cons]

/-- What has the key of one element: that element, and what shares the key with it. -/
theorem sum_filter_key_middle [DecidableEq κ] (key : α → κ) (f : α → M) (before after : List α)
    (a : α) : (((before ++ a :: after).filter fun b => key b = key a).map f).sum =
      f a + (((before ++ after).filter fun b => key b = key a).map f).sum := by
  have hperm : (before ++ a :: after).Perm (a :: (before ++ after)) := List.perm_middle
  rw [((hperm.filter _).map f).sum_eq, List.filter_cons_of_pos (by simp), List.map_cons,
    List.sum_cons]

/-- The groups of a table with keys in `S` are the rows with keys in `S`. -/
theorem sum_groups [DecidableEq κ] (key : α → κ) (S : Finset κ) (f : α → M) : ∀ as : List α,
    ∑ k ∈ S, ((as.filter fun a => key a = k).map f).sum =
      ((as.filter fun a => key a ∈ S).map f).sum
  | [] => by simp
  | a :: as => by
      have ih := sum_groups key S f as
      have hsplit : ∑ k ∈ S, (((a :: as).filter fun a => key a = k).map f).sum =
          ∑ k ∈ S, ((if key a = k then f a else 0) +
            ((as.filter fun a => key a = k).map f).sum) := by
        apply Finset.sum_congr rfl
        intro k _
        by_cases hk : key a = k
        · simp [hk]
        · simp [hk]
      rw [hsplit, Finset.sum_add_distrib, Finset.sum_ite_eq, ih]
      by_cases ha : key a ∈ S
      · simp [ha]
      · simp [ha]

/-- Groups that leave no row out. -/
theorem sum_groups_eq [DecidableEq κ] {key : α → κ} {S : Finset κ} (f : α → M) {as : List α}
    (hS : ∀ a ∈ as, key a ∈ S) :
    ∑ k ∈ S, ((as.filter fun a => key a = k).map f).sum = (as.map f).sum := by
  have hall : as.filter (fun a => key a ∈ S) = as := by
    rw [List.filter_eq_self]
    exact fun a ha => decide_eq_true (hS a ha)
  rw [sum_groups, hall]

/-- The sum along the rows of the first table. -/
theorem sum_joinOn (rel : α → β → Bool) (f : α × β → M) (bs : List β) : ∀ as : List α,
    ((joinOn rel as bs).map f).sum =
      (as.map fun a => ((bs.filter (rel a)).map fun b => f (a, b)).sum).sum
  | [] => rfl
  | a :: as => by
      have ih := sum_joinOn rel f bs as
      rw [joinOn] at ih ⊢
      rw [List.flatMap_cons, List.map_append, List.sum_append, ih, List.map_cons, List.sum_cons,
        List.map_map]
      rfl

/-- **The sum along the rows of the second table.** -/
theorem sum_joinOn_swap (rel : α → β → Bool) (f : α × β → M) (as : List α) (bs : List β) :
    ((joinOn rel as bs).map f).sum =
      (bs.map fun b => ((as.filter fun a => rel a b).map fun a => f (a, b)).sum).sum := by
  rw [sum_joinOn]
  simp only [sum_map_filter]
  simpa using Multiset.sum_map_sum_map (as : Multiset α) (bs : Multiset β)
    (f := fun a b => if rel a b then f (a, b) else 0)

end Sum

section Order

variable [AddCommMonoid M] [PartialOrder M] [IsOrderedAddMonoid M]

/-- Fewer rows without negative charges sum to less. -/
theorem sum_map_le_of_sublist {f : α → M} {as as' : List α} (h : as.Sublist as')
    (hf : ∀ a ∈ as', 0 ≤ f a) : (as.map f).sum ≤ (as'.map f).sum :=
  (h.map f).sum_le_sum fun m hm => by
    obtain ⟨a, ha, rfl⟩ := List.mem_map.mp hm
    exact hf a ha

/-- A sum of terms that are not negative is zero only if they all are. -/
theorem sum_map_eq_zero_iff {f : α → M} {l : List α} (hf : ∀ x ∈ l, 0 ≤ f x) :
    (l.map f).sum = 0 ↔ ∀ x ∈ l, f x = 0 := by
  constructor
  · intro hsum x hx
    refine List.all_zero_of_le_zero_le_of_sum_eq_zero ?_ hsum (List.mem_map_of_mem hx)
    intro y hy
    obtain ⟨z, hz, rfl⟩ := List.mem_map.mp hy
    exact hf z hz
  · exact sum_map_eq_zero

/-- A join is charged at most what each row of the second table allows. -/
theorem sum_joinOn_le {rel : α → β → Bool} {f : α × β → M} {as : List α} {bs : List β} {g : β → M}
    (h : ∀ b ∈ bs, ((as.filter fun a => rel a b).map fun a => f (a, b)).sum ≤ g b) :
    ((joinOn rel as bs).map f).sum ≤ (bs.map g).sum := by
  rw [sum_joinOn_swap]
  exact List.sum_le_sum h

/-- **Distinct groups of a table** are charged at most as much as the whole table. -/
theorem sum_groups_le [DecidableEq κ] (key : α → κ) (S : Finset κ) {f : α → M} {as : List α}
    (hf : ∀ a ∈ as, 0 ≤ f a) :
    ∑ k ∈ S, ((as.filter fun a => key a = k).map f).sum ≤ (as.map f).sum := by
  rw [sum_groups]
  exact sum_map_le_of_sublist List.filter_sublist hf

end Order

/-- Terms that are pointwise at most others and have the same sum are the others. -/
theorem eq_of_sum_map_eq [AddCommMonoid M] [PartialOrder M] [IsOrderedCancelAddMonoid M]
    {f g : α → M} {l : List α} (hle : ∀ x ∈ l, f x ≤ g x)
    (hsum : (l.map f).sum = (l.map g).sum) : ∀ x ∈ l, f x = g x := by
  intro x hx
  by_contra hne
  have hlt : f x < g x := lt_of_le_of_ne (hle x hx) hne
  exact (List.sum_lt_sum f g hle ⟨x, hx, hlt⟩).ne hsum

/-- What fails a weaker condition fails the stronger one. -/
theorem countP_not_le {p q : α → Prop} [DecidablePred p] [DecidablePred q] (h : ∀ x, q x → p x)
    (l : List α) : l.countP (fun x => ¬ p x) ≤ l.countP fun x => ¬ q x := by
  refine List.countP_mono_left fun x _ hx => ?_
  rw [decide_eq_true_eq] at hx ⊢
  exact fun hq => hx (h x hq)

/-- **A single difference is not made up for**: sums of terms that differ in at most one
place are equal only if the terms are. -/
theorem sum_map_eq_iff_of_countP_le_one [AddCancelMonoid M] {f g : α → M} {p : α → Prop}
    [DecidablePred p] : ∀ {l : List α}, (∀ x ∈ l, p x ↔ f x = g x) →
      l.countP (fun x => ¬ p x) ≤ 1 → ((l.map f).sum = (l.map g).sum ↔ ∀ x ∈ l, p x)
  | [], _, _ => by simp
  | x :: l, hp, h => by
      obtain ⟨hpx, hpl⟩ := List.forall_mem_cons.mp hp
      rw [List.countP_cons] at h
      rw [List.map_cons, List.map_cons, List.sum_cons, List.sum_cons, List.forall_mem_cons]
      by_cases hx : p x
      · have ih := sum_map_eq_iff_of_countP_le_one hpl (by omega)
        rw [hpx.mp hx, add_right_inj, ih, and_iff_right hx]
      · -- then all other terms agree
        have hzero : l.countP (fun x => ¬ p x) = 0 := by
          rw [if_pos (by simpa using hx)] at h
          omega
        have hrest : l.map f = l.map g := List.map_congr_left fun y hy =>
          (hpl y hy).mp (by simpa using List.countP_eq_zero.mp hzero y hy)
        rw [hrest, add_left_inj, ← hpx]
        exact iff_of_false hx fun hall => hx hall.1

end PTop.Framework
