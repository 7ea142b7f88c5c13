import PTop.Framework.Machine
import Mathlib.Data.List.Flatten
import Mathlib.Data.List.Perm.Subperm
import Mathlib.Order.Lattice

/-!
# Tables that are purged

A table of stamped rows goes through steps: rows are appended, and then
everything below a horizon may be deleted. What a query finds of the rows in its
window depends on the horizons only.
-/

namespace PTop.Framework

variable {ρ τ : Type*} [LinearOrder τ]

/-- One step in the life of a table. -/
structure TableStep (ρ τ : Type*) where
  rows : List ρ
  horizon : Option τ

/-- Append, then purge. -/
def TableStep.apply (time : ρ → τ) (st : TableStep ρ τ) (T : List ρ) : List ρ :=
  match st.horizon with
  | none => T ++ st.rows
  | some h => (T ++ st.rows).filter fun r => ¬ time r < h

theorem TableStep.apply_of_none {time : ρ → τ} {st : TableStep ρ τ} (h : st.horizon = none)
    (T : List ρ) : st.apply time T = T ++ st.rows := by
  rw [TableStep.apply, h]

theorem TableStep.apply_of_some {time : ρ → τ} {st : TableStep ρ τ} {t : τ}
    (h : st.horizon = some t) (T : List ρ) :
    st.apply time T = (T ++ st.rows).filter fun r => ¬ time r < t := by
  rw [TableStep.apply, h]

/-- The table after some steps. -/
def tableAfter (time : ρ → τ) (steps : List (TableStep ρ τ)) : List ρ :=
  steps.foldl (fun T st => st.apply time T) []

/-- Everything that was ever appended. -/
def everInserted (steps : List (TableStep ρ τ)) : List ρ := steps.flatMap TableStep.rows

section Snoc

variable (time : ρ → τ) (steps : List (TableStep ρ τ)) (st : TableStep ρ τ)

theorem tableAfter_snoc :
    tableAfter time (steps ++ [st]) = st.apply time (tableAfter time steps) := by
  simp [tableAfter]

omit [LinearOrder τ] in
theorem everInserted_snoc : everInserted (steps ++ [st]) = everInserted steps ++ st.rows := by
  simp [everInserted]

omit [LinearOrder τ] in
theorem everInserted_append (steps' : List (TableStep ρ τ)) :
    everInserted (steps ++ steps') = everInserted steps ++ everInserted steps' := by
  simp [everInserted]

theorem TableStep.apply_sublist (T : List ρ) : (st.apply time T).Sublist (T ++ st.rows) := by
  unfold TableStep.apply
  split
  · exact .refl _
  · exact List.filter_sublist

/-- A table holds rows that were appended, in their order. -/
theorem tableAfter_sublist : (tableAfter time steps).Sublist (everInserted steps) := by
  induction steps using List.reverseRecOn with
  | nil => exact .refl _
  | append_singleton steps st ih =>
      rw [tableAfter_snoc, everInserted_snoc]
      exact (st.apply_sublist time _).trans (ih.append (.refl st.rows))

end Snoc

omit [LinearOrder τ] in
/-- Rows appended to both of two tables make no difference. -/
theorem filter_append_cancel {p : ρ → Bool} {T A : List ρ} (rows : List ρ) :
    (T ++ rows).filter p = (A ++ rows).filter p ↔ T.filter p = A.filter p := by
  rw [List.filter_append, List.filter_append, List.append_cancel_right_eq]

/-- A purged sublist has all the rows that pass `W` iff the sublist has them and
the purge spares them. -/
theorem filter_purged_eq_iff {q W : ρ → Bool} {T A : List ρ} (h : T.Sublist A) :
    (T.filter q).filter W = A.filter W ↔ T.filter W = A.filter W ∧ ∀ r ∈ A, W r → q r := by
  constructor
  · intro heq
    have hsub : ((T.filter q).filter W).Sublist (T.filter W) := List.filter_sublist.filter W
    refine ⟨(h.filter W).antisymm (heq ▸ hsub), ?_⟩
    intro r hr hW
    have hmem : r ∈ (T.filter q).filter W := by
      rw [heq]
      exact List.mem_filter.mpr ⟨hr, hW⟩
    exact (List.mem_filter.mp (List.mem_of_mem_filter hmem)).2
  · rintro ⟨heq, hq⟩
    rw [List.filter_comm, heq, List.filter_eq_self]
    intro r hr
    exact hq r (List.mem_of_mem_filter hr) (List.mem_filter.mp hr).2

/-- A step deletes none of the rows appended so far that are in the window. -/
def Spares (time : ρ → τ) (W : ρ → Bool) (before : List (TableStep ρ τ)) (st : TableStep ρ τ) :
    Prop :=
  ∀ h ∈ st.horizon, ∀ r ∈ everInserted before ++ st.rows, W r → h ≤ time r

/-- **A window is complete iff every step has spared it.** -/
theorem window_eq_iff (time : ρ → τ) (W : ρ → Bool) (steps : List (TableStep ρ τ)) :
    (tableAfter time steps).filter W = (everInserted steps).filter W ↔
      EachAfter (Spares time W) steps := by
  induction steps using List.reverseRecOn with
  | nil => exact ⟨fun _ => eachAfter_nil _, fun _ => rfl⟩
  | append_singleton steps st ih =>
      have happend : (tableAfter time steps ++ st.rows).filter W =
          (everInserted steps ++ st.rows).filter W ↔ EachAfter (Spares time W) steps :=
        (filter_append_cancel st.rows).trans ih
      rw [tableAfter_snoc, everInserted_snoc, eachAfter_snoc]
      cases hst : st.horizon with
      | none =>
          have hspares : Spares time W steps st := by
            intro h hh
            rw [hst] at hh
            cases hh
          rw [and_iff_left hspares, TableStep.apply_of_none hst]
          exact happend
      | some h =>
          have hspares : Spares time W steps st ↔
              ∀ r ∈ everInserted steps ++ st.rows, W r → decide (¬ time r < h) := by
            simp [Spares, hst]
          rw [TableStep.apply_of_some hst,
            filter_purged_eq_iff ((tableAfter_sublist time steps).append (.refl st.rows)),
            happend, hspares]

/-! ## Actions that get lost -/

section Lost

variable {σ α β : Type*} {act : σ → α → σ} {table : σ → List β} {rows : α → List β}

/-- Actions that each append some rows at most, whatever else they do. -/
theorem foldl_sublist (hact : ∀ s a, (table (act s a)).Sublist (table s ++ rows a)) (as : List α)
    (s : σ) : (table (as.foldl act s)).Sublist (table s ++ as.flatMap rows) := by
  induction as generalizing s with
  | nil => simp
  | cons a as ih =>
      rw [List.foldl_cons, List.flatMap_cons, ← List.append_assoc]
      exact (ih (act s a)).trans ((hact s a).append (.refl _))

/-- **What gets lost leaves no row behind**, and no row is there that was not sent. -/
theorem foldl_sublist_of_sublist (hact : ∀ s a, (table (act s a)).Sublist (table s ++ rows a))
    {as' as : List α} (h : as'.Sublist as) (s : σ) :
    (table (as'.foldl act s)).Sublist (table s ++ as.flatMap rows) :=
  (foldl_sublist hact as' s).trans ((List.Sublist.refl _).append (h.flatMap rows))

end Lost

/-! ## Reading a log through windows -/

/-- **What is read through disjoint windows is read once.** Each read finds rows of its
window, in their order. -/
theorem flatMap_subperm_of_disjoint {α β : Type*} {reads : List α} {got : α → List β}
    {W : α → β → Bool} {rows : List β} (hgot : ∀ i ∈ reads, (got i).Sublist (rows.filter (W i)))
    (hdisjoint : reads.Pairwise fun i j => ∀ r, W i r → W j r = false) :
    (reads.flatMap got).Subperm rows := by
  induction reads generalizing rows with
  | nil => exact List.nil_subperm
  | cons i reads ih =>
      obtain ⟨hi, hdisjoint⟩ := List.pairwise_cons.mp hdisjoint
      -- the later reads find nothing of the first window
      have hrest : (reads.flatMap got).Subperm (rows.filter fun r => !W i r) := by
        refine ih (fun j hj => ?_) hdisjoint
        have hsame : (rows.filter fun r => !W i r).filter (W j) = rows.filter (W j) := by
          rw [List.filter_filter]
          apply List.filter_congr
          intro r _
          cases hr : W i r with
          | false => simp
          | true => simp [hi j hj r hr]
        rw [hsame]
        exact hgot j (List.mem_cons_of_mem i hj)
      rw [List.flatMap_cons]
      exact ((hgot i List.mem_cons_self).subperm.append hrest).trans
        (List.filter_append_perm (W i) rows).subperm

/-! ## How much a purged log keeps -/

/-- Strictly increasing integers grow by at least one each time. -/
theorem add_length_le_getLast {xs : List ℤ} {x y : ℤ} (h : (x :: xs ++ [y]).Pairwise (· < ·)) :
    x + xs.length + 1 ≤ y := by
  induction xs generalizing x with
  | nil =>
      have hxy : x < y := List.rel_of_pairwise_cons h (List.mem_singleton_self y)
      simpa using Int.add_one_le_iff.mpr hxy
  | cons z xs ih =>
      have hxz := List.rel_of_pairwise_cons h List.mem_cons_self
      have hrest := ih (List.Pairwise.of_cons h)
      push_cast [List.length_cons]
      omega

section Recent

variable {α : Type*} {ρ : Type*} {time : ρ → ℤ} {f : α → TableStep ρ ℤ} {τ : α → ℤ} {W K : ℕ}

/-- The steps are stamped in order, and every `K`-th deletes what is older than `W`. -/
structure PrunedEvery (time : ρ → ℤ) (f : α → TableStep ρ ℤ) (τ : α → ℤ) (W K : ℕ)
    (steps : List α) : Prop where
  stamped : ∀ a ∈ steps, ∀ r ∈ (f a).rows, time r = τ a
  increasing : steps.Pairwise fun a b => τ a < τ b
  pruned : EachAfter (fun before a => K ∣ before.length + 1 → ∃ h ∈ (f a).horizon, τ a - W ≤ h) steps

theorem PrunedEvery.of_append {xs ys : List α} (h : PrunedEvery time f τ W K (xs ++ ys)) :
    PrunedEvery time f τ W K xs where
  stamped a ha := h.stamped a (List.mem_append_left ys ha)
  increasing := (List.pairwise_append.mp h.increasing).1
  pruned := h.pruned.of_append

/-- The steps whose rows a pruned table can hold. -/
def recent (W K : ℕ) (steps : List α) : List α :=
  steps.drop (steps.length - (W + 1 + steps.length % K))

/-- Between two multiples the remainder counts the steps. -/
theorem succ_mod_of_not_dvd {n : ℕ} (h : ¬ K ∣ n + 1) : (n + 1) % K = n % K + 1 := by
  rcases Nat.eq_zero_or_pos K with rfl | hK
  · rw [Nat.mod_zero, Nat.mod_zero]
  · have hdiv := Nat.div_add_mod n K
    have hmod := Nat.mod_lt n hK
    have hne : n % K + 1 ≠ K := by
      intro heq
      refine h ⟨n / K + 1, ?_⟩
      rw [Nat.mul_add, Nat.mul_one]
      omega
    have hsum : n + 1 = K * (n / K) + (n % K + 1) := by omega
    rw [hsum, Nat.mul_add_mod, Nat.mod_eq_of_lt (by omega)]

theorem length_recent_lt (hK : 0 < K) (steps : List α) : (recent W K steps).length ≤ W + K := by
  have hmod := Nat.mod_lt steps.length hK
  rw [recent, List.length_drop]
  omega

/-- What a prune spares was inserted in the last `W + 1` steps. -/
theorem filter_horizon_eq_nil {xs ys : List α} {a : α} {h : ℤ}
    (hp : PrunedEvery time f τ W K (xs ++ (ys ++ [a]))) (hlen : W ≤ ys.length) (hh : τ a - W ≤ h) :
    (everInserted (xs.map f)).filter (fun r => ¬ time r < h) = [] := by
  rw [List.filter_eq_nil_iff]
  intro r hr
  obtain ⟨st, hst, hrow⟩ := List.mem_flatMap.mp hr
  obtain ⟨x, hx, rfl⟩ := List.mem_map.mp hst
  obtain ⟨before, after, rfl⟩ := List.append_of_mem hx
  have htime := hp.stamped x (by simp) r hrow
  have hchain : ((τ x :: (after ++ ys).map τ) ++ [τ a]).Pairwise (· < ·) := by
    have hsub : (x :: (after ++ ys) ++ [a]).Sublist (before ++ x :: after ++ (ys ++ [a])) := by simp
    have hpair := List.Pairwise.map τ (fun _ _ h => h) (hp.increasing.sublist hsub)
    simpa using hpair
  have hgap := add_length_le_getLast hchain
  rw [List.length_map, List.length_append] at hgap
  rw [htime, decide_eq_true_eq, not_not]
  push_cast at hgap
  omega

/-- **A log that is pruned every `K` steps of what is older than `W` holds no rows but those
of the last `W + K` steps.** -/
theorem tableAfter_sublist_recent {steps : List α} (h : PrunedEvery time f τ W K steps) :
    (tableAfter time (steps.map f)).Sublist (everInserted ((recent W K steps).map f)) := by
  induction steps using List.reverseRecOn with
  | nil => exact List.nil_sublist _
  | append_singleton steps a ih =>
      have ih := ih h.of_append
      by_cases hturn : K ∣ steps.length + 1
      · obtain ⟨t, ht, hwithin⟩ := (eachAfter_snoc.mp h.pruned).2 hturn
        have hrecent : recent W K (steps ++ [a]) = (steps ++ [a]).drop (steps.length - W) := by
          rw [recent, List.length_append, List.length_singleton, Nat.mod_eq_zero_of_dvd hturn]
          congr 1
          omega
        have hsub : (tableAfter time (steps.map f) ++ (f a).rows).Sublist
            (everInserted ((steps ++ [a]).map f)) := by
          rw [List.map_append, List.map_singleton, everInserted_snoc]
          exact (tableAfter_sublist time _).append (.refl _)
        rw [List.map_append, List.map_singleton, tableAfter_snoc, TableStep.apply_of_some ht, hrecent]
        refine (hsub.filter _).trans ?_
        rcases Nat.lt_or_ge steps.length W with hshort | hlong
        · rw [Nat.sub_eq_zero_of_le hshort.le, List.drop_zero]
          exact List.filter_sublist
        · -- what lies before the last `W + 1` steps is gone
          have hsplit : steps ++ [a] = steps.take (steps.length - W) ++
              (steps.drop (steps.length - W) ++ [a]) := by
            rw [← List.append_assoc, List.take_append_drop]
          have hdrop : (steps ++ [a]).drop (steps.length - W) =
              steps.drop (steps.length - W) ++ [a] := List.drop_append_of_le_length (Nat.sub_le ..)
          have hlen : W ≤ (steps.drop (steps.length - W)).length := by
            rw [List.length_drop]
            omega
          have hnil := filter_horizon_eq_nil (hsplit ▸ h) hlen hwithin
          have hall : everInserted ((steps ++ [a]).map f) =
              everInserted ((steps.take (steps.length - W)).map f) ++
                everInserted ((steps.drop (steps.length - W) ++ [a]).map f) := by
            rw [← everInserted_append, ← List.map_append, ← hsplit]
          rw [hall, List.filter_append, hnil, List.nil_append, hdrop]
          exact List.filter_sublist
      · have hrecent : recent W K (steps ++ [a]) = recent W K steps ++ [a] := by
          rw [recent, recent, List.length_append, List.length_singleton, succ_mod_of_not_dvd hturn,
            ← List.drop_append_of_le_length (Nat.sub_le ..)]
          congr 1
          omega
        rw [hrecent, List.map_append, List.map_append, List.map_singleton, tableAfter_snoc,
          everInserted_snoc]
        exact ((f a).apply_sublist time _).trans (ih.append (.refl _))

end Recent

end PTop.Framework
