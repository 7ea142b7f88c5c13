import Mathlib.Data.List.Sort
import Mathlib.Data.List.Nodup
import Mathlib.Algebra.Order.Group.Unbundled.Int
import Mathlib.Algebra.Order.Group.Abs
import Mathlib.Algebra.Order.Ring.Int
import Mathlib.Data.Nat.Fib.Basic
import Mathlib.Data.Nat.Log

/-!
# Height-annotated search trees

Binary trees whose nodes carry a payload and a *stored* height, as an AVL
implementation keeps them. The invariants are stated over the stored field and
the true height separately, so that an implementation which forgets to refresh
the field is visible. Search order is read off the in-order list; an insertion
is then the one list equation `toList' = orderedInsert`.
-/

namespace PTop.Framework

universe u v w

/-- A tree whose nodes carry a payload and a stored height. -/
inductive HTree (α : Type u) where
  | nil
  | node (left : HTree α) (val : α) (stored : Int) (right : HTree α)
deriving DecidableEq

namespace HTree

variable {α : Type u} {β : Type w} {κ : Type v}

/-- The height a node claims to have; the empty tree counts `-1`. -/
def height : HTree α → Int
  | nil => -1
  | node _ _ h _ => h

/-- The height the shape really has. -/
def trueHeight : HTree α → Int
  | nil => -1
  | node l _ _ r => max l.trueHeight r.trueHeight + 1

def toList : HTree α → List α
  | nil => []
  | node l a _ r => l.toList ++ a :: r.toList

def preorder : HTree α → List α
  | nil => []
  | node l a _ r => a :: (l.preorder ++ r.preorder)

def isNil : HTree α → Bool
  | nil => true
  | node _ _ _ _ => false

def map (f : α → β) : HTree α → HTree β
  | nil => nil
  | node l a h r => node (l.map f) (f a) h (r.map f)

@[simp] theorem height_nil : (nil : HTree α).height = -1 := rfl
@[simp] theorem height_node (l : HTree α) (a : α) (h : Int) (r : HTree α) :
    (node l a h r).height = h := rfl
@[simp] theorem toList_nil : (nil : HTree α).toList = [] := rfl
@[simp] theorem toList_node (l : HTree α) (a : α) (h : Int) (r : HTree α) :
    (node l a h r).toList = l.toList ++ a :: r.toList := rfl
@[simp] theorem isNil_nil : (nil : HTree α).isNil = true := rfl
@[simp] theorem isNil_node (l : HTree α) (a : α) (h : Int) (r : HTree α) :
    (node l a h r).isNil = false := rfl

theorem isNil_iff {t : HTree α} : t.isNil = true ↔ t = nil := by
  cases t <;> simp

theorem preorder_perm_toList : ∀ t : HTree α, t.preorder.Perm t.toList
  | nil => .refl _
  | node l a _ r => by
      have ihl := preorder_perm_toList l
      have ihr := preorder_perm_toList r
      exact ((ihl.append ihr).cons a).trans List.perm_middle.symm

/-! ## Heights: stored field against shape -/

/-- Every stored height is the true one. -/
def HeightOk : HTree α → Prop
  | nil => True
  | node l a h r => l.HeightOk ∧ r.HeightOk ∧ h = (node l a h r).trueHeight

/-- At every node the two subtrees' true heights differ by at most one. -/
def Balanced : HTree α → Prop
  | nil => True
  | node l _ _ r => l.Balanced ∧ r.Balanced ∧ |l.trueHeight - r.trueHeight| ≤ 1

/-- The AVL shape invariant. -/
structure Avl (t : HTree α) : Prop where
  heightOk : t.HeightOk
  balanced : t.Balanced

theorem HeightOk.height_eq : ∀ {t : HTree α}, t.HeightOk → t.height = t.trueHeight
  | nil, _ => rfl
  | node _ _ _ _, h => h.2.2

theorem avl_nil : Avl (nil : HTree α) := ⟨trivial, trivial⟩

/-- The invariant at a node, in terms of the stored heights only: this is the
form in which an implementation that never recomputes true heights meets it. -/
theorem avl_node {l r : HTree α} {a : α} {h : Int} :
    Avl (node l a h r) ↔ Avl l ∧ Avl r ∧ h = max l.height r.height + 1 ∧
      l.height ≤ r.height + 1 ∧ r.height ≤ l.height + 1 := by
  constructor
  · rintro ⟨⟨hl, hr, hh⟩, ⟨bl, br, hb⟩⟩
    rw [hl.height_eq, hr.height_eq]
    rw [abs_le] at hb
    exact ⟨⟨hl, bl⟩, ⟨hr, br⟩, hh, by omega, by omega⟩
  · rintro ⟨⟨hl, bl⟩, ⟨hr, br⟩, hh, h₁, h₂⟩
    rw [hl.height_eq, hr.height_eq] at hh h₁ h₂
    exact ⟨⟨hl, hr, hh⟩, ⟨bl, br, abs_le.mpr ⟨by omega, by omega⟩⟩⟩

theorem Avl.neg_one_le_height : ∀ {t : HTree α}, Avl t → -1 ≤ t.height
  | nil, _ => le_refl _
  | node l _ _ r, h => by
      obtain ⟨hl, hr, hh, -, -⟩ := avl_node.mp h
      have ihl := hl.neg_one_le_height
      simp only [height_node]
      omega

/-- At every node the heights of the two subtrees differ by at most `d`; `ht` is the
stored or the true height. -/
def Within (ht : HTree α → Int) (d : Int) : HTree α → Prop
  | nil => True
  | node l _ _ r => l.Within ht d ∧ r.Within ht d ∧ |ht l - ht r| ≤ d

theorem Balanced.within {d : Int} (hd : 1 ≤ d) : ∀ {t : HTree α}, t.Balanced →
    t.Within trueHeight d
  | nil, _ => trivial
  | node _ _ _ _, ⟨hl, hr, h⟩ => ⟨hl.within hd, hr.within hd, h.trans hd⟩

/-- Where the stored heights are the true ones, they differ as much. -/
theorem Within.stored {d : Int} : ∀ {t : HTree α}, t.HeightOk → t.Within trueHeight d →
    t.Within height d
  | nil, _, _ => trivial
  | node _ _ _ _, ⟨okl, okr, _⟩, ⟨hl, hr, h⟩ =>
      ⟨hl.stored okl, hr.stored okr, by rwa [okl.height_eq, okr.height_eq]⟩

/-! ## Height against size -/

/-- **The smallest AVL trees are the Fibonacci trees.** -/
theorem Avl.fib_le : ∀ {t : HTree α}, Avl t → Nat.fib (t.height + 3).toNat ≤ t.toList.length + 1
  | nil, _ => by simp
  | node l a h r, ht => by
      obtain ⟨hl, hr, hh, hd1, hd2⟩ := avl_node.mp ht
      have ihl := hl.fib_le
      have ihr := hr.fib_le
      have hl1 := hl.neg_one_le_height
      have hr1 := hr.neg_one_le_height
      -- one side has height `h - 1`, the other at least `h - 2`
      have hsplit : Nat.fib (h + 3).toNat ≤
          Nat.fib (l.height + 3).toNat + Nat.fib (r.height + 3).toNat := by
        have hrec : Nat.fib (h + 3).toNat =
            Nat.fib (h + 1).toNat + Nat.fib (h + 2).toNat := by
          have h3 : (h + 3).toNat = (h + 1).toNat + 2 := by omega
          have h2 : (h + 2).toNat = (h + 1).toNat + 1 := by omega
          rw [h3, h2, Nat.fib_add_two]
        rcases le_total r.height l.height with hle | hle
        · have hlow : Nat.fib (h + 1).toNat ≤ Nat.fib (r.height + 3).toNat :=
            Nat.fib_mono (by omega)
          have htop : (h + 2).toNat = (l.height + 3).toNat := by omega
          rw [hrec, htop]
          omega
        · have hlow : Nat.fib (h + 1).toNat ≤ Nat.fib (l.height + 3).toNat :=
            Nat.fib_mono (by omega)
          have htop : (h + 2).toNat = (r.height + 3).toNat := by omega
          rw [hrec, htop]
          omega
      simp only [height_node, toList_node, List.length_append, List.length_cons]
      omega

theorem two_pow_le_fib : ∀ k, 2 ^ k ≤ Nat.fib (2 * k + 1)
  | 0 => by simp
  | k + 1 => by
      have ih := two_pow_le_fib k
      have hmono : Nat.fib (2 * k + 1) ≤ Nat.fib (2 * k + 2) := Nat.fib_mono (by omega)
      have hrec : Nat.fib (2 * (k + 1) + 1) = Nat.fib (2 * k + 1) + Nat.fib (2 * k + 2) :=
        Nat.fib_add_two
      rw [hrec, Nat.pow_succ]
      omega

/-- The height is logarithmic in the size. -/
theorem Avl.height_le_log {t : HTree α} (ht : Avl t) :
    t.height + 1 ≤ 2 * Nat.log 2 (t.toList.length + 1) := by
  have h1 := ht.neg_one_le_height
  obtain ⟨k, hk⟩ : ∃ k : ℕ, t.height + 1 = k := ⟨(t.height + 1).toNat, by omega⟩
  have hfib := ht.fib_le
  have hodd : 2 * ((k + 1) / 2) + 1 ≤ (t.height + 3).toNat := by omega
  have hpow : 2 ^ ((k + 1) / 2) ≤ t.toList.length + 1 :=
    (two_pow_le_fib _).trans ((Nat.fib_mono hodd).trans hfib)
  have hlog := Nat.le_log_of_pow_le (by decide) hpow
  omega

/-! ## Search order -/

section Order

variable [LinearOrder κ] (key : α → κ)

/-- Strict search order, read off the in-order list. -/
def Ordered (t : HTree α) : Prop :=
  t.toList.Pairwise fun a b => key a < key b

theorem ordered_nil : Ordered key (nil : HTree α) := List.Pairwise.nil

theorem ordered_node {l r : HTree α} {a : α} {h : Int} :
    Ordered key (node l a h r) ↔ Ordered key l ∧ Ordered key r ∧
      (∀ x ∈ l.toList, key x < key a) ∧ (∀ x ∈ r.toList, key a < key x) := by
  simp only [Ordered, toList_node, List.pairwise_append, List.pairwise_cons,
    List.mem_cons, forall_eq_or_imp]
  constructor
  · rintro ⟨hl, ⟨ha, hr⟩, hx⟩
    exact ⟨hl, hr, fun x hm => (hx x hm).1, ha⟩
  · rintro ⟨hl, hr, hla, har⟩
    exact ⟨hl, ⟨har, hr⟩, fun x hm => ⟨hla x hm, fun y hy => (hla x hm).trans (har y hy)⟩⟩

variable {key}

theorem Ordered.nodup_keys {t : HTree α} (ht : Ordered key t) :
    (t.toList.map key).Nodup :=
  List.pairwise_map.mpr (ht.imp fun h => h.ne)

theorem Ordered.eq_of_key_eq {t : HTree α} (ht : Ordered key t) {a b : α}
    (ha : a ∈ t.toList) (hb : b ∈ t.toList) (h : key a = key b) : a = b :=
  List.inj_on_of_nodup_map ht.nodup_keys ha hb h

variable (key)

/-- Search by key comparison. -/
def lookup (x : κ) : HTree α → Option α
  | nil => none
  | node l a _ r =>
      if x < key a then lookup x l
      else if key a < x then lookup x r
      else some a

variable {key}

/-- On a search tree, comparison search finds exactly the node with that key. -/
theorem lookup_eq_some_iff {x : κ} {a : α} : ∀ {t : HTree α}, Ordered key t →
    (lookup key x t = some a ↔ a ∈ t.toList ∧ key a = x)
  | nil, _ => by simp [lookup]
  | node l b h r, ht => by
      obtain ⟨hl, hr, hlb, hbr⟩ := (ordered_node key).mp ht
      simp only [lookup, toList_node, List.mem_append, List.mem_cons]
      rcases lt_trichotomy x (key b) with hx | hx | hx
      · rw [if_pos hx, lookup_eq_some_iff hl]
        constructor
        · rintro ⟨hm, rfl⟩
          exact ⟨Or.inl hm, rfl⟩
        · rintro ⟨hm | rfl | hm, rfl⟩
          · exact ⟨hm, rfl⟩
          · exact absurd hx (lt_irrefl _)
          · exact absurd (hbr a hm) hx.not_gt
      · subst hx
        rw [if_neg (lt_irrefl _), if_neg (lt_irrefl _), Option.some.injEq]
        constructor
        · rintro rfl
          exact ⟨Or.inr (Or.inl rfl), rfl⟩
        · rintro ⟨hm | rfl | hm, hk⟩
          · exact absurd hk (hlb a hm).ne
          · rfl
          · exact absurd hk (hbr a hm).ne'
      · rw [if_neg hx.not_gt, if_pos hx, lookup_eq_some_iff hr]
        constructor
        · rintro ⟨hm, rfl⟩
          exact ⟨Or.inr (Or.inr hm), rfl⟩
        · rintro ⟨hm | rfl | hm, rfl⟩
          · exact absurd (hlb a hm) hx.not_gt
          · exact absurd hx (lt_irrefl _)
          · exact ⟨hm, rfl⟩

/-- What a lookup finds, seen through a function on the nodes. -/
theorem map_lookup_eq_some_iff {β : Type*} {g : α → β} {x : κ} {b : β} {t : HTree α}
    (ht : Ordered key t) :
    (lookup key x t).map g = some b ↔ ∃ a ∈ t.toList, key a = x ∧ g a = b := by
  rw [Option.map_eq_some_iff]
  constructor
  · rintro ⟨a, ha, rfl⟩
    obtain ⟨hm, hk⟩ := (lookup_eq_some_iff ht).mp ha
    exact ⟨a, hm, hk, rfl⟩
  · rintro ⟨a, hm, hk, rfl⟩
    exact ⟨a, (lookup_eq_some_iff ht).mpr ⟨hm, hk⟩, rfl⟩

/-! ## Sorted insertion into the in-order list -/

variable (key) in
/-- The in-order list after a new payload has gone to its place. -/
def listInsert (a : α) (xs : List α) : List α :=
  xs.orderedInsert (fun a b => key a ≤ key b) a

theorem mem_listInsert {a b : α} {xs : List α} :
    b ∈ listInsert key a xs ↔ b = a ∨ b ∈ xs := List.mem_orderedInsert _

theorem listInsert_append_left {a b : α} (h : key a < key b) (ys : List α) :
    ∀ xs : List α, listInsert key a (xs ++ b :: ys) = listInsert key a xs ++ b :: ys
  | [] => by simp [listInsert, h.le]
  | x :: xs => by
      have ih := listInsert_append_left h ys xs
      simp only [listInsert] at ih
      by_cases hx : key a ≤ key x
      · simp [listInsert, hx]
      · simp [listInsert, hx, ih]

theorem listInsert_append_right {a b : α} (h : key b < key a) (ys : List α) :
    ∀ xs : List α, (∀ x ∈ xs, key x < key a) →
      listInsert key a (xs ++ b :: ys) = xs ++ b :: listInsert key a ys
  | [], _ => by simp [listInsert, h.not_ge]
  | x :: xs, hxs => by
      have ih := listInsert_append_right h ys xs fun y hy => hxs y (List.mem_cons_of_mem _ hy)
      have hx : ¬ key a ≤ key x := (hxs x List.mem_cons_self).not_ge
      simp only [listInsert] at ih
      simp [listInsert, hx, ih]

/-- Inserting a payload with a fresh key keeps strict order. -/
theorem ordered_of_toList_eq {t t' : HTree α} {a : α} (ht : Ordered key t)
    (hfresh : ∀ x ∈ t.toList, key x ≠ key a)
    (h : t'.toList = listInsert key a t.toList) : Ordered key t' := by
  -- sorted insertion keeps `≤`, and the keys are distinct
  have hne : (listInsert key a t.toList).Pairwise fun x y => key x ≠ key y := by
    refine ((List.perm_orderedInsert _ a t.toList).pairwise_iff fun h => Ne.symm h).mpr ?_
    exact List.pairwise_cons.mpr ⟨fun x hx => (hfresh x hx).symm, ht.imp fun h => h.ne⟩
  have hle : (listInsert key a t.toList).Pairwise fun x y => key x ≤ key y := by
    have : Std.Total fun x y : α => key x ≤ key y := ⟨fun x y => le_total _ _⟩
    have : IsTrans α fun x y : α => key x ≤ key y := ⟨fun _ _ _ h₁ h₂ => h₁.trans h₂⟩
    exact List.Pairwise.orderedInsert a t.toList (ht.imp fun h => h.le)
  unfold Ordered
  rw [h]
  exact (hle.and hne).imp fun h => lt_of_le_of_ne h.1 h.2

end Order

/-! ## Payload updates keep shape, heights and order -/

@[simp] theorem height_map (f : α → β) : ∀ t : HTree α, (t.map f).height = t.height
  | nil => rfl
  | node _ _ _ _ => rfl

@[simp] theorem isNil_map (f : α → β) : ∀ t : HTree α, (t.map f).isNil = t.isNil
  | nil => rfl
  | node _ _ _ _ => rfl

@[simp] theorem toList_map (f : α → β) : ∀ t : HTree α, (t.map f).toList = t.toList.map f
  | nil => rfl
  | node l _ _ r => by simp [map, toList_map f l, toList_map f r]

theorem map_congr {f g : α → β} : ∀ {t : HTree α}, (∀ a ∈ t.toList, f a = g a) → t.map f = t.map g
  | nil, _ => rfl
  | node l a h r, hfg => by
      rw [map, map, map_congr fun b hb => hfg b (by simp [hb]),
        map_congr fun b hb => hfg b (by simp [hb]), hfg a (by simp)]

theorem Avl.map (f : α → β) : ∀ {t : HTree α}, Avl t → Avl (t.map f)
  | nil, _ => avl_nil
  | node l a h r, ht => by
      obtain ⟨hl, hr, hh⟩ := avl_node.mp ht
      refine avl_node.mpr ⟨hl.map f, hr.map f, ?_⟩
      simpa using hh

theorem Ordered.map [LinearOrder κ] {key : α → κ} {key' : β → κ} {f : α → β}
    (hf : ∀ a, key' (f a) = key a) {t : HTree α} (ht : Ordered key t) :
    Ordered key' (t.map f) := by
  unfold Ordered
  rw [toList_map, List.pairwise_map]
  exact ht.imp fun {a b} h => by rwa [hf, hf]

end HTree

end PTop.Framework
