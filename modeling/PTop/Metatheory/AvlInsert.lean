import PTop.Model.AvlTree
import Mathlib.Data.Finset.Sort

/-!
# The AVL invariant through `insert`

One induction carries order, stored heights and balance together. What makes
it go through is `Heavy`: when an insertion raises a subtree, the key
comparison tells which of its children is the taller one. That is what the
rebalancing test relies on when it picks a rotation by comparing keys.
-/

namespace PTop

open Framework Framework.HTree

namespace AvlTree

/-- The search order of a process tree. -/
abbrev Sorted (T : AvlTree) : Prop := HTree.Ordered AvlNode.element T

/-- The keys of a tree, in order. -/
def keys (T : AvlTree) : List ElementType := T.toList.map AvlNode.element

theorem maxInt_eq (a b : Int) : maxInt a b = max a b := by
  unfold maxInt
  split <;> omega

/-! ## Rotations -/

/-- The taller child of a subtree that an insertion of `X` has just raised. -/
def Heavy (X : ElementType) : AvlTree → Prop
  | .nil => False
  | .node l n _ r =>
      (l.height = -1 ∧ r.height = -1) ∨
      (X < n.element ∧ l.height = r.height + 1) ∨
      (n.element < X ∧ r.height = l.height + 1)

/-- A side that is two levels too high is one that the insertion has raised. -/
theorem heavy_of_grown {X : ElementType} {S S' : AvlTree} {lo : Int}
    (hgrow : S'.height = S.height ∨ S'.height = S.height + 1 ∧ Heavy X S')
    (hS : S.height ≤ lo + 1) (hdiff : S'.height = lo + 2) : Heavy X S' := by
  rcases hgrow with heq | ⟨-, hheavy⟩
  · omega
  · exact hheavy

/-- What both rebalancing tests deliver: an AVL tree with the same in-order
list, and the height the subtree had before the insertion if it rotated. -/
structure Rebalanced (hi lo : Int) (xs : List AvlNode) (T : AvlTree) : Prop where
  avl : Avl T
  toList : T.toList = xs
  height : T.height = if hi = lo + 2 then hi else max hi lo + 1

/-- A node rebuilt over two AVL subtrees of nearly equal height. -/
theorem avl_rebuilt {l r : AvlTree} (n : AvlNode) (hl : Avl l) (hr : Avl r)
    (hlr : l.height ≤ r.height + 1) (hrl : r.height ≤ l.height + 1) :
    Avl (.node l n (maxInt l.height r.height + 1) r) := by
  rw [maxInt_eq]
  exact avl_node.mpr ⟨hl, hr, rfl, hlr, hrl⟩

theorem avl_rebuilt_comm {l r : AvlTree} (n : AvlNode) (hl : Avl l) (hr : Avl r)
    (hlr : l.height ≤ r.height + 1) (hrl : r.height ≤ l.height + 1) :
    Avl (.node l n (maxInt r.height l.height + 1) r) := by
  rw [maxInt_eq, max_comm]
  exact avl_node.mpr ⟨hl, hr, rfl, hlr, hrl⟩

theorem singleRotateWithLeft_spec {a b c : AvlTree} {k1 k2 : AvlNode} {h1 h2 : Int}
    (ha : Avl a) (hb : Avl b) (hc : Avl c)
    (hab : a.height = b.height + 1) (hbc : b.height = c.height) :
    ∃ T, singleRotateWithLeft (.node (.node a k1 h1 b) k2 h2 c) = some T ∧ Avl T ∧
      T.toList = (a.toList ++ k1 :: b.toList) ++ k2 :: c.toList ∧ T.height = c.height + 2 := by
  have hK2 := avl_rebuilt k2 hb hc (by omega) (by omega)
  have h2 : maxInt b.height c.height + 1 = c.height + 1 := by rw [maxInt_eq]; omega
  have hT := avl_rebuilt k1 ha hK2 (by rw [height_node]; omega) (by rw [height_node]; omega)
  rw [height_node] at hT
  refine ⟨_, rfl, hT, by simp, ?_⟩
  rw [height_node, maxInt_eq]; omega

theorem singleRotateWithRight_spec {a b c : AvlTree} {k1 k2 : AvlNode} {h1 h2 : Int}
    (ha : Avl a) (hb : Avl b) (hc : Avl c)
    (hcb : c.height = b.height + 1) (hab : b.height = a.height) :
    ∃ T, singleRotateWithRight (.node a k1 h1 (.node b k2 h2 c)) = some T ∧ Avl T ∧
      T.toList = a.toList ++ k1 :: (b.toList ++ k2 :: c.toList) ∧ T.height = a.height + 2 := by
  have hK1 := avl_rebuilt k1 ha hb (by omega) (by omega)
  have h1 : maxInt a.height b.height + 1 = a.height + 1 := by rw [maxInt_eq]; omega
  have hT := avl_rebuilt_comm k2 hK1 hc (by rw [height_node]; omega) (by rw [height_node]; omega)
  rw [height_node] at hT
  refine ⟨_, rfl, hT, by simp, ?_⟩
  rw [height_node, maxInt_eq c.height]; omega

/-- The middle subtree of a double rotation is nonempty, one higher than its
sibling, and split evenly enough to be shared out. -/
theorem doubleRotateWithLeft_spec {a b c : AvlTree} {k1 k3 : AvlNode} {h1 h3 : Int}
    (ha : Avl a) (hb : Avl b) (hc : Avl c)
    (hab : b.height = a.height + 1) (hac : a.height = c.height) :
    ∃ T, doubleRotateWithLeft (.node (.node a k1 h1 b) k3 h3 c) = some T ∧ Avl T ∧
      T.toList = (a.toList ++ k1 :: b.toList) ++ k3 :: c.toList ∧ T.height = c.height + 2 := by
  cases b with
  | nil =>
      -- `K3->Left->Right` is higher than its sibling, so it is not `NULL`
      have := ha.neg_one_le_height
      rw [height_nil] at hab
      omega
  | node b1 k2 h2 b2 =>
      obtain ⟨hb1, hb2, hh, hd1, hd2⟩ := avl_node.mp hb
      rw [height_node] at hab
      have hK1 := avl_rebuilt k1 ha hb1 (by omega) (by omega)
      have hK3 := avl_rebuilt k3 hb2 hc (by omega) (by omega)
      have h1 : maxInt a.height b1.height + 1 = c.height + 1 := by rw [maxInt_eq]; omega
      have h3 : maxInt b2.height c.height + 1 = c.height + 1 := by rw [maxInt_eq]; omega
      have hT := avl_rebuilt k2 hK1 hK3 (by rw [height_node, height_node]; omega)
        (by rw [height_node, height_node]; omega)
      rw [height_node, height_node] at hT
      refine ⟨_, rfl, hT, by simp, ?_⟩
      rw [height_node, height_node, maxInt_eq (maxInt _ _ + 1)]; omega

theorem doubleRotateWithRight_spec {a b c : AvlTree} {k1 k3 : AvlNode} {h1 h3 : Int}
    (ha : Avl a) (hb : Avl b) (hc : Avl c)
    (hbc : b.height = c.height + 1) (hac : a.height = c.height) :
    ∃ T, doubleRotateWithRight (.node a k1 h1 (.node b k3 h3 c)) = some T ∧ Avl T ∧
      T.toList = a.toList ++ k1 :: (b.toList ++ k3 :: c.toList) ∧ T.height = a.height + 2 := by
  cases b with
  | nil =>
      have := hc.neg_one_le_height
      rw [height_nil] at hbc
      omega
  | node b1 k2 h2 b2 =>
      obtain ⟨hb1, hb2, hh, hd1, hd2⟩ := avl_node.mp hb
      rw [height_node] at hbc
      have hK1 := avl_rebuilt k1 ha hb1 (by omega) (by omega)
      have hK3 := avl_rebuilt k3 hb2 hc (by omega) (by omega)
      have h1 : maxInt a.height b1.height + 1 = a.height + 1 := by rw [maxInt_eq]; omega
      have h3 : maxInt b2.height c.height + 1 = a.height + 1 := by rw [maxInt_eq]; omega
      have hT := avl_rebuilt_comm k2 hK1 hK3 (by rw [height_node, height_node]; omega)
        (by rw [height_node, height_node]; omega)
      rw [height_node, height_node] at hT
      refine ⟨_, rfl, hT, by simp, ?_⟩
      rw [height_node, height_node, maxInt_eq (maxInt _ _ + 1)]; omega

theorem setHeight_of_avl {T : AvlTree} (hT : Avl T) (hne : T ≠ .nil) : setHeight T = some T := by
  cases T with
  | nil => exact absurd rfl hne
  | node l n h r =>
      obtain ⟨-, -, hh, -, -⟩ := avl_node.mp hT
      rw [setHeight, maxInt_eq, ← hh]

theorem ne_nil_of_toList {T : AvlTree} {xs ys : List AvlNode} {n : AvlNode}
    (h : T.toList = xs ++ n :: ys) : T ≠ .nil := by
  rintro rfl
  simp at h

theorem rebalanceLeft_of_ne {X : ElementType} {l r : AvlTree} {n : AvlNode} {h : Int}
    (hne : l.height - r.height ≠ 2) :
    rebalanceLeft X (.node l n h r) = some (.node l n h r) := by
  unfold rebalanceLeft
  exact if_neg hne

theorem rebalanceRight_of_ne {X : ElementType} {l r : AvlTree} {n : AvlNode} {h : Int}
    (hne : r.height - l.height ≠ 2) :
    rebalanceRight X (.node l n h r) = some (.node l n h r) := by
  unfold rebalanceRight
  exact if_neg hne

theorem rebalanceLeft_of_eq {X : ElementType} {a b r : AvlTree} {k n : AvlNode} {h1 h : Int}
    (heq : h1 - r.height = 2) :
    rebalanceLeft X (.node (.node a k h1 b) n h r) =
      if X < k.element then singleRotateWithLeft (.node (.node a k h1 b) n h r)
      else doubleRotateWithLeft (.node (.node a k h1 b) n h r) := by
  unfold rebalanceLeft
  exact if_pos heq

theorem rebalanceRight_of_eq {X : ElementType} {l b c : AvlTree} {k n : AvlNode} {h2 h : Int}
    (heq : h2 - l.height = 2) :
    rebalanceRight X (.node l n h (.node b k h2 c)) =
      if X > k.element then singleRotateWithRight (.node l n h (.node b k h2 c))
      else doubleRotateWithRight (.node l n h (.node b k h2 c)) := by
  unfold rebalanceRight
  exact if_pos heq

/-- The left test, height refresh included. -/
theorem rebalanceLeft_spec {X : ElementType} {l r : AvlTree} {n : AvlNode} {h : Int}
    (hl : Avl l) (hr : Avl r) (hlr : l.height ≤ r.height + 2) (hrl : r.height ≤ l.height + 1)
    (hheavy : l.height = r.height + 2 → Heavy X l) :
    ∃ T, (rebalanceLeft X (.node l n h r)).bind setHeight = some T ∧
      Rebalanced l.height r.height (l.toList ++ n :: r.toList) T := by
  -- the test asks for exactly two levels, which is all an insertion can add
  by_cases hdiff : l.height = r.height + 2
  · have hheavy := hheavy hdiff
    cases l with
    | nil => exact hheavy.elim
    | node a k1 h1 b =>
        obtain ⟨ha, hb, hh, hd1, hd2⟩ := avl_node.mp hl
        have hr1 := hr.neg_one_le_height
        simp only [height_node] at hdiff
        have hrot : ∃ T, rebalanceLeft X (.node (.node a k1 h1 b) n h r) = some T ∧ Avl T ∧
            T.toList = (a.toList ++ k1 :: b.toList) ++ n :: r.toList ∧
            T.height = r.height + 2 := by
          rw [rebalanceLeft_of_eq (by omega)]
          -- the source compares keys, not heights; `Heavy` says that this is the same
          rcases hheavy with ⟨ha0, hb0⟩ | ⟨hX, hab⟩ | ⟨hX, hba⟩
          · omega
          · rw [if_pos hX]
            exact singleRotateWithLeft_spec ha hb hr hab (by omega)
          · rw [if_neg hX.not_gt]
            exact doubleRotateWithLeft_spec ha hb hr hba (by omega)
        obtain ⟨T, hT, havl, hlist, hheight⟩ := hrot
        refine ⟨T, ?_, havl, by simpa using hlist, ?_⟩
        · rw [hT, Option.bind_some, setHeight_of_avl havl (ne_nil_of_toList hlist)]
        · rw [if_pos (by simpa using hdiff), hheight, height_node, hdiff]
  · refine ⟨.node l n (max l.height r.height + 1) r, ?_, ?_, rfl, ?_⟩
    · rw [rebalanceLeft_of_ne (by omega), Option.bind_some, setHeight, maxInt_eq]
    · exact avl_node.mpr ⟨hl, hr, rfl, by omega, by omega⟩
    · rw [if_neg hdiff, height_node]

/-- The right test, height refresh included. -/
theorem rebalanceRight_spec {X : ElementType} {l r : AvlTree} {n : AvlNode} {h : Int}
    (hl : Avl l) (hr : Avl r) (hrl : r.height ≤ l.height + 2) (hlr : l.height ≤ r.height + 1)
    (hheavy : r.height = l.height + 2 → Heavy X r) :
    ∃ T, (rebalanceRight X (.node l n h r)).bind setHeight = some T ∧
      Rebalanced r.height l.height (l.toList ++ n :: r.toList) T := by
  by_cases hdiff : r.height = l.height + 2
  · have hheavy := hheavy hdiff
    cases r with
    | nil => exact hheavy.elim
    | node b k2 h2 c =>
        obtain ⟨hb, hc, hh, hd1, hd2⟩ := avl_node.mp hr
        have hl1 := hl.neg_one_le_height
        simp only [height_node] at hdiff
        have hrot : ∃ T, rebalanceRight X (.node l n h (.node b k2 h2 c)) = some T ∧ Avl T ∧
            T.toList = l.toList ++ n :: (b.toList ++ k2 :: c.toList) ∧
            T.height = l.height + 2 := by
          rw [rebalanceRight_of_eq (by omega)]
          rcases hheavy with ⟨hb0, hc0⟩ | ⟨hX, hbc⟩ | ⟨hX, hcb⟩
          · omega
          · rw [if_neg hX.not_gt]
            exact doubleRotateWithRight_spec hl hb hc hbc (by omega)
          · rw [if_pos hX]
            exact singleRotateWithRight_spec hl hb hc hcb (by omega)
        obtain ⟨T, hT, havl, hlist, hheight⟩ := hrot
        refine ⟨T, ?_, havl, by simpa using hlist, ?_⟩
        · rw [hT, Option.bind_some, setHeight_of_avl havl (ne_nil_of_toList hlist)]
        · rw [if_pos (by simpa using hdiff), hheight, height_node, hdiff]
  · refine ⟨.node l n (max l.height r.height + 1) r, ?_, ?_, rfl, ?_⟩
    · rw [rebalanceRight_of_ne (by omega), Option.bind_some, setHeight, maxInt_eq]
    · exact avl_node.mpr ⟨hl, hr, rfl, by omega, by omega⟩
    · rw [if_neg hdiff, height_node, max_comm]

/-- The subtree's height before and after: it rises only where the two sides
were level and the left or right one rose. -/
theorem Rebalanced.height_cases {hi lo old : Int} {xs : List AvlNode} {T : AvlTree}
    (h : Rebalanced hi lo xs T) (hgrow : hi = old ∨ hi = old + 1)
    (hol : old ≤ lo + 1) (hlo : lo ≤ old + 1) :
    T.height = max old lo + 1 ∨ T.height = max old lo + 2 ∧ old = lo ∧ hi = old + 1 := by
  have hT := h.height
  split at hT <;> omega

/-! ## Insertion -/

/-- What an insertion of a new key delivers. -/
structure Inserted (X : ElementType) (n : AvlNode) (T T' : AvlTree) : Prop where
  avl : Avl T'
  toList : T'.toList = listInsert AvlNode.element n T.toList
  height : T'.height = T.height ∨ T'.height = T.height + 1 ∧ Heavy X T'

theorem insert_node_left {X : ElementType} {fd : PCFile} {addr : Position} {l r : AvlTree}
    {n : AvlNode} {h : Int} {np : Option Position} (hX : X < n.element) :
    insert X fd addr (.node l n h r) np =
      (insert X fd addr l np).bind fun p =>
        ((rebalanceLeft X (.node p.1 n h r)).bind setHeight).map fun T => (T, p.2) := by
  rw [insert, if_pos hX]
  cases insert X fd addr l np with
  | none => rfl
  | some p => cases h' : rebalanceLeft X (.node p.1 n h r) <;> simp [h', Option.map_eq_bind]

theorem insert_node_right {X : ElementType} {fd : PCFile} {addr : Position} {l r : AvlTree}
    {n : AvlNode} {h : Int} {np : Option Position} (hX : n.element < X) :
    insert X fd addr (.node l n h r) np =
      (insert X fd addr r np).bind fun p =>
        ((rebalanceRight X (.node l n h p.1)).bind setHeight).map fun T => (T, p.2) := by
  rw [insert, if_neg hX.not_gt, if_pos hX]
  cases insert X fd addr r np with
  | none => rfl
  | some p => cases h' : rebalanceRight X (.node l n h p.1) <;> simp [h', Option.map_eq_bind]

theorem insert_node_self {X : ElementType} {fd : PCFile} {addr : Position} {l r : AvlTree}
    {n : AvlNode} {h : Int} {np : Option Position} (hX : n.element = X) :
    insert X fd addr (.node l n h r) np =
      (setHeight (.node l n h r)).map fun T => (T, np) := by
  subst hX
  rw [insert, if_neg (lt_irrefl _), if_neg (lt_irrefl _)]
  simp [Option.map_eq_bind]

/-- **A new key.** `insert` never reads through `NULL`, puts the new node at its
place in the in-order list, and keeps the AVL shape. -/
theorem insert_absent (X : ElementType) (fd : PCFile) (addr : Position) (np : Option Position) :
    ∀ {T : AvlTree}, Avl T → Sorted T → (∀ m ∈ T.toList, m.element ≠ X) →
      ∃ T', insert X fd addr T np = some (T', some addr) ∧
        Inserted X (newNode X fd addr) T T'
  | .nil, _, _, _ => by
      refine ⟨.node .nil (newNode X fd addr) 0 .nil, rfl, ?_, rfl, Or.inr ⟨rfl, Or.inl ⟨rfl, rfl⟩⟩⟩
      exact avl_node.mpr ⟨avl_nil, avl_nil, by decide, by decide, by decide⟩
  | .node l n h r, hA, hO, hX => by
      obtain ⟨hl, hr, hh, hd1, hd2⟩ := avl_node.mp hA
      obtain ⟨ol, or, hln, hnr⟩ := (ordered_node _).mp hO
      -- induction on the descent: the call below says which side rose, and by which child
      rcases lt_trichotomy X n.element with hlt | heq | hgt
      · obtain ⟨l', hins, havl, hlist, hgrow⟩ := insert_absent X fd addr np hl ol
          fun m hm => hX m (List.mem_append_left _ hm)
        have hrose : l'.height = l.height ∨ l'.height = l.height + 1 := hgrow.imp_right And.left
        obtain ⟨T', hreb, hT'⟩ := rebalanceLeft_spec (n := n) (h := h) havl hr
          (by omega) (by omega) (heavy_of_grown hgrow hd1)
        refine ⟨T', ?_, hT'.avl, ?_, ?_⟩
        · rw [insert_node_left hlt, hins, Option.bind_some, hreb, Option.map_some]
        · have hkey : AvlNode.element (newNode X fd addr) < AvlNode.element n := hlt
          rw [hT'.toList, hlist, toList_node, listInsert_append_left hkey]
        · rw [height_node, hh]
          rcases hT'.height_cases hrose hd1 hd2 with hsame | ⟨hup, hlevel, hg⟩
          · exact Or.inl hsame
          · refine Or.inr ⟨by omega, ?_⟩
            -- the subtree rose without a rotation, so its root is still `n`
            rw [rebalanceLeft_of_ne (by omega), Option.bind_some, setHeight] at hreb
            cases hreb
            exact Or.inr (Or.inl ⟨hlt, by omega⟩)
      · exact absurd heq.symm (hX n (by simp))
      · obtain ⟨r', hins, havl, hlist, hgrow⟩ := insert_absent X fd addr np hr or
          fun m hm => hX m (by simp [hm])
        have hrose : r'.height = r.height ∨ r'.height = r.height + 1 := hgrow.imp_right And.left
        obtain ⟨T', hreb, hT'⟩ := rebalanceRight_spec (n := n) (h := h) hl havl
          (by omega) (by omega) (heavy_of_grown hgrow hd2)
        refine ⟨T', ?_, hT'.avl, ?_, ?_⟩
        · rw [insert_node_right hgt, hins, Option.bind_some, hreb, Option.map_some]
        · have hkey : AvlNode.element n < AvlNode.element (newNode X fd addr) := hgt
          rw [hT'.toList, hlist, toList_node, listInsert_append_right hkey]
          intro m hm
          exact (hln m hm).trans hgt
        · rw [height_node, hh, max_comm]
          rcases hT'.height_cases hrose hd2 hd1 with hsame | ⟨hup, hlevel, hg⟩
          · exact Or.inl hsame
          · refine Or.inr ⟨by omega, ?_⟩
            rw [rebalanceRight_of_ne (by omega), Option.bind_some, setHeight] at hreb
            cases hreb
            exact Or.inr (Or.inr ⟨hgt, by omega⟩)

/-- **A key already present.** Nothing changes: no test fires in a balanced
tree, and refreshing a correct height is a no-op. -/
theorem insert_present {X : ElementType} {fd : PCFile} {addr : Position} {np : Option Position} :
    ∀ {T : AvlTree}, Avl T → Sorted T → (∃ m ∈ T.toList, m.element = X) →
      insert X fd addr T np = some (T, np)
  | .nil, _, _, h => by simp at h
  | .node l n h r, hA, hO, hX => by
      obtain ⟨hl, hr, hh, hd1, hd2⟩ := avl_node.mp hA
      obtain ⟨ol, or, hln, hnr⟩ := (ordered_node _).mp hO
      obtain ⟨m, hm, rfl⟩ := hX
      simp only [toList_node, List.mem_append, List.mem_cons] at hm
      rcases hm with hm | rfl | hm
      · -- the subtree comes back unchanged, so the test of balance fails
        rw [insert_node_left (hln m hm), insert_present hl ol ⟨m, hm, rfl⟩]
        simp only [Option.bind_some]
        rw [rebalanceLeft_of_ne (by omega), Option.bind_some,
          setHeight_of_avl hA (by simp), Option.map_some]
      · rw [insert_node_self rfl, setHeight_of_avl hA (by simp), Option.map_some]
      · rw [insert_node_right (hnr m hm), insert_present hr or ⟨m, hm, rfl⟩]
        simp only [Option.bind_some]
        rw [rebalanceRight_of_ne (by omega), Option.bind_some,
          setHeight_of_avl hA (by simp), Option.map_some]

end AvlTree

end PTop
