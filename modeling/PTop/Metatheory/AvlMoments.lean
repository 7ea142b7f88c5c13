import PTop.Model.AvlTrace
import PTop.Metatheory.AvlLookup

/-!
# Inside one call of `insert`

The invariant of the tree holds again when `insert` returns. In between, a subtree
may be one level too high on one side, and a double rotation passes through a tree
that is no better. Nothing worse happens: at every moment the two sides of every node
differ by at most two levels, every rotation finds the nodes it reads through, and
one rebalancing is enough, since a subtree that has been rotated is as high as before.
-/

namespace PTop

open Framework Framework.HTree Framework.Traced

namespace AvlTree

/-! ## The trace belongs to `insert` -/

theorem result_assign (x : Traced Event AvlTree) : (assign x).result = x.result := by
  unfold assign
  simp

theorem result_tracedDoubleWithLeft (K : AvlTree) :
    (tracedDoubleWithLeft K).result = doubleRotateWithLeft K := by
  unfold tracedDoubleWithLeft tracedSingle
  cases K with
  | nil => simp [doubleRotateWithLeft]
  | node l k3 h r => simp [doubleRotateWithLeft, Rotation.apply]

theorem result_tracedDoubleWithRight (K : AvlTree) :
    (tracedDoubleWithRight K).result = doubleRotateWithRight K := by
  unfold tracedDoubleWithRight tracedSingle
  cases K with
  | nil => simp [doubleRotateWithRight]
  | node l k1 h r => simp [doubleRotateWithRight, Rotation.apply]

theorem result_tracedSingle (k : Rotation) (inner : Bool) (K : AvlTree) :
    (tracedSingle k inner K).result = k.apply K := by
  unfold tracedSingle
  simp

theorem result_tracedRebalanceLeft (X : ElementType) (T : AvlTree) :
    (tracedRebalanceLeft X T).result = rebalanceLeft X T := by
  unfold tracedRebalanceLeft rebalanceLeft
  cases T with
  | nil => rfl
  | node l n h r =>
      dsimp only
      split
      · cases l with
        | nil => rfl
        | node a k h1 b =>
            dsimp only
            split
            · rw [result_assign, result_tracedSingle, Rotation.apply]
            · rw [result_assign, result_tracedDoubleWithLeft]
      · rfl

theorem result_tracedRebalanceRight (X : ElementType) (T : AvlTree) :
    (tracedRebalanceRight X T).result = rebalanceRight X T := by
  unfold tracedRebalanceRight rebalanceRight
  cases T with
  | nil => rfl
  | node l n h r =>
      dsimp only
      split
      · cases r with
        | nil => rfl
        | node b k h2 c =>
            dsimp only
            split
            · rw [result_assign, result_tracedSingle, Rotation.apply]
            · rw [result_assign, result_tracedDoubleWithRight]
      · rfl

theorem result_tracedReturn (before root : AvlTree) :
    (tracedReturn before root).result = setHeight root := by
  unfold tracedReturn
  rw [result_bind, result_assign]
  simp

/-- **The trace is one of `insert`.** -/
theorem result_tracedInsert (X : ElementType) (fd : PCFile) (addr : Position) :
    ∀ (T : AvlTree) (np : Option Position),
      (tracedInsert X fd addr T np).result = insert X fd addr T np
  | .nil, np => by
      rw [tracedInsert, insert, result_bind, result_tell, Option.bind_some, result_bind,
        result_tracedReturn]
      rfl
  | .node l n h r, np => by
      rw [tracedInsert, insert]
      split
      · rw [result_bind, result_within, result_tracedInsert X fd addr l np]
        simp only [result_bind, result_tracedRebalanceLeft, result_tracedReturn, result_pure]
        rfl
      · split
        · rw [result_bind, result_within, result_tracedInsert X fd addr r np]
          simp only [result_bind, result_tracedRebalanceRight, result_tracedReturn, result_pure]
          rfl
        · rw [result_bind, result_tracedReturn]
          rfl

/-! ## Rotations -/

/-- A rotation that goes through has read through no `NULL`. -/
theorem Rotation.nonNull_of_apply {k : Rotation} {K T : AvlTree} (h : k.apply K = some T) :
    k.NonNull K := by
  cases K with
  | nil => cases k <;> exact absurd h (by simp [Rotation.apply, singleRotateWithLeft,
      singleRotateWithRight, doubleRotateWithLeft, doubleRotateWithRight])
  | node l n s r =>
      cases k with
      | singleWithLeft =>
          cases l with
          | nil => exact absurd h (by simp [Rotation.apply, singleRotateWithLeft])
          | node a k1 h1 b => simp [Rotation.NonNull, leftLink]
      | singleWithRight =>
          cases r with
          | nil => exact absurd h (by simp [Rotation.apply, singleRotateWithRight])
          | node b k2 h2 c => simp [Rotation.NonNull, rightLink]
      | doubleWithLeft =>
          rcases l with _ | ⟨a, k1, h1, _ | ⟨b1, k2, h2, b2⟩⟩
          · exact absurd h (by simp [Rotation.apply, doubleRotateWithLeft, singleRotateWithRight])
          · exact absurd h (by simp [Rotation.apply, doubleRotateWithLeft, singleRotateWithRight])
          · simp [Rotation.NonNull, leftLink, rightLink]
      | doubleWithRight =>
          rcases r with _ | ⟨_ | ⟨b1, k2, h2, b2⟩, k3, h3, c⟩
          · exact absurd h (by simp [Rotation.apply, doubleRotateWithRight, singleRotateWithLeft])
          · exact absurd h (by simp [Rotation.apply, doubleRotateWithRight, singleRotateWithLeft])
          · simp [Rotation.NonNull, leftLink, rightLink]

/-! ## What may be seen during a call -/

/-- A tree seen while `insert` works on a tree of height `H`. -/
structure MomentOk (H : Int) (M : AvlTree) : Prop where
  shape : M.Within trueHeight 2
  stored : M.Within height 2
  trueHeight_ge : H ≤ M.trueHeight
  trueHeight_le : M.trueHeight ≤ H + 1
  height_ge : H ≤ M.height
  height_le : M.height ≤ H + 1

def Event.Ok (H : Int) : Event → Prop
  | .moment M => MomentOk H M
  | .rotate k _ K => k.NonNull K
  | .returned before after =>
      after.trueHeight ≤ before.trueHeight + 1 ∧ after.height ≤ before.height + 1

/-- The calls of rotations that `insert` itself makes. -/
def rebalancings (tr : List Event) : ℕ := tr.countP Event.isRebalancing

theorem rebalancings_append (tr tr' : List Event) :
    rebalancings (tr ++ tr') = rebalancings tr + rebalancings tr' := List.countP_append ..

theorem rebalancings_within (f : AvlTree → AvlTree) (tr : List Event) :
    rebalancings (tr.map (Event.within f)) = rebalancings tr := by
  have hf : (fun e => Event.isRebalancing (Event.within f e)) = Event.isRebalancing := by
    funext e
    cases e <;> rfl
  rw [rebalancings, List.countP_map]
  exact congrArg (List.countP · tr) hf

theorem momentOk_of_avl {H : Int} {M : AvlTree} (h : Avl M) (hge : H ≤ M.height)
    (hle : M.height ≤ H + 1) : MomentOk H M := by
  have heq := h.heightOk.height_eq
  have hshape : M.Within trueHeight 2 := h.balanced.within (by decide)
  exact ⟨hshape, hshape.stored h.heightOk, by omega, by omega, hge, hle⟩

/-- Two trees at most one level apart before the call, one of which may have grown, below
a node whose height is refreshed or not. -/
theorem momentOk_node {l r : AvlTree} (n : AvlNode) {L R H s : Int} (hl : MomentOk L l)
    (hr : MomentOk R r) (hLR : L ≤ R + 1) (hRL : R ≤ L + 1) (hH : H = max L R + 1)
    (hge : H ≤ s) (hle : s ≤ H + 1) : MomentOk H (.node l n s r) := by
  have hl1 := hl.trueHeight_ge
  have hl2 := hl.trueHeight_le
  have hl3 := hl.height_ge
  have hl4 := hl.height_le
  have hr1 := hr.trueHeight_ge
  have hr2 := hr.trueHeight_le
  have hr3 := hr.height_ge
  have hr4 := hr.height_le
  have htrue : |l.trueHeight - r.trueHeight| ≤ 2 := abs_le.mpr ⟨by omega, by omega⟩
  have hstored : |l.height - r.height| ≤ 2 := abs_le.mpr ⟨by omega, by omega⟩
  refine ⟨⟨hl.shape, hr.shape, htrue⟩, ⟨hl.stored, hr.stored, hstored⟩, ?_, ?_, hge, hle⟩
  · rw [trueHeight]
    omega
  · rw [trueHeight]
    omega

/-- The left subtree is worked on: the tree above is no worse. -/
theorem MomentOk.node_left {l r M : AvlTree} {n : AvlNode} {h : Int} (hT : Avl (.node l n h r))
    (hM : MomentOk l.height M) : MomentOk h (.node M n h r) := by
  obtain ⟨hl, hr, hh, hd1, hd2⟩ := avl_node.mp hT
  have hr' := momentOk_of_avl hr (le_refl _) (by omega)
  exact momentOk_node n hM hr' hd1 hd2 hh (le_refl h) (by omega)

theorem MomentOk.node_right {l r M : AvlTree} {n : AvlNode} {h : Int} (hT : Avl (.node l n h r))
    (hM : MomentOk r.height M) : MomentOk h (.node l n h M) := by
  obtain ⟨hl, hr, hh, hd1, hd2⟩ := avl_node.mp hT
  have hl' := momentOk_of_avl hl (le_refl _) (by omega)
  exact momentOk_node n hl' hM hd1 hd2 hh (le_refl h) (by omega)

/-- An event below, seen from the node above. -/
theorem Event.Ok.within {H h : Int} {f : AvlTree → AvlTree}
    (hf : ∀ M, MomentOk H M → MomentOk h (f M)) : ∀ {e : Event}, e.Ok H → (e.within f).Ok h
  | .moment M, he => hf M he
  | .rotate _ _ _, he => he
  | .returned _ _, he => he

/-! ## One rebalancing -/

theorem trace_assign {x : Traced Event AvlTree} {T : AvlTree} (h : x.result = some T) :
    (assign x).trace = x.trace ++ [.moment T] := by
  rw [assign, trace_bind h]
  rfl

theorem trace_tracedSingle (k : Rotation) (inner : Bool) (K : AvlTree) :
    (tracedSingle k inner K).trace = [.rotate k inner K] := by
  rw [tracedSingle, trace_bind (result_tell _)]
  rfl

/-- A rebalancing in a subtree of height `H`, with nothing worse than two levels on the way. -/
def OneRebalancing (H : Int) (tr : List Event) : Prop :=
  rebalancings tr = 1 ∧ ∀ e ∈ tr, e.Ok H

theorem oneRebalancing_single {k : Rotation} {K : AvlTree} {xs : List AvlNode} {H : Int}
    (hrot : ∃ T, k.apply K = some T ∧ Avl T ∧ T.toList = xs ∧ T.height = H) :
    OneRebalancing H (assign (tracedSingle k false K)).trace := by
  obtain ⟨T, hT, havl, -, rfl⟩ := hrot
  rw [trace_assign (by rw [result_tracedSingle, hT]), trace_tracedSingle]
  refine ⟨rfl, ?_⟩
  simp only [List.singleton_append, List.forall_mem_cons]
  exact ⟨Rotation.nonNull_of_apply hT, momentOk_of_avl havl (le_refl _) (by omega), by simp⟩

/-- `hin` is about the tree between the two rotations. -/
theorem oneRebalancing_doubleWithLeft {l r : AvlTree} {k3 : AvlNode} {h H : Int}
    {xs : List AvlNode}
    (hin : ∃ l', Rotation.singleWithRight.apply l = some l' ∧ MomentOk H (.node l' k3 h r))
    (hrot : ∃ T, Rotation.doubleWithLeft.apply (.node l k3 h r) = some T ∧ Avl T ∧
      T.toList = xs ∧ T.height = H) :
    OneRebalancing H (assign (tracedDoubleWithLeft (.node l k3 h r))).trace := by
  obtain ⟨l', hl', hmid⟩ := hin
  obtain ⟨T, hT, havl, -, rfl⟩ := hrot
  have hout : Rotation.singleWithLeft.apply (.node l' k3 h r) = some T := by
    simp only [Rotation.apply] at hl' hT ⊢
    rw [doubleRotateWithLeft, hl'] at hT
    exact hT
  have htrace : (tracedDoubleWithLeft (.node l k3 h r)).trace =
      [.rotate .doubleWithLeft false (.node l k3 h r), .rotate .singleWithRight true l,
        .moment (.node l' k3 h r), .rotate .singleWithLeft true (.node l' k3 h r)] := by
    rw [tracedDoubleWithLeft, trace_bind (result_tell _),
      trace_bind ((result_tracedSingle _ _ _).trans hl'), trace_bind (result_tell _),
      trace_tracedSingle, trace_tracedSingle]
    rfl
  rw [trace_assign (by rw [result_tracedDoubleWithLeft]; exact hT), htrace]
  refine ⟨rfl, ?_⟩
  simp only [List.cons_append, List.nil_append, List.forall_mem_cons]
  exact ⟨Rotation.nonNull_of_apply hT, Rotation.nonNull_of_apply hl', hmid,
    Rotation.nonNull_of_apply hout, momentOk_of_avl havl (le_refl _) (by omega), by simp⟩

theorem oneRebalancing_doubleWithRight {l r : AvlTree} {k1 : AvlNode} {h H : Int}
    {xs : List AvlNode}
    (hin : ∃ r', Rotation.singleWithLeft.apply r = some r' ∧ MomentOk H (.node l k1 h r'))
    (hrot : ∃ T, Rotation.doubleWithRight.apply (.node l k1 h r) = some T ∧ Avl T ∧
      T.toList = xs ∧ T.height = H) :
    OneRebalancing H (assign (tracedDoubleWithRight (.node l k1 h r))).trace := by
  obtain ⟨r', hr', hmid⟩ := hin
  obtain ⟨T, hT, havl, -, rfl⟩ := hrot
  have hout : Rotation.singleWithRight.apply (.node l k1 h r') = some T := by
    simp only [Rotation.apply] at hr' hT ⊢
    rw [doubleRotateWithRight, hr'] at hT
    exact hT
  have htrace : (tracedDoubleWithRight (.node l k1 h r)).trace =
      [.rotate .doubleWithRight false (.node l k1 h r), .rotate .singleWithLeft true r,
        .moment (.node l k1 h r'), .rotate .singleWithRight true (.node l k1 h r')] := by
    rw [tracedDoubleWithRight, trace_bind (result_tell _),
      trace_bind ((result_tracedSingle _ _ _).trans hr'), trace_bind (result_tell _),
      trace_tracedSingle, trace_tracedSingle]
    rfl
  rw [trace_assign (by rw [result_tracedDoubleWithRight]; exact hT), htrace]
  refine ⟨rfl, ?_⟩
  simp only [List.cons_append, List.nil_append, List.forall_mem_cons]
  exact ⟨Rotation.nonNull_of_apply hT, Rotation.nonNull_of_apply hr', hmid,
    Rotation.nonNull_of_apply hout, momentOk_of_avl havl (le_refl _) (by omega), by simp⟩

/-- The tree between the two rotations of `DoubleRotateWithLeft`. -/
theorem momentOk_doubleWithLeft {a b1 b2 c : AvlTree} {k1 k2 k3 : AvlNode} {h2 : Int} (h1 : Int)
    (ha : Avl a) (hb : Avl (.node b1 k2 h2 b2)) (hc : Avl c)
    (hba : h2 = a.height + 1) (hac : a.height = c.height) :
    ∃ l', singleRotateWithRight (.node a k1 h1 (.node b1 k2 h2 b2)) = some l' ∧
      MomentOk (c.height + 2) (.node l' k3 (c.height + 2) c) := by
  obtain ⟨hb1, hb2, hh, hd1, hd2⟩ := avl_node.mp hb
  have hK1 := avl_rebuilt k1 ha hb1 (by omega) (by omega)
  have hs1 : maxInt a.height b1.height + 1 = c.height + 1 := by rw [maxInt_eq]; omega
  have hs2 : maxInt b2.height (maxInt a.height b1.height + 1) + 1 = c.height + 2 := by
    rw [maxInt_eq b2.height, hs1]; omega
  refine ⟨_, rfl, ?_⟩
  rw [hs2]
  rw [hs1] at hK1 ⊢
  -- `K1` and its new sibling may be two levels apart, and so may `K2` and `c`
  have hK1' := momentOk_of_avl (H := c.height) hK1 (by rw [height_node]; omega)
    (by rw [height_node])
  have hb2' := momentOk_of_avl (H := c.height - 1) hb2 (by omega) (by omega)
  have hc' := momentOk_of_avl hc (le_refl _) (by omega)
  have hK2 : MomentOk (c.height + 1) (.node (.node a k1 (c.height + 1) b1) k2 (c.height + 2) b2) :=
    momentOk_node k2 hK1' hb2' (by omega) (by omega) (by omega) (by omega) (by omega)
  exact momentOk_node k3 hK2 hc' (by omega) (by omega) (by omega) (le_refl _) (by omega)

/-- The tree between the two rotations of `DoubleRotateWithRight`. -/
theorem momentOk_doubleWithRight {a b1 b2 c : AvlTree} {k1 k2 k3 : AvlNode} {h2 : Int} (h3 : Int)
    (ha : Avl a) (hb : Avl (.node b1 k2 h2 b2)) (hc : Avl c)
    (hbc : h2 = c.height + 1) (hac : a.height = c.height) :
    ∃ r', singleRotateWithLeft (.node (.node b1 k2 h2 b2) k3 h3 c) = some r' ∧
      MomentOk (a.height + 2) (.node a k1 (a.height + 2) r') := by
  obtain ⟨hb1, hb2, hh, hd1, hd2⟩ := avl_node.mp hb
  have hK3 := avl_rebuilt k3 hb2 hc (by omega) (by omega)
  have hs3 : maxInt b2.height c.height + 1 = a.height + 1 := by rw [maxInt_eq]; omega
  have hs2 : maxInt b1.height (maxInt b2.height c.height + 1) + 1 = a.height + 2 := by
    rw [maxInt_eq b1.height, hs3]; omega
  refine ⟨_, rfl, ?_⟩
  rw [hs2]
  rw [hs3] at hK3 ⊢
  have hK3' := momentOk_of_avl (H := a.height) hK3 (by rw [height_node]; omega)
    (by rw [height_node])
  have hb1' := momentOk_of_avl (H := a.height - 1) hb1 (by omega) (by omega)
  have ha' := momentOk_of_avl ha (le_refl _) (by omega)
  have hK2 : MomentOk (a.height + 1) (.node b1 k2 (a.height + 2) (.node b2 k3 (a.height + 1) c)) :=
    momentOk_node k2 hb1' hK3' (by omega) (by omega) (by omega) (by omega) (by omega)
  exact momentOk_node k1 ha' hK2 (by omega) (by omega) (by omega) (le_refl _) (by omega)

theorem trace_tracedRebalanceLeft_of_ne {X : ElementType} {l r : AvlTree} {n : AvlNode} {h : Int}
    (hne : l.height - r.height ≠ 2) : (tracedRebalanceLeft X (.node l n h r)).trace = [] := by
  unfold tracedRebalanceLeft
  dsimp only
  rw [if_neg hne]
  rfl

theorem trace_tracedRebalanceRight_of_ne {X : ElementType} {l r : AvlTree} {n : AvlNode} {h : Int}
    (hne : r.height - l.height ≠ 2) : (tracedRebalanceRight X (.node l n h r)).trace = [] := by
  unfold tracedRebalanceRight
  dsimp only
  rw [if_neg hne]
  rfl

/-- **The left test when it fires.** -/
theorem oneRebalancing_left {X : ElementType} {l r : AvlTree} {n : AvlNode} (hl : Avl l)
    (hr : Avl r) (hdiff : l.height = r.height + 2) (hheavy : Heavy X l) :
    OneRebalancing (r.height + 2) (tracedRebalanceLeft X (.node l n (r.height + 2) r)).trace := by
  cases l with
  | nil => exact hheavy.elim
  | node a k1 h1 b =>
      obtain ⟨ha, hb, hh, hd1, hd2⟩ := avl_node.mp hl
      have hr1 := hr.neg_one_le_height
      rw [height_node] at hdiff
      unfold tracedRebalanceLeft
      dsimp only
      rw [if_pos (by rw [height_node]; omega)]
      rcases hheavy with ⟨ha0, hb0⟩ | ⟨hX, hab⟩ | ⟨hX, hba⟩
      · omega
      · rw [if_pos hX]
        exact oneRebalancing_single
          (@singleRotateWithLeft_spec a b r k1 n h1 (r.height + 2) ha hb hr hab (by omega))
      · cases b with
        | nil =>
            -- the right grandchild is higher than its sibling
            have ha1 := ha.neg_one_le_height
            rw [height_nil] at hba
            omega
        | node b1 k2 h2 b2 =>
            rw [height_node] at hba hh
            rw [if_neg hX.not_gt]
            exact oneRebalancing_doubleWithLeft
              (momentOk_doubleWithLeft h1 ha hb hr hba (by omega))
              (doubleRotateWithLeft_spec ha hb hr hba (by omega))

/-- **The right test when it fires.** -/
theorem oneRebalancing_right {X : ElementType} {l r : AvlTree} {n : AvlNode} (hl : Avl l)
    (hr : Avl r) (hdiff : r.height = l.height + 2) (hheavy : Heavy X r) :
    OneRebalancing (l.height + 2) (tracedRebalanceRight X (.node l n (l.height + 2) r)).trace := by
  cases r with
  | nil => exact hheavy.elim
  | node b k2 h2 c =>
      obtain ⟨hb, hc, hh, hd1, hd2⟩ := avl_node.mp hr
      have hl1 := hl.neg_one_le_height
      rw [height_node] at hdiff
      unfold tracedRebalanceRight
      dsimp only
      rw [if_pos (by rw [height_node]; omega)]
      rcases hheavy with ⟨hb0, hc0⟩ | ⟨hX, hbc⟩ | ⟨hX, hcb⟩
      · omega
      · cases b with
        | nil =>
            have hc1 := hc.neg_one_le_height
            rw [height_nil] at hbc
            omega
        | node b1 k1 h1 b2 =>
            rw [height_node] at hbc hh
            rw [if_neg hX.not_gt]
            exact oneRebalancing_doubleWithRight
              (momentOk_doubleWithRight h2 hl hb hc hbc (by omega))
              (doubleRotateWithRight_spec hl hb hc hbc (by omega))
      · rw [if_pos hX]
        exact oneRebalancing_single
          (@singleRotateWithRight_spec l b c n k2 (l.height + 2) h2 hl hb hc hcb (by omega))

/-! ## The whole call -/

/-- What a call of `insert` does to a tree, whether the key is new or not. -/
structure Grown (X : ElementType) (T T' : AvlTree) : Prop where
  avl : Avl T'
  height : T'.height = T.height ∨ T'.height = T.height + 1 ∧ Heavy X T'

theorem insert_grown {X : ElementType} (fd : PCFile) (addr : Position) (np : Option Position)
    {T : AvlTree} (hT : Avl T) (hS : Sorted T) :
    ∃ T' np', insert X fd addr T np = some (T', np') ∧ Grown X T T' := by
  by_cases hX : ∃ m ∈ T.toList, m.element = X
  · exact ⟨T, np, insert_present hT hS hX, hT, Or.inl rfl⟩
  · obtain ⟨T', hins, hT'⟩ := insert_absent X fd addr np hT hS
      fun m hm he => hX ⟨m, hm, he⟩
    exact ⟨T', some addr, hins, hT'.avl, hT'.height⟩

theorem Grown.height_bounds {X : ElementType} {T T' : AvlTree} (h : Grown X T T') :
    T.height ≤ T'.height ∧ T'.height ≤ T.height + 1 := by
  have hheight := h.height
  omega

/-- The last two events of a call. -/
theorem trace_tracedReturn {before root T : AvlTree} (h : setHeight root = some T) :
    (tracedReturn before root).trace = [.moment T, .returned before T] := by
  have hassign : (assign (lift (setHeight root))).result = some T := by
    rw [result_assign, result_lift, h]
  rw [tracedReturn, trace_bind hassign, trace_assign (by rw [result_lift, h])]
  rfl

theorem return_ok {X : ElementType} {T T' : AvlTree} (hT : Avl T) (h : Grown X T T') :
    ∀ e ∈ [Event.moment T', .returned T T'], e.Ok T.height := by
  have heq := hT.heightOk.height_eq
  have heq' := h.avl.heightOk.height_eq
  have hbounds := h.height_bounds
  simp only [List.forall_mem_cons]
  exact ⟨momentOk_of_avl h.avl hbounds.1 hbounds.2, ⟨by omega, by omega⟩, by simp⟩

/-- What the trace of a call says. A call that has rotated anything delivers a tree as
high as before, so that no test above fires. -/
structure TraceOk (T T' : AvlTree) (tr : List Event) : Prop where
  events : ∀ e ∈ tr, e.Ok T.height
  once : rebalancings tr ≤ 1
  level : rebalancings tr ≠ 0 → T'.height = T.height

/-- **One node of the descent.** Either the test does not fire, or it fires and nothing
has been rotated below. -/
theorem TraceOk.node {T T' S S' : AvlTree} {sub reb : List Event} {f : AvlTree → AvlTree}
    (hsub : TraceOk S S' sub) (hf : ∀ M, MomentOk S.height M → MomentOk T.height (f M))
    (hreb : reb = [] ∧ (S'.height = S.height → T'.height = T.height) ∨
      OneRebalancing T.height reb ∧ S'.height ≠ S.height ∧ T'.height = T.height)
    (hret : ∀ e ∈ [Event.moment T', .returned T T'], e.Ok T.height) :
    TraceOk T T' (sub.map (Event.within f) ++ (reb ++ [.moment T', .returned T T'])) := by
  have hevents : ∀ e ∈ sub.map (Event.within f), e.Ok T.height := by
    intro e he
    obtain ⟨e', he', rfl⟩ := List.mem_map.mp he
    exact (hsub.events e' he').within hf
  have hcount : rebalancings (sub.map (Event.within f) ++
      (reb ++ [.moment T', .returned T T'])) = rebalancings sub + rebalancings reb := by
    rw [rebalancings_append, rebalancings_append, rebalancings_within]
    rfl
  have honce := hsub.once
  rcases hreb with ⟨rfl, hlevel⟩ | ⟨⟨hone, hok⟩, hne, hlevel⟩
  · have hnil : rebalancings [] = 0 := rfl
    refine ⟨?_, by omega, fun hsome => hlevel (hsub.level (by omega))⟩
    intro e he
    rcases List.mem_append.mp he with he | he
    · exact hevents e he
    · exact hret e he
  · have hquiet : rebalancings sub = 0 := by
      by_contra hsome
      exact hne (hsub.level hsome)
    refine ⟨?_, by omega, fun _ => hlevel⟩
    intro e he
    rcases List.mem_append.mp he with he | he
    · exact hevents e he
    · rcases List.mem_append.mp he with he | he
      · exact hok e he
      · exact hret e he

theorem trace_tracedInsert_left {X : ElementType} {fd : PCFile} {addr : Position}
    {l l' r K T' : AvlTree} {n : AvlNode} {h : Int} {np np' : Option Position}
    (hX : X < n.element) (hsub : insert X fd addr l np = some (l', np'))
    (hreb : rebalanceLeft X (.node l' n h r) = some K) (hset : setHeight K = some T') :
    (tracedInsert X fd addr (.node l n h r) np).trace =
      (tracedInsert X fd addr l np).trace.map (Event.within fun l => .node l n h r) ++
        ((tracedRebalanceLeft X (.node l' n h r)).trace ++
          [.moment T', .returned (.node l n h r) T']) := by
  have hsub' : ((tracedInsert X fd addr l np).within
      (Event.within fun l => .node l n h r)).result = some (l', np') := by
    rw [result_within, result_tracedInsert, hsub]
  have hreb' := (result_tracedRebalanceLeft X (.node l' n h r)).trans hreb
  have hret' := (result_tracedReturn (.node l n h r) K).trans hset
  rw [tracedInsert, if_pos hX, trace_bind hsub', trace_within, trace_bind hreb', trace_bind hret',
    trace_tracedReturn hset, trace_pure, List.append_nil]

theorem trace_tracedInsert_right {X : ElementType} {fd : PCFile} {addr : Position}
    {l r r' K T' : AvlTree} {n : AvlNode} {h : Int} {np np' : Option Position}
    (hX : n.element < X) (hsub : insert X fd addr r np = some (r', np'))
    (hreb : rebalanceRight X (.node l n h r') = some K) (hset : setHeight K = some T') :
    (tracedInsert X fd addr (.node l n h r) np).trace =
      (tracedInsert X fd addr r np).trace.map (Event.within fun r => .node l n h r) ++
        ((tracedRebalanceRight X (.node l n h r')).trace ++
          [.moment T', .returned (.node l n h r) T']) := by
  have hsub' : ((tracedInsert X fd addr r np).within
      (Event.within fun r => .node l n h r)).result = some (r', np') := by
    rw [result_within, result_tracedInsert, hsub]
  have hreb' := (result_tracedRebalanceRight X (.node l n h r')).trans hreb
  have hret' := (result_tracedReturn (.node l n h r) K).trans hset
  rw [tracedInsert, if_neg hX.not_gt, if_pos hX, trace_bind hsub', trace_within,
    trace_bind hreb', trace_bind hret', trace_tracedReturn hset, trace_pure, List.append_nil]

theorem trace_tracedInsert_self {X : ElementType} {fd : PCFile} {addr : Position} {l r : AvlTree}
    {n : AvlNode} {h : Int} {np : Option Position} (hX : n.element = X)
    (hset : setHeight (.node l n h r) = some (.node l n h r)) :
    (tracedInsert X fd addr (.node l n h r) np).trace =
      [.moment (.node l n h r), .returned (.node l n h r) (.node l n h r)] := by
  subst hX
  rw [tracedInsert, if_neg (lt_irrefl _), if_neg (lt_irrefl _),
    trace_bind ((result_tracedReturn _ _).trans hset), trace_tracedReturn hset, trace_pure,
    List.append_nil]

/-- **Along the whole descent.** -/
theorem tracedInsert_ok (X : ElementType) (fd : PCFile) (addr : Position) :
    ∀ {T : AvlTree} (np : Option Position), Avl T → Sorted T →
      ∃ T' np', insert X fd addr T np = some (T', np') ∧ Grown X T T' ∧
        TraceOk T T' (tracedInsert X fd addr T np).trace
  | .nil, np, hT, hS => by
      obtain ⟨T', np', hins, hgrown⟩ := insert_grown (X := X) fd addr np hT hS
      cases hins
      refine ⟨_, _, rfl, hgrown, ?_, Nat.zero_le 1, fun h => absurd rfl h⟩
      have hnew : MomentOk (-1) (.node .nil (newNode X fd addr) 0 .nil) :=
        momentOk_of_avl (avl_node.mpr ⟨avl_nil, avl_nil, by decide, by decide, by decide⟩)
          (by simp) (by simp)
      exact List.forall_mem_cons.mpr ⟨hnew, return_ok hT hgrown⟩
  | .node l n h r, np, hT, hS => by
      obtain ⟨T', np', hins, hgrown⟩ := insert_grown (X := X) fd addr np hT hS
      obtain ⟨hl, hr, hh, hd1, hd2⟩ := avl_node.mp hT
      obtain ⟨ol, or, -, -⟩ := (ordered_node _).mp hS
      refine ⟨T', np', hins, hgrown, ?_⟩
      have hret := return_ok hT hgrown
      rcases lt_trichotomy X n.element with hlt | heq | hgt
      · obtain ⟨l', npl, hinsl, hgrownl, htrace⟩ := tracedInsert_ok X fd addr np hl ol
        have hbounds := hgrownl.height_bounds
        obtain ⟨T₁, hT₁, hreb⟩ := rebalanceLeft_spec (X := X) (n := n) (h := h) hgrownl.avl hr
          (by omega) (by omega) (heavy_of_grown hgrownl.height hd1)
        rw [insert_node_left hlt, hinsl, Option.bind_some, hT₁, Option.map_some] at hins
        cases hins
        obtain ⟨K, hK, hset⟩ := Option.bind_eq_some_iff.mp hT₁
        rw [trace_tracedInsert_left hlt hinsl hK hset]
        refine htrace.node (fun M hM => hM.node_left hT) ?_ hret
        have hheight := hreb.height
        rw [height_node]
        by_cases hdiff : l'.height = r.height + 2
        · rw [if_pos hdiff] at hheight
          obtain rfl : h = r.height + 2 := by omega
          have hheavy := heavy_of_grown hgrownl.height hd1 hdiff
          exact Or.inr ⟨oneRebalancing_left hgrownl.avl hr hdiff hheavy, by omega, by omega⟩
        · rw [if_neg hdiff] at hheight
          exact Or.inl ⟨trace_tracedRebalanceLeft_of_ne (by omega), by omega⟩
      · have hset := setHeight_of_avl hT (by simp)
        rw [insert_node_self heq.symm, hset] at hins
        cases hins
        rw [trace_tracedInsert_self heq.symm hset]
        exact ⟨hret, Nat.zero_le 1, fun h => absurd rfl h⟩
      · obtain ⟨r', npr, hinsr, hgrownr, htrace⟩ := tracedInsert_ok X fd addr np hr or
        have hbounds := hgrownr.height_bounds
        obtain ⟨T₁, hT₁, hreb⟩ := rebalanceRight_spec (X := X) (n := n) (h := h) hl hgrownr.avl
          (by omega) (by omega) (heavy_of_grown hgrownr.height hd2)
        rw [insert_node_right hgt, hinsr, Option.bind_some, hT₁, Option.map_some] at hins
        cases hins
        obtain ⟨K, hK, hset⟩ := Option.bind_eq_some_iff.mp hT₁
        rw [trace_tracedInsert_right hgt hinsr hK hset]
        refine htrace.node (fun M hM => hM.node_right hT) ?_ hret
        have hheight := hreb.height
        rw [height_node]
        by_cases hdiff : r'.height = l.height + 2
        · rw [if_pos hdiff] at hheight
          obtain rfl : h = l.height + 2 := by omega
          have hheavy := heavy_of_grown hgrownr.height hd2 hdiff
          exact Or.inr ⟨oneRebalancing_right hl hgrownr.avl hdiff hheavy, by omega, by omega⟩
        · rw [if_neg hdiff] at hheight
          exact Or.inl ⟨trace_tracedRebalanceRight_of_ne (by omega), by omega⟩

/-- What is promised of a call of `insert` on `T` that leaves a trace. -/
structure CallOk (T : AvlTree) (tr : List Event) : Prop where
  /-- Each subtree grows by at most one level. -/
  grows : ∀ before after, Event.returned before after ∈ tr →
    after.trueHeight ≤ before.trueHeight + 1 ∧ after.height ≤ before.height + 1
  /-- So does the whole tree, and no node is ever worse than two levels out of balance. -/
  differs : ∀ M, Event.moment M ∈ tr →
    M.trueHeight ≤ T.trueHeight + 1 ∧ M.Within trueHeight 2 ∧ M.Within height 2
  nonNull : ∀ k inner K, Event.rotate k inner K ∈ tr → k.NonNull K
  once : rebalancings tr ≤ 1

/-- **During `insert`**, for every tree that insertions build and every key. -/
theorem insert_moments {T : AvlTree} {brk : Position} (h : Reachable T brk) (X : ElementType)
    (fd : PCFile) (addr : Position) (np : Option Position) :
    (insert X fd addr T np).isSome ∧
      (tracedInsert X fd addr T np).result = insert X fd addr T np ∧
      CallOk T (tracedInsert X fd addr T np).trace := by
  have hok := h.treeOk
  obtain ⟨T', np', hins, -, htrace⟩ := tracedInsert_ok X fd addr np hok.avl hok.sorted
  refine ⟨by rw [hins, Option.isSome_some], result_tracedInsert X fd addr T np, ?_, ?_, ?_,
    htrace.once⟩
  · intro before after he
    exact htrace.events _ he
  · intro M he
    have hM := htrace.events _ he
    have heq := hok.avl.heightOk.height_eq
    have hle := hM.trueHeight_le
    exact ⟨by omega, hM.shape, hM.stored⟩
  · intro k inner K he
    exact htrace.events _ he

/-- A double rotation: 3 and 1 are there when 2 arrives. -/
theorem insert_moments_double : ∃ T, Reachable T 2 ∧
    rebalancings (tracedInsert 2 7 2 T none).trace = 1 ∧
    (insert 2 7 2 T none).isSome ∧ (tracedInsert 2 7 2 T none).result = insert 2 7 2 T none ∧
      CallOk T (tracedInsert 2 7 2 T none).trace := by
  have h1 : Reachable _ 1 := .insert 3 (-1) .null (rfl : insert 3 (-1) 0 .nil none = _)
  have h2 : Reachable _ 2 := .insert 1 (-1) h1 (rfl : insert 1 (-1) 1 _ none = _)
  exact ⟨_, h2, by decide, insert_moments h2 2 7 2 none⟩

end AvlTree

end PTop
