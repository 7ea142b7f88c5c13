import PTop.Metatheory.AvlLookup

/-!
# Recursion depth over the process tree

`find`, `insert`, `write_stat` and `empty` recurse along the links of the tree.
How deep they nest is read off the tree, call by call as the source makes them,
and bounded by the stored height of the root; the AVL shape makes that
logarithmic in the number of pids ever inserted.
-/

namespace PTop

open Framework Framework.HTree

namespace AvlTree

/-! ## The calls that are on the stack together -/

/-- `find`, the call that reaches `NULL` included. -/
def findDepth (X : ElementType) : AvlTree → ℕ
  | .nil => 1
  | .node l n _ r =>
      if X < n.element then 1 + findDepth X l
      else if X > n.element then 1 + findDepth X r
      else 1

/-- `insert`, the call that fills an empty link included. -/
def insertDepth (X : ElementType) : AvlTree → ℕ
  | .nil => 1
  | .node l n _ r =>
      if X < n.element then 1 + insertDepth X l
      else if X > n.element then 1 + insertDepth X r
      else 1

/-- `write_stat`, which tests a link before it follows it. -/
def writeStatDepth : AvlTree → ℕ
  | .nil => 1
  | .node l _ _ r =>
      1 + max (if l.isNil then 0 else writeStatDepth l) (if r.isNil then 0 else writeStatDepth r)

/-- `empty`, which is called on `NULL` links too. -/
def emptyDepth : AvlTree → ℕ
  | .nil => 1
  | .node l _ _ r => 1 + max (emptyDepth l) (emptyDepth r)

/-! ## Bounds by the stored height -/

/-- The deepest nesting is that of `empty`. -/
theorem emptyDepth_le : ∀ {T : AvlTree}, Avl T → (emptyDepth T : Int) ≤ T.height + 2
  | .nil, _ => by simp [emptyDepth]
  | .node l n h r, hT => by
      obtain ⟨hl, hr, hh, -, -⟩ := avl_node.mp hT
      have ihl := emptyDepth_le hl
      have ihr := emptyDepth_le hr
      simp only [emptyDepth, height_node]
      omega

theorem findDepth_le (X : ElementType) : ∀ T : AvlTree, findDepth X T ≤ emptyDepth T
  | .nil => le_refl _
  | .node l n h r => by
      have ihl := findDepth_le X l
      have ihr := findDepth_le X r
      rw [findDepth, emptyDepth]
      split
      · omega
      · split <;> omega

/-- `insert` takes the path of `find`. -/
theorem insertDepth_eq (X : ElementType) : ∀ T : AvlTree, insertDepth X T = findDepth X T
  | .nil => rfl
  | .node l n h r => by
      rw [insertDepth, findDepth, insertDepth_eq X l, insertDepth_eq X r]

theorem writeStatDepth_le : ∀ T : AvlTree, writeStatDepth T ≤ emptyDepth T
  | .nil => le_refl _
  | .node l n h r => by
      have ihl := writeStatDepth_le l
      have ihr := writeStatDepth_le r
      rw [writeStatDepth, emptyDepth]
      split <;> split <;> omega

/-- No call of the four nests deeper than `d`. -/
structure DepthWithin (d : ℕ) (T : AvlTree) : Prop where
  find : ∀ X, findDepth X T ≤ d
  insert : ∀ X, insertDepth X T ≤ d
  writeStat : writeStatDepth T ≤ d
  empty : emptyDepth T ≤ d

theorem depthWithin_of_empty {d : ℕ} {T : AvlTree} (h : emptyDepth T ≤ d) : DepthWithin d T where
  find X := (findDepth_le X T).trans h
  insert X := by
    rw [insertDepth_eq]
    exact (findDepth_le X T).trans h
  writeStat := (writeStatDepth_le T).trans h
  empty := h

theorem depthWithin_log {T : AvlTree} (hT : Avl T) :
    DepthWithin (2 * Nat.log 2 (T.toList.length + 1) + 1) T := by
  apply depthWithin_of_empty
  have hdepth := emptyDepth_le hT
  have hlog := hT.height_le_log
  omega

/-! ## Trees built by insertions -/

theorem length_toList_eq {T : AvlTree} (h : Sorted T) :
    T.toList.length = (keys T).toFinset.card := by
  rw [keys, List.toFinset_card_of_nodup h.nodup_keys, List.length_map]

/-- **Size against height, and the depth of the recursions.** A tree built by
inserting pids from `NULL` has one node for each pid ever inserted, at least
`fib (H + 3) - 1` of them if it is not `NULL`, and no recursion over it nests
deeper than twice the logarithm of their number. -/
theorem insertSeq_size (xs : List (ElementType × PCFile)) :
    ∃ T brk, insertSeq .nil 0 xs = some (T, brk) ∧
      T.toList.length = (xs.map Prod.fst).toFinset.card ∧
      (T ≠ .nil → Nat.fib (T.height + 3).toNat - 1 ≤ T.toList.length) ∧
      DepthWithin (2 * Nat.log 2 ((xs.map Prod.fst).toFinset.card + 1) + 1) T := by
  obtain ⟨T, brk, hseq, hok, hkeys⟩ := insertSeq_ok xs (treeOk_nil 0)
  have hset : (keys T).toFinset = (xs.map Prod.fst).toFinset := by
    ext k
    rw [List.mem_toFinset, List.mem_toFinset, hkeys k]
    simp [keys]
  have hlen : T.toList.length = (xs.map Prod.fst).toFinset.card := by
    rw [length_toList_eq hok.sorted, hset]
  refine ⟨T, brk, hseq, hlen, ?_, ?_⟩
  · intro _
    exact Nat.sub_le_of_le_add hok.avl.fib_le
  · rw [← hlen]
    exact depthWithin_log hok.avl

/-- The bound is met: four insertions build a tree of height 2. -/
example : ∃ T brk, insertSeq .nil 0 [(2, 0), (1, 0), (3, 0), (4, 0)] = some (T, brk) ∧
    Nat.fib (T.height + 3).toNat - 1 = T.toList.length := ⟨_, _, rfl, by decide⟩

end AvlTree

end PTop
