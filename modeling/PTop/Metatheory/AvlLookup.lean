import PTop.Metatheory.AvlInsert

/-!
# Lookup, node identity and payload across `insert`

`TreeOk` is the invariant the rest of the program sees: the AVL shape, search
order, and nodes at pairwise distinct addresses below the allocation mark. One
step lemma (`insert_step`) says everything an insertion does to the set of
nodes; reachability and lookup follow from it.
-/

namespace PTop

open Framework Framework.HTree

namespace AvlTree

/-- The invariant of the process tree; `brk` bounds the addresses in use. -/
structure TreeOk (T : AvlTree) (brk : Position) : Prop where
  avl : Avl T
  sorted : Sorted T
  addr_nodup : (T.toList.map AvlNode.addr).Nodup
  addr_lt : ∀ n ∈ T.toList, n.addr < brk

theorem treeOk_nil (brk : Position) : TreeOk .nil brk :=
  ⟨avl_nil, ordered_nil _, List.nodup_nil, by simp⟩

theorem TreeOk.eq_of_element_eq {T : AvlTree} {brk : Position} (h : TreeOk T brk)
    {m n : AvlNode} (hm : m ∈ T.toList) (hn : n ∈ T.toList) (he : m.element = n.element) :
    m = n := h.sorted.eq_of_key_eq hm hn he

theorem TreeOk.eq_of_addr_eq {T : AvlTree} {brk : Position} (h : TreeOk T brk)
    {m n : AvlNode} (hm : m ∈ T.toList) (hn : n ∈ T.toList) (he : m.addr = n.addr) : m = n :=
  List.inj_on_of_nodup_map h.addr_nodup hm hn he

theorem mem_keys {T : AvlTree} {X : ElementType} :
    X ∈ keys T ↔ ∃ n ∈ T.toList, n.element = X := by simp [keys]

/-- One more node is one more key. -/
theorem mem_keys_insert {T T' : AvlTree} {a : AvlNode}
    (hmem : ∀ n, n ∈ T'.toList ↔ n = a ∨ n ∈ T.toList) {X : ElementType} :
    X ∈ keys T' ↔ X = a.element ∨ X ∈ keys T := by
  rw [mem_keys, mem_keys]
  constructor
  · rintro ⟨n, hn, rfl⟩
    rcases (hmem n).mp hn with rfl | hn
    · exact Or.inl rfl
    · exact Or.inr ⟨n, hn, rfl⟩
  · rintro (rfl | ⟨n, hn, rfl⟩)
    · exact ⟨a, (hmem a).mpr (Or.inl rfl), rfl⟩
    · exact ⟨n, (hmem n).mpr (Or.inr hn), rfl⟩

/-! ## Reading the tree -/

theorem find_eq_lookup (X : ElementType) : ∀ T : AvlTree,
    find X T = (lookup AvlNode.element X T).map AvlNode.addr
  | .nil => rfl
  | .node l n _ r => by
      rw [find, lookup]
      split
      · exact find_eq_lookup X l
      · split
        · exact find_eq_lookup X r
        · rfl

theorem find_eq_some_iff {T : AvlTree} (h : Sorted T) {X : ElementType} {p : Position} :
    find X T = some p ↔ ∃ n ∈ T.toList, n.element = X ∧ n.addr = p := by
  rw [find_eq_lookup, map_lookup_eq_some_iff h]

theorem find_isSome_iff {T : AvlTree} (h : Sorted T) {X : ElementType} :
    (find X T).isSome ↔ X ∈ keys T := by
  rw [Option.isSome_iff_exists, mem_keys]
  constructor
  · rintro ⟨p, hp⟩
    obtain ⟨n, hm, hk, -⟩ := (find_eq_some_iff h).mp hp
    exact ⟨n, hm, hk⟩
  · rintro ⟨n, hm, hk⟩
    exact ⟨n.addr, (find_eq_some_iff h).mpr ⟨n, hm, hk, rfl⟩⟩

theorem find_eq_none_iff {T : AvlTree} (h : Sorted T) {X : ElementType} :
    find X T = none ↔ X ∉ keys T := by
  rw [← find_isSome_iff h, Bool.not_eq_true, Option.isSome_eq_false_iff, Option.isNone_iff_eq_none]

theorem load_eq_some_iff {T : AvlTree} {brk : Position} (h : TreeOk T brk) {p : Position}
    {n : AvlNode} : load p T = some n ↔ n ∈ T.toList ∧ n.addr = p := by
  constructor
  · intro hl
    exact ⟨List.mem_of_find?_eq_some hl, by simpa using List.find?_some hl⟩
  · rintro ⟨hm, rfl⟩
    cases hl : load n.addr T with
    | none => exact absurd (List.find?_eq_none.mp hl n hm) (by simp)
    | some m =>
        have hm' := List.mem_of_find?_eq_some hl
        have ha : m.addr = n.addr := by simpa using List.find?_some hl
        rw [h.eq_of_addr_eq hm' hm ha]

/-! ## One insertion -/

/-- **What `insert` does to the set of nodes.** A key already there: nothing. A
new key: one more node, at the new address, and `*np` points to it. -/
theorem insert_step {T : AvlTree} {brk : Position} (h : TreeOk T brk) (X : ElementType)
    (fd : PCFile) (np : Option Position) :
    ∃ T' np', insert X fd brk T np = some (T', np') ∧ TreeOk T' (brk + 1) ∧
      (X ∈ keys T → T' = T ∧ np' = np) ∧
      (X ∉ keys T → np' = some brk ∧
        ∀ n, n ∈ T'.toList ↔ n = newNode X fd brk ∨ n ∈ T.toList) := by
  by_cases hX : X ∈ keys T
  · refine ⟨T, np, insert_present h.avl h.sorted (mem_keys.mp hX), ?_, ?_, ?_⟩
    · exact ⟨h.avl, h.sorted, h.addr_nodup, fun n hn => Nat.lt_succ_of_lt (h.addr_lt n hn)⟩
    · intro _
      exact ⟨rfl, rfl⟩
    · intro hn
      exact absurd hX hn
  · have hne : ∀ m ∈ T.toList, m.element ≠ X := by
      intro m hm he
      exact hX (mem_keys.mpr ⟨m, hm, he⟩)
    obtain ⟨T', hins, hT'⟩ := insert_absent X fd brk np h.avl h.sorted hne
    have hmem : ∀ n, n ∈ T'.toList ↔ n = newNode X fd brk ∨ n ∈ T.toList := by
      intro n
      rw [hT'.toList, mem_listInsert]
    refine ⟨T', some brk, hins, ⟨hT'.avl, ?_, ?_, ?_⟩, ?_, ?_⟩
    · exact ordered_of_toList_eq (a := newNode X fd brk) h.sorted hne hT'.toList
    · have hperm := (List.perm_orderedInsert (fun a b : AvlNode => a.element ≤ b.element)
        (newNode X fd brk) T.toList).map AvlNode.addr
      rw [hT'.toList]
      refine hperm.nodup_iff.mpr (List.nodup_cons.mpr ⟨?_, h.addr_nodup⟩)
      rw [List.mem_map]
      -- the new node is at the allocation mark, above every address in use
      rintro ⟨m, hm, ha⟩
      exact absurd ha (h.addr_lt m hm).ne
    · intro n hn
      rcases (hmem n).mp hn with rfl | hn
      · exact Nat.lt_succ_self brk
      · exact Nat.lt_succ_of_lt (h.addr_lt n hn)
    · intro hk
      exact absurd hk hX
    · intro _
      exact ⟨rfl, hmem⟩

/-- Writing through a pointer keeps the tree. -/
theorem TreeOk.store {T : AvlTree} {brk : Position} (h : TreeOk T brk) (p : Position)
    (e : PidEntry) : TreeOk (store p e T) brk := by
  have helem : ∀ n : AvlNode,
      (if n.addr = p then { n with toPidEntry := e } else n).element = n.element := by
    intro n
    split <;> rfl
  have haddr : ∀ n : AvlNode,
      (if n.addr = p then { n with toPidEntry := e } else n).addr = n.addr := by
    intro n
    split <;> rfl
  refine ⟨h.avl.map _, Ordered.map helem h.sorted, ?_, ?_⟩
  · rw [AvlTree.store, toList_map, List.map_map]
    simpa only [Function.comp_def, haddr] using h.addr_nodup
  · intro n hn
    rw [AvlTree.store, toList_map, List.mem_map] at hn
    obtain ⟨m, hm, rfl⟩ := hn
    rw [haddr]
    exact h.addr_lt m hm

/-- The trees the program can build: insertions from `NULL`, and writes to the
sampling part of nodes in between. `brk` counts the calls to `insert`. -/
inductive Reachable : AvlTree → Position → Prop where
  | null : Reachable .nil 0
  | insert {T T' brk np np'} (X : ElementType) (fd : PCFile) (h : Reachable T brk)
      (hins : insert X fd brk T np = some (T', np')) : Reachable T' (brk + 1)
  | store {T brk} (p : Position) (e : PidEntry) (h : Reachable T brk) :
      Reachable (store p e T) brk

theorem Reachable.treeOk {T : AvlTree} {brk : Position} (h : Reachable T brk) : TreeOk T brk := by
  induction h with
  | null => exact treeOk_nil 0
  | insert X fd h hins ih =>
      obtain ⟨T', np', hins', hok, -⟩ := insert_step ih X fd _
      rw [hins] at hins'
      cases hins'
      exact hok
  | store p e h ih => exact ih.store p e

/-! ## Sequences of insertions -/

/-- Insert a sequence of pids, each with a descriptor, at consecutive addresses. -/
def insertSeq : AvlTree → Position → List (ElementType × PCFile) → Option (AvlTree × Position)
  | T, brk, [] => some (T, brk)
  | T, brk, (X, fd) :: rest => do
      let (T, _) ← insert X fd brk T none
      insertSeq T (brk + 1) rest

theorem insertSeq_ok : ∀ (xs : List (ElementType × PCFile)) {T : AvlTree} {brk : Position},
    TreeOk T brk → ∃ T' brk', insertSeq T brk xs = some (T', brk') ∧ TreeOk T' brk' ∧
      ∀ k, k ∈ keys T' ↔ k ∈ keys T ∨ k ∈ xs.map Prod.fst
  | [], T, brk, h => ⟨T, brk, rfl, h, by simp⟩
  | (X, fd) :: xs, T, brk, h => by
      obtain ⟨T₁, np₁, hins, hok, hpres, habs⟩ := insert_step h X fd none
      obtain ⟨T', brk', hseq, hok', hkeys⟩ := insertSeq_ok xs hok
      refine ⟨T', brk', ?_, hok', ?_⟩
      · rw [insertSeq, hins]
        exact hseq
      · intro k
        have hstep : k ∈ keys T₁ ↔ k = X ∨ k ∈ keys T := by
          by_cases hX : X ∈ keys T
          · rw [(hpres hX).1]
            constructor
            · exact Or.inr
            · rintro (rfl | hk)
              · exact hX
              · exact hk
          · exact mem_keys_insert (habs hX).2
        rw [hkeys, hstep, List.map_cons, List.mem_cons, or_assoc, or_left_comm]

/-- **Every insertion sequence builds an AVL search tree of its keys.** -/
theorem insertSeq_avl (xs : List (ElementType × PCFile)) :
    ∃ T brk, insertSeq .nil 0 xs = some (T, brk) ∧
      T.toList.Pairwise (fun m n => m.element < n.element) ∧
      keys T = (xs.map Prod.fst).toFinset.sort (· ≤ ·) ∧
      T.HeightOk ∧ T.Balanced := by
  obtain ⟨T, brk, hseq, hok, hkeys⟩ := insertSeq_ok xs (treeOk_nil 0)
  refine ⟨T, brk, hseq, hok.sorted, ?_, hok.avl.heightOk, hok.avl.balanced⟩
  have hnodup : (keys T).Nodup := hok.sorted.nodup_keys
  have hsorted : (keys T).Pairwise (· ≤ ·) := List.pairwise_map.mpr (hok.sorted.imp fun h => h.le)
  -- a strictly sorted list is determined by the set of its elements
  have hset : (xs.map Prod.fst).toFinset = (keys T).toFinset := by
    ext k
    rw [List.mem_toFinset, List.mem_toFinset, hkeys k]
    simp [keys]
  rw [hset]
  exact ((List.toFinset_sort (· ≤ ·) hnodup).mpr hsorted).symm

/-- **Lookup, identity and payload across `insert`.** -/
theorem insert_frame {T : AvlTree} {brk : Position} (h : Reachable T brk) (X : ElementType)
    (fd : PCFile) (np : Option Position) :
    ∃ T' np', insert X fd brk T np = some (T', np') ∧
      (∀ Y, (find Y T').isSome ↔ Y = X ∨ (find Y T).isSome) ∧
      (∀ Y p, find Y T = some p → find Y T' = some p ∧ load p T' = load p T) ∧
      (find X T = none → ∃ p n, np' = some p ∧ find X T' = some p ∧ load p T' = some n ∧
        n.element = X ∧ n.fd = fd ∧ n.pstList = fun _ => {}) ∧
      (find X T ≠ none → T' = T ∧ np' = np) := by
  have hok := h.treeOk
  obtain ⟨T', np', hins, hok', hpres, habs⟩ := insert_step hok X fd np
  refine ⟨T', np', hins, ?_⟩
  by_cases hX : X ∈ keys T
  · obtain ⟨rfl, rfl⟩ := hpres hX
    refine ⟨?_, ?_, ?_, ?_⟩
    · intro Y
      constructor
      · exact Or.inr
      · rintro (rfl | hY)
        · exact (find_isSome_iff hok.sorted).mpr hX
        · exact hY
    · intro Y p hp
      exact ⟨hp, rfl⟩
    · intro hn
      exact absurd hX ((find_eq_none_iff hok.sorted).mp hn)
    · intro _
      exact ⟨rfl, rfl⟩
  · obtain ⟨rfl, hmem⟩ := habs hX
    have hnew : newNode X fd brk ∈ T'.toList := (hmem _).mpr (Or.inl rfl)
    refine ⟨?_, ?_, ?_, ?_⟩
    · intro Y
      rw [find_isSome_iff hok'.sorted, find_isSome_iff hok.sorted]
      exact mem_keys_insert hmem
    · -- a node keeps its address and its payload wherever a rotation moves it
      intro Y p hp
      obtain ⟨n, hn, hk, ha⟩ := (find_eq_some_iff hok.sorted).mp hp
      have hn' := (hmem n).mpr (Or.inr hn)
      refine ⟨(find_eq_some_iff hok'.sorted).mpr ⟨n, hn', hk, ha⟩, ?_⟩
      rw [(load_eq_some_iff hok').mpr ⟨hn', ha⟩, (load_eq_some_iff hok).mpr ⟨hn, ha⟩]
    · intro _
      exact ⟨brk, newNode X fd brk, rfl,
        (find_eq_some_iff hok'.sorted).mpr ⟨_, hnew, rfl, rfl⟩,
        (load_eq_some_iff hok').mpr ⟨hnew, rfl⟩, rfl, rfl, rfl⟩
    · intro hne
      exact absurd ((find_eq_none_iff hok.sorted).mpr hX) hne

/-- A rotating insertion below the root: 3 and 1 are there when 2 arrives. -/
theorem insert_frame_rotating :
    ∃ T, Reachable T 2 ∧ find 2 T = none ∧ find 1 T = some 1 ∧
      ∃ T' np', insert 2 7 2 T none = some (T', np') ∧
        find 1 T' = some 1 ∧ load 1 T' = load 1 T := by
  have h1 : Reachable _ 1 := .insert 3 (-1) .null (rfl : insert 3 (-1) 0 .nil none = _)
  have h2 : Reachable _ 2 := .insert 1 (-1) h1 (rfl : insert 1 (-1) 1 _ none = _)
  obtain ⟨T', np', hins, -, hkeep, -⟩ := insert_frame h2 2 7 none
  have hfind := hkeep 1 1 (by decide)
  exact ⟨_, h2, by decide, by decide, T', np', hins, hfind.1, hfind.2⟩

end AvlTree

end PTop
