import PTop.Metatheory.AvlLookup
import PTop.Metatheory.WriteStat
import PTop.Model.Reference

/-!
# The process tree refines a finite map

`entries` is the map a tree stands for. Every access of the listing loop goes
through `find`, `insert` and a pointer, and each of them is an access to the
map; so the loop over the tree does what the loop of the reference program does
over the map.
-/

namespace PTop

open Framework Framework.HTree

namespace AvlTree

/-- The map a tree stands for. -/
def entries (T : AvlTree) : ProcMap := fun X =>
  (lookup AvlNode.element X T).map AvlNode.toPidEntry

theorem entries_eq_some_iff {T : AvlTree} (h : Sorted T) {X : ElementType} {e : PidEntry} :
    entries T X = some e ↔ ∃ n ∈ T.toList, n.element = X ∧ n.toPidEntry = e := by
  rw [entries, map_lookup_eq_some_iff h]

theorem entries_of_mem {T : AvlTree} (h : Sorted T) {n : AvlNode} (hn : n ∈ T.toList) :
    entries T n.element = some n.toPidEntry := (entries_eq_some_iff h).mpr ⟨n, hn, rfl, rfl⟩

theorem entries_isSome {T : AvlTree} (h : Sorted T) {X : ElementType} :
    (entries T X).isSome ↔ X ∈ keys T := by
  rw [Option.isSome_iff_exists, mem_keys]
  constructor
  · rintro ⟨e, he⟩
    obtain ⟨n, hm, hk, -⟩ := (entries_eq_some_iff h).mp he
    exact ⟨n, hm, hk⟩
  · rintro ⟨n, hm, rfl⟩
    exact ⟨_, entries_of_mem h hm⟩

theorem entries_eq_none_iff {T : AvlTree} (h : Sorted T) {X : ElementType} :
    entries T X = none ↔ X ∉ keys T := by
  rw [← entries_isSome h, Bool.not_eq_true, Option.isSome_eq_false_iff, Option.isNone_iff_eq_none]

/-- The in-order keys of a tree enumerate its map. -/
theorem enumerates_keys {T : AvlTree} (h : Sorted T) : Enumerates (keys T) (entries T) :=
  ⟨h.nodup_keys, fun _ => (entries_isSome h).symm⟩

/-! ## Insertions and stores are updates of the map -/

theorem entries_insert {T T' : AvlTree} (h : Sorted T) (h' : Sorted T') {X : ElementType}
    {addr : Position} (hX : X ∉ keys T)
    (hmem : ∀ n, n ∈ T'.toList ↔ n = newNode X (-1) addr ∨ n ∈ T.toList) :
    entries T' = Function.update (entries T) X (some freshEntry) := by
  funext Y
  by_cases hY : Y = X
  · subst hY
    rw [Function.update_self]
    exact (entries_eq_some_iff h').mpr ⟨_, (hmem _).mpr (Or.inl rfl), rfl, rfl⟩
  · rw [Function.update_of_ne hY]
    apply Option.ext
    intro e
    rw [entries_eq_some_iff h, entries_eq_some_iff h']
    constructor
    · rintro ⟨n, hn, rfl, rfl⟩
      rcases (hmem n).mp hn with rfl | hn
      · exact absurd rfl hY
      · exact ⟨n, hn, rfl, rfl⟩
    · rintro ⟨n, hn, rfl, rfl⟩
      exact ⟨n, (hmem n).mpr (Or.inr hn), rfl, rfl⟩

theorem entries_store {T : AvlTree} {brk : Position} (h : TreeOk T brk) {n : AvlNode}
    (hn : n ∈ T.toList) (e : PidEntry) :
    entries (store n.addr e T) = Function.update (entries T) n.element (some e) := by
  have hmem : ∀ m, m ∈ (store n.addr e T).toList ↔
      ∃ m₀ ∈ T.toList, (if m₀.addr = n.addr then { m₀ with toPidEntry := e } else m₀) = m := by
    intro m
    rw [store, toList_map, List.mem_map]
  have h' := (h.store n.addr e).sorted
  funext Y
  apply Option.ext
  intro e'
  rw [entries_eq_some_iff h']
  by_cases hY : Y = n.element
  · subst hY
    rw [Function.update_self, Option.some.injEq]
    constructor
    · rintro ⟨m, hm, hk, rfl⟩
      obtain ⟨m₀, hm₀, rfl⟩ := (hmem m).mp hm
      split at hk
      · rename_i ha
        rw [if_pos ha]
      · rename_i ha
        cases h.eq_of_element_eq hm₀ hn hk
        exact absurd rfl ha
    · rintro rfl
      exact ⟨_, (hmem _).mpr ⟨n, hn, rfl⟩, by rw [if_pos rfl], by rw [if_pos rfl]⟩
  · rw [Function.update_of_ne hY, entries_eq_some_iff h.sorted]
    constructor
    · rintro ⟨m, hm, rfl, rfl⟩
      obtain ⟨m₀, hm₀, rfl⟩ := (hmem m).mp hm
      split at hY
      · rename_i ha
        exact absurd (congrArg AvlNode.element (h.eq_of_addr_eq hm₀ hn ha)) hY
      · rename_i ha
        rw [if_neg ha]
        exact ⟨m₀, hm₀, rfl, rfl⟩
    · rintro ⟨m, hm, rfl, rfl⟩
      have ha : m.addr ≠ n.addr := by
        intro ha
        exact hY (congrArg AvlNode.element (h.eq_of_addr_eq hm hn ha))
      exact ⟨m, (hmem m).mpr ⟨m, hm, if_neg ha⟩, rfl, rfl⟩

/-- The node update of `write_stat` is an update of every entry. -/
theorem entries_written {T : AvlTree} (h : Sorted T) (a : WriteArgs) (X : ElementType) :
    entries (T.map (writtenNode a)) X = (entries T X).map (writtenEntry a) := by
  have h' : Sorted (T.map (writtenNode a)) :=
    Ordered.map (f := writtenNode a) (fun _ => rfl) h
  apply Option.ext
  intro e
  rw [entries_eq_some_iff h', Option.map_eq_some_iff]
  simp only [toList_map, List.mem_map, entries_eq_some_iff h]
  constructor
  · rintro ⟨_, ⟨n, hn, rfl⟩, rfl, rfl⟩
    exact ⟨n.toPidEntry, ⟨n, hn, rfl, rfl⟩, rfl⟩
  · rintro ⟨_, ⟨n, hn, rfl, rfl⟩, rfl⟩
    exact ⟨writtenNode a n, ⟨n, hn, rfl⟩, rfl, rfl⟩

theorem TreeOk.written {T : AvlTree} {brk : Position} (h : TreeOk T brk) (a : WriteArgs) :
    TreeOk (T.map (writtenNode a)) brk := by
  refine ⟨h.avl.map _, Ordered.map (fun _ => rfl) h.sorted, ?_, ?_⟩
  · rw [toList_map, List.map_map]
    exact h.addr_nodup
  · intro n hn
    rw [toList_map, List.mem_map] at hn
    obtain ⟨m, hm, rfl⟩ := hn
    exact h.addr_lt m hm

end AvlTree

open AvlTree

/-! ## The listing loop -/

/-- `locate` finds the node of a pid, or makes one with a fresh entry. -/
theorem locate_spec (pid : Pid) {st : TreeState} (h : TreeOk st.tree st.brk) :
    ∃ st' n, locate pid st = .ok (st', some n.addr) ∧ TreeOk st'.tree st'.brk ∧
      n ∈ st'.tree.toList ∧ n.element = pid.toElement ∧
      n.toPidEntry = (entries st.tree pid.toElement).getD freshEntry ∧
      (∀ e, Function.update (entries st'.tree) pid.toElement (some e) =
        Function.update (entries st.tree) pid.toElement (some e)) ∧ st'.fdLog = st.fdLog := by
  by_cases hX : pid.toElement ∈ keys st.tree
  · obtain ⟨n, hn, hk⟩ := mem_keys.mp hX
    have hfind : find pid.toElement st.tree = some n.addr :=
      (find_eq_some_iff h.sorted).mpr ⟨n, hn, hk, rfl⟩
    refine ⟨st, n, ?_, h, hn, hk, ?_, fun _ => rfl, rfl⟩
    · rw [locate, hfind]
    · rw [← hk, entries_of_mem h.sorted hn, Option.getD_some]
  · -- a pid without a node gets one, with no counter open
    have hfind : find pid.toElement st.tree = none := (find_eq_none_iff h.sorted).mpr hX
    obtain ⟨T', np', hins, hok, -, habs⟩ := insert_step h pid.toElement (-1) none
    obtain ⟨rfl, hmem⟩ := habs hX
    have hentries := entries_insert h.sorted hok.sorted hX hmem
    refine ⟨{ st with tree := T', brk := st.brk + 1 }, newNode pid.toElement (-1) st.brk, ?_, hok,
      (hmem _).mpr (Or.inl rfl), rfl, ?_, ?_, rfl⟩
    · rw [locate, hfind, hins]
      rfl
    · rw [(entries_eq_none_iff h.sorted).mpr hX]
      rfl
    · intro e
      rw [hentries, Function.update_idem]

/-- **One listed pid**: its entry is read and put back. -/
theorem readProcess_spec (conf : Conf) (files : Pid → ProcFiles) (curr : Bool) (pid : Pid)
    {st : TreeState} (h : TreeOk st.tree st.brk) :
    match readEntry conf pid.val (files pid)
        ((entries st.tree pid.toElement).getD freshEntry) curr with
    | .error e => readProcess conf files curr pid st = .error e
    | .ok (e, ev) => ∃ st', readProcess conf files curr pid st = .ok st' ∧
        TreeOk st'.tree st'.brk ∧
        entries st'.tree = Function.update (entries st.tree) pid.toElement (some e) ∧
        st'.fdLog = st.fdLog ++ ev := by
  obtain ⟨st₁, n, hloc, hok, hn, hk, he, hupd, hlog⟩ := locate_spec pid h
  have hload : load n.addr st₁.tree = some n := (load_eq_some_iff hok).mpr ⟨hn, rfl⟩
  rw [← he]
  cases hread : readEntry conf pid.val (files pid) n.toPidEntry curr with
  | error e =>
      simp only [readProcess, hloc, bind, Except.bind, hload, hread]
  | ok d =>
      obtain ⟨e, ev⟩ := d
      -- the pointer still leads to the node of the pid when the sample is stored
      refine ⟨{ st₁ with tree := store n.addr e st₁.tree, fdLog := st₁.fdLog ++ ev }, ?_,
        hok.store n.addr e, ?_, ?_⟩
      · simp only [readProcess, hloc, bind, Except.bind, hload, hread]
        rfl
      · rw [← hupd, ← hk]
        exact entries_store hok hn e
      · rw [hlog]

/-- One listed pid is one update of the map. -/
theorem readProcess_refines (conf : Conf) (files : Pid → ProcFiles) (curr : Bool) (pid : Pid)
    {st : TreeState} (h : TreeOk st.tree st.brk) :
    match Reference.readProcess conf files curr pid (entries st.tree) with
    | .error e => readProcess conf files curr pid st = .error e
    | .ok m => ∃ st', readProcess conf files curr pid st = .ok st' ∧
        TreeOk st'.tree st'.brk ∧ entries st'.tree = m := by
  have hspec := readProcess_spec conf files curr pid h
  rw [Reference.readProcess]
  cases hread : readEntry conf pid.val (files pid)
      ((entries st.tree pid.toElement).getD freshEntry) curr with
  | error e =>
      rw [hread] at hspec
      exact hspec
  | ok d =>
      rw [hread] at hspec
      obtain ⟨st', hst', hok, hentries, -⟩ := hspec
      exact ⟨st', hst', hok, hentries⟩

/-- **The listing loop refines its reference.** -/
theorem readListing_refines (conf : Conf) (files : Pid → ProcFiles) (curr : Bool) :
    ∀ (pids : List Pid) {st : TreeState}, TreeOk st.tree st.brk →
      match Reference.readListing conf files curr pids (entries st.tree) with
      | .error e => readListing conf files curr pids st = .error e
      | .ok m => ∃ st', readListing conf files curr pids st = .ok st' ∧
          TreeOk st'.tree st'.brk ∧ entries st'.tree = m
  | [], st, h => ⟨st, rfl, h, rfl⟩
  | pid :: pids, st, h => by
      have hstep := readProcess_refines conf files curr pid h
      rw [Reference.readListing, readListing]
      cases hp : Reference.readProcess conf files curr pid (entries st.tree) with
      | error e =>
          rw [hp] at hstep
          simp only [hstep, bind, Except.bind]
      | ok m =>
          rw [hp] at hstep
          obtain ⟨st₁, hread, hok, rfl⟩ := hstep
          simp only [hread, bind, Except.bind]
          exact readListing_refines conf files curr pids hok

end PTop
