import PTop.Model.Ptop

/-!
# What `write_stat` computes

`write_stat` recurses over the tree and threads its accumulators, but what it
does to a node depends on that node alone. So a call is a map over the nodes
together with a left fold over them in pre-order, and each accumulator is a sum
or a concatenation of per-node contributions.
-/

namespace PTop

open Framework Framework.HTree

/-! ## The activity test -/

/-- The fifteen counters `is_active` compares are the same in both samples. -/
def SameActivity (pstj psti : PidStats) : Prop :=
  (psti.utime = pstj.utime ∧ psti.stime = pstj.stime) ∧
  (psti.cutime = pstj.cutime ∧ psti.cstime = pstj.cstime) ∧
  (psti.minflt = pstj.minflt ∧ psti.majflt = pstj.majflt) ∧
  (psti.vsz = pstj.vsz ∧ psti.rss = pstj.rss) ∧
  (psti.cminflt = pstj.cminflt ∧ psti.cmajflt = pstj.cmajflt) ∧
  (psti.readBytes = pstj.readBytes ∧ psti.writeBytes = pstj.writeBytes ∧
    psti.cancelledWriteBytes = pstj.cancelledWriteBytes) ∧
  (psti.nvcsw = pstj.nvcsw ∧ psti.nivcsw = pstj.nivcsw)

instance (pstj psti : PidStats) : Decidable (SameActivity pstj psti) :=
  inferInstanceAs (Decidable (_ ∧ _))

theorem isActive_eq (pstj psti : PidStats) :
    isActive pstj psti =
      if psti.pid = 0 then 0 else if SameActivity pstj psti then -1 else 1 := by
  have hpid : psti.pid ≤ 0 ↔ psti.pid = 0 := by
    rw [BitVec.le_def, ← BitVec.toNat_inj]
    simp
  by_cases h0 : psti.pid = 0
  · rw [if_pos h0, isActive, if_pos (hpid.mpr h0)]
  · rw [if_neg h0, isActive, if_neg (mt hpid.mp h0)]
    by_cases hs : SameActivity pstj psti
    · rw [if_pos hs]
      obtain ⟨⟨h₁, h₂⟩, ⟨h₃, h₄⟩, ⟨h₅, h₆⟩, ⟨h₇, h₈⟩, ⟨h₉, h₁₀⟩, ⟨h₁₁, h₁₂, h₁₃⟩, h₁₄, h₁₅⟩ := hs
      simp only [h₁, h₂, h₃, h₄, h₅, h₆, h₇, h₈, h₉, h₁₀, h₁₁, h₁₂, h₁₃, h₁₄, h₁₅, ne_eq,
        not_true_eq_false, or_self, if_false]
    · rw [if_neg hs]
      split_ifs with h₁ h₂ h₃ h₄ h₅ h₆ h₇
      iterate 7 rfl
      -- no counter differs in the last branch
      simp only [ne_eq, not_or, not_not] at h₁ h₂ h₃ h₄ h₅ h₆ h₇
      exact absurd ⟨h₁, h₂, h₃, h₄, h₅, h₆, h₇⟩ hs

theorem isActive_nonpos_iff {pstj psti : PidStats} :
    isActive pstj psti ≤ 0 ↔ psti.pid = 0 ∨ SameActivity pstj psti := by
  rw [isActive_eq]
  by_cases hgone : psti.pid = 0
  · rw [if_pos hgone]
    exact ⟨fun _ => Or.inl hgone, fun _ => le_rfl⟩
  · rw [if_neg hgone]
    by_cases hsame : SameActivity pstj psti
    · rw [if_pos hsame]
      exact ⟨fun _ => Or.inr hsame, fun _ => by decide⟩
    · rw [if_neg hsame]
      exact ⟨fun h => absurd h (by decide), fun h => absurd h (not_or.mpr ⟨hgone, hsame⟩)⟩

/-! ## One node -/

section Node

variable (conf : Conf) (a : WriteArgs)

/-- The samples `write_stat` finds at a node. -/
def PidEntry.curr (p : PidEntry) : PidStats := p.pstList a.curr
def PidEntry.prev (p : PidEntry) : PidStats := p.pstList (!a.curr)

/-- The node is reported in this cycle. -/
def Active (p : PidEntry) : Prop := 0 < isActive (p.prev a) (p.curr a)

instance (p : PidEntry) : Decidable (Active a p) := inferInstanceAs (Decidable (_ < _))

/-- The row of a node, if it is reported. -/
def rowOf (p : PidEntry) : Option ProcessInfo :=
  if Active a p then
    some (processRow conf a.time a.itv (p.prev a) (clampSample (p.prev a) (p.curr a)))
  else none

/-- What a node adds to `totaldiskread`. -/
def readShare (p : PidEntry) : u64 :=
  if Active a p then
    (subcount ((p.curr a).readBytes.setWidth 32) ((p.prev a).readBytes.setWidth 32)).setWidth 64
  else 0

/-- What a node adds to `totaldiskwrite`. -/
def writeShare (p : PidEntry) : u64 :=
  if Active a p then
    (subcount ((p.curr a).writeBytes.setWidth 32) ((p.prev a).writeBytes.setWidth 32) -
      subcount ((p.curr a).cancelledWriteBytes.setWidth 32)
        ((p.prev a).cancelledWriteBytes.setWidth 32)).setWidth 64
  else 0

/-- What `write_stat` leaves at a node. -/
def writtenEntry (p : PidEntry) : PidEntry :=
  if Active a p then p.setSlot a.curr (clampSample (p.prev a) (p.curr a)) else { p with fd := -1 }

/-- The rows of a list that reach the display list. -/
def offered (screen : Bool) (rows : List ProcessInfo) : List ProcessInfo :=
  rows.filter fun r => screen && r.displayable

/-- Offer one row to the display list. -/
def offer (d : (ℕ → ProcessInfo) × ℕ) (r : ProcessInfo) : (ℕ → ProcessInfo) × ℕ :=
  (addHigherProcessInfo r (if d.2 ≥ SHOW_NUM then SHOW_NUM else d.2) d.1, d.2 + 1)

theorem foldl_offer_snd : ∀ (rows : List ProcessInfo) (d : (ℕ → ProcessInfo) × ℕ),
    (rows.foldl offer d).2 = d.2 + rows.length
  | [], _ => rfl
  | r :: rows, d => by
      rw [List.foldl_cons, foldl_offer_snd rows, List.length_cons]
      show d.2 + 1 + rows.length = _
      omega

variable {a} in
theorem active_iff {p : PidEntry} :
    Active a p ↔ (p.curr a).pid ≠ 0 ∧ ¬ SameActivity (p.prev a) (p.curr a) := by
  rw [Active, ← not_le, isActive_nonpos_iff, not_or]

/-- The accumulators after one node, contribution by contribution. -/
structure NodeWritten (p : PidEntry) (w w' : WriteAcc) : Prop where
  rows : w'.rows = w.rows ++ (rowOf conf a p).toList
  totaldiskread : w'.totaldiskread = w.totaldiskread + readShare a p
  totaldiskwrite : w'.totaldiskwrite = w.totaldiskwrite + writeShare a p
  display : (w'.pstList, w'.idx) =
    (offered a.screen (rowOf conf a p).toList).foldl offer (w.pstList, w.idx)

theorem writePosition_fst (p : PidEntry) (w : WriteAcc) :
    (writePosition conf a p w).1 = writtenEntry a p := by
  unfold writePosition writtenEntry
  by_cases h : Active a p
  · rw [if_pos h]
    exact congrArg Prod.fst (if_neg (not_le.mpr h))
  · rw [if_neg h]
    exact congrArg Prod.fst (if_pos (not_lt.mp h))

theorem writePosition_snd (p : PidEntry) (w : WriteAcc) :
    NodeWritten conf a p w (writePosition conf a p w).2 := by
  by_cases h : Active a p
  · have hact : ¬ isActive (p.pstList (!a.curr)) (p.pstList a.curr) ≤ 0 := not_le.mpr h
    have hrow : rowOf conf a p = some _ := if_pos h
    constructor
    · rw [hrow]
      simp only [writePosition, hact, if_false]
      split <;> rfl
    · simp only [writePosition, hact, if_false, readShare, h, if_true]
      split <;> rfl
    · simp only [writePosition, hact, if_false, writeShare, h, if_true]
      split <;> rfl
    · rw [hrow]
      simp only [writePosition, hact, if_false, offered, Option.toList_some, List.filter_cons,
        List.filter_nil, PidEntry.prev, PidEntry.curr]
      generalize processRow conf a.time a.itv _ _ = row
      -- a reported row is offered to the display list only with the screen on
      cases a.screen && row.displayable <;> rfl
  · have hact : isActive (p.pstList (!a.curr)) (p.pstList a.curr) ≤ 0 := not_lt.mp h
    have hrow : rowOf conf a p = none := if_neg h
    constructor
    · simp [writePosition, hact, hrow]
    · simp [writePosition, hact, readShare, h]
    · simp [writePosition, hact, writeShare, h]
    · simp [writePosition, hact, hrow, offered]

end Node

/-! ## The whole tree -/

section Tree

variable (conf : Conf) (a : WriteArgs)

/-- The node update of `write_stat`. -/
def writtenNode (n : AvlNode) : AvlNode := { n with toPidEntry := writtenEntry a n.toPidEntry }

/-- The accumulators after a list of nodes. -/
def visit (w : WriteAcc) (ns : List AvlNode) : WriteAcc :=
  ns.foldl (fun w n => (writePosition conf a n.toPidEntry w).2) w

/-- A child that is tested before the call. -/
theorem writeStat_child {T : AvlTree} {w : WriteAcc}
    (h : T ≠ .nil → writeStat conf a T w = .ok (T.map (writtenNode a), visit conf a w T.preorder)) :
    (if T.isNil then .ok (T, w) else writeStat conf a T w) =
      (.ok (T.map (writtenNode a), visit conf a w T.preorder) : Except Stop _) := by
  by_cases hT : T = .nil
  · subst hT
    rfl
  · have hT' : ¬ T.isNil = true := by
      intro h
      exact hT (isNil_iff.mp h)
    rw [if_neg hT', h hT]

/-- **`write_stat` is a map and a pre-order fold**, and fails only on `NULL`. -/
theorem writeStat_eq : ∀ {T : AvlTree} {w : WriteAcc}, T ≠ .nil →
    writeStat conf a T w = .ok (T.map (writtenNode a), visit conf a w T.preorder)
  | .nil, _, h => absurd rfl h
  | .node l n h r, w, _ => by
      -- each child is tested for `NULL` before the call
      have ihl := writeStat_child conf a (T := l)
        (w := (writePosition conf a n.toPidEntry w).2) fun hne => writeStat_eq hne
      have ihr := writeStat_child conf a (T := r)
        (w := visit conf a (writePosition conf a n.toPidEntry w).2 l.preorder)
        fun hne => writeStat_eq hne
      rw [writeStat]
      simp only [ihl, ihr, writePosition_fst]
      simp only [HTree.map, writtenNode, HTree.preorder, visit, List.foldl_cons,
        List.foldl_append]

theorem writeStat_ok_iff {T T' : AvlTree} {w w' : WriteAcc} :
    writeStat conf a T w = .ok (T', w') ↔
      T ≠ .nil ∧ T' = T.map (writtenNode a) ∧ w' = visit conf a w T.preorder := by
  by_cases hT : T = .nil
  · subst hT
    simp [writeStat]
  · rw [writeStat_eq conf a hT]
    constructor
    · intro h
      cases h
      exact ⟨hT, rfl, rfl⟩
    · rintro ⟨-, rfl, rfl⟩
      rfl

theorem visit_rows : ∀ (ns : List AvlNode) (w : WriteAcc),
    (visit conf a w ns).rows = w.rows ++ ns.filterMap fun n => rowOf conf a n.toPidEntry
  | [], w => by simp [visit]
  | n :: ns, w => by
      have hn := (writePosition_snd conf a n.toPidEntry w).rows
      have ih := visit_rows ns (writePosition conf a n.toPidEntry w).2
      simp only [visit, List.foldl_cons] at ih ⊢
      rw [ih, hn, List.append_assoc]
      cases h : rowOf conf a n.toPidEntry <;> simp [h]

theorem visit_totaldiskread : ∀ (ns : List AvlNode) (w : WriteAcc),
    (visit conf a w ns).totaldiskread =
      w.totaldiskread + (ns.map fun n => readShare a n.toPidEntry).sum
  | [], w => by simp [visit]
  | n :: ns, w => by
      have hn := (writePosition_snd conf a n.toPidEntry w).totaldiskread
      have ih := visit_totaldiskread ns (writePosition conf a n.toPidEntry w).2
      simp only [visit, List.foldl_cons] at ih ⊢
      rw [ih, hn, List.map_cons, List.sum_cons, BitVec.add_assoc]

theorem visit_totaldiskwrite : ∀ (ns : List AvlNode) (w : WriteAcc),
    (visit conf a w ns).totaldiskwrite =
      w.totaldiskwrite + (ns.map fun n => writeShare a n.toPidEntry).sum
  | [], w => by simp [visit]
  | n :: ns, w => by
      have hn := (writePosition_snd conf a n.toPidEntry w).totaldiskwrite
      have ih := visit_totaldiskwrite ns (writePosition conf a n.toPidEntry w).2
      simp only [visit, List.foldl_cons] at ih ⊢
      rw [ih, hn, List.map_cons, List.sum_cons, BitVec.add_assoc]

/-- The display list after a traversal: the offered rows, in row order. -/
theorem visit_display : ∀ (ns : List AvlNode) (w : WriteAcc),
    ((visit conf a w ns).pstList, (visit conf a w ns).idx) =
      (offered a.screen (ns.filterMap fun n => rowOf conf a n.toPidEntry)).foldl offer
        (w.pstList, w.idx)
  | [], w => rfl
  | n :: ns, w => by
      have hn := (writePosition_snd conf a n.toPidEntry w).display
      have ih := visit_display ns (writePosition conf a n.toPidEntry w).2
      simp only [visit, List.foldl_cons] at ih ⊢
      rw [ih, hn, ← List.foldl_append]
      congr 1
      cases h : rowOf conf a n.toPidEntry <;> simp [h, offered, List.filter_cons]
      split <;> rfl

end Tree

end PTop
