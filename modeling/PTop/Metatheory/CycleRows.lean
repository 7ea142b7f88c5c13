import PTop.Metatheory.Runs

/-!
# The rows of a cycle

`write_stat` visits every node once and hands one row to `insert_ps` for each
node that `is_active` reports. A row carries the pid of a sample, and the
invariant of the loop says that this is the key of the node.
-/

namespace PTop

open Framework Framework.HTree AvlTree

/-! ## The nodes reported -/

/-- Keys are 32-bit numbers. -/
theorem length_le_of_nodup_keys {l : List ElementType} (h : l.Nodup) : l.length ≤ 2 ^ 32 := by
  have hinj : Function.Injective fun k : ElementType => k.toBitVec.toNat := by
    intro k k' hk
    exact Int32.toBitVec_inj.mp (BitVec.eq_of_toNat_eq hk)
  have hsub : l.map (fun k => k.toBitVec.toNat) ⊆ List.range (2 ^ 32) := by
    intro x hx
    obtain ⟨k, -, rfl⟩ := List.mem_map.mp hx
    exact List.mem_range.mpr k.toBitVec.isLt
  have hlen := (h.map hinj).subperm hsub
  simpa using hlen.length_le

/-- The nodes `write_stat` reports, in traversal order. -/
def activeNodes (a : WriteArgs) (T : AvlTree) : List AvlNode :=
  T.preorder.filter fun n => Active a n.toPidEntry

/-- The row of a reported node. -/
def activeRow (conf : Conf) (a : WriteArgs) (e : PidEntry) : ProcessInfo :=
  processRow conf a.time a.itv (e.prev a) (clampSample (e.prev a) (e.curr a))

section Active

variable {conf : Conf} {inp : CycleInput} {s s' : PtopState} {out : CycleOutput}

theorem CycleFacts.rows_eq_map (h : CycleFacts conf inp s s' out) :
    out.rows = (activeNodes (cycleArgs inp s out) out.sampled).map fun n =>
      activeRow conf (cycleArgs inp s out) n.toPidEntry := by
  rw [h.rows]
  exact filterMap_ite (fun n : AvlNode => Active (cycleArgs inp s out) n.toPidEntry) _ _

/-- Fewer nodes are reported than there are 32-bit numbers: zero is no pid. -/
theorem CycleFacts.length_activeNodes (h : CycleFacts conf inp s s' out) (hs : StateOk s) :
    (activeNodes (cycleArgs inp s out) out.sampled).length < 2 ^ 32 := by
  have hnd : ((activeNodes (cycleArgs inp s out) out.sampled).map AvlNode.element).Nodup :=
    h.preorder_nodup.sublist ((List.filter_sublist).map _)
  have hzero : (0 : ElementType) ∉
      (activeNodes (cycleArgs inp s out) out.sampled).map AvlNode.element := by
    rw [List.mem_map]
    rintro ⟨n, hn, hk⟩
    obtain ⟨hmem, hact⟩ := List.mem_filter.mp hn
    have hact := (active_iff.mp (of_decide_eq_true hact)).1
    rcases h.sampled_entries hs _ _ (h.mem_preorder.mpr ⟨n, hmem, rfl, rfl⟩) s.curr with h0 | h0
    · exact hact h0
    · exact hact (congrArg Int32.toBitVec (h0.trans hk))
  have hlen := length_le_of_nodup_keys (List.nodup_cons.mpr ⟨hzero, hnd⟩)
  rw [List.length_cons, List.length_map] at hlen
  omega

/-! ## One row for each node reported -/

theorem rowOf_toList (conf : Conf) (a : WriteArgs) (e : PidEntry) :
    (rowOf conf a e).toList = if Active a e then [activeRow conf a e] else [] := by
  unfold rowOf
  split <;> rfl

theorem CycleFacts.rows_of_node (h : CycleFacts conf inp s s' out) (hs : StateOk s) {n : AvlNode}
    (hn : n ∈ out.sampled.toList) : out.rows.filter (fun r => Int32.ofBitVec r.pid = n.element) =
      if Active (cycleArgs inp s out) n.toPidEntry then
        [activeRow conf (cycleArgs inp s out) n.toPidEntry] else [] := by
  rw [h.rows_filter_key hs, entries_of_mem h.sampled_ok.sorted hn, Option.bind_some, rowOf_toList]

theorem mem_activeNodes {a : WriteArgs} {T : AvlTree} {n : AvlNode} (hn : n ∈ activeNodes a T) :
    n ∈ T.toList ∧ Active a n.toPidEntry := by
  obtain ⟨hmem, hact⟩ := List.mem_filter.mp hn
  exact ⟨(preorder_perm_toList T).mem_iff.mp hmem, of_decide_eq_true hact⟩

/-- The row of a node carries its key. -/
theorem CycleFacts.activeRow_key (h : CycleFacts conf inp s s' out) (hs : StateOk s) {n : AvlNode}
    (hn : n ∈ activeNodes (cycleArgs inp s out) out.sampled) :
    Int32.ofBitVec (activeRow conf (cycleArgs inp s out) n.toPidEntry).pid = n.element := by
  obtain ⟨hmem, hact⟩ := mem_activeNodes hn
  have hrow := h.rows_of_node hs hmem
  rw [if_pos hact] at hrow
  have hmem : activeRow conf (cycleArgs inp s out) n.toPidEntry ∈ [_] := List.mem_singleton_self _
  rw [← hrow, List.mem_filter] at hmem
  exact of_decide_eq_true hmem.2

end Active

/-- **One row for each node that `is_active` reports, and no other row.** The row
carries the key of the node, so the pids of the rows of a cycle are distinct. -/
theorem rows_of_active_nodes {conf : Conf} {cpuFd : List PCFile} {cs : List PtopCycle}
    {s : PtopState} (h : PtopRun conf cpuFd cs s) {c : PtopCycle} (hc : c ∈ cs) :
    (∀ n ∈ c.output.sampled.toList,
      c.output.rows.filter (fun r => Int32.ofBitVec r.pid = n.element) =
        if 0 < isActive (n.pstList (!c.pre.curr)) (n.pstList c.pre.curr) then
          [activeRow conf (cycleArgs c.input c.pre c.output) n.toPidEntry] else []) ∧
      (∀ r ∈ c.output.rows, ∃ n ∈ c.output.sampled.toList,
        0 < isActive (n.pstList (!c.pre.curr)) (n.pstList c.pre.curr) ∧
          Int32.ofBitVec r.pid = n.element) ∧
      (c.output.rows.map ProcessInfo.pid).Nodup := by
  obtain ⟨hs, hf⟩ := run_cycle h hc
  refine ⟨fun n hn => hf.rows_of_node hs hn, ?_, ?_⟩
  · intro r hr
    rw [hf.rows_eq_map, List.mem_map] at hr
    obtain ⟨n, hn, rfl⟩ := hr
    exact ⟨n, (mem_activeNodes hn).1, (mem_activeNodes hn).2, hf.activeRow_key hs hn⟩
  · -- keys are distinct, and the row of a node has its key
    have hpids : (c.output.rows.map fun r => Int32.ofBitVec r.pid) =
        (activeNodes (cycleArgs c.input c.pre c.output) c.output.sampled).map AvlNode.element := by
      rw [hf.rows_eq_map, List.map_map]
      exact List.map_congr_left fun n hn => hf.activeRow_key hs hn
    have hnodup : ((c.output.rows.map ProcessInfo.pid).map Int32.ofBitVec).Nodup := by
      rw [List.map_map]
      exact hpids ▸ hf.preorder_nodup.sublist (List.filter_sublist.map _)
    exact hnodup.of_map _

/-- Two processes listed in a cycle; each has a row. -/
def reported : List CycleInput :=
  [plainCycle 100 [resident, visitor] fun _ => plainFiles { utime := 30 } {}]

theorem rows_of_active_nodes_reported :
    ∃ cs s c, PtopRun {} [] cs s ∧ cs.map Transition.input = reported ∧ c ∈ cs ∧
      c.output.rows.length = 2 ∧ (c.output.rows.map ProcessInfo.pid).Nodup := by
  obtain ⟨cs, s, hrun, hinput, c, hc, hlen⟩ := exists_run_of_trace (mainLoop {}) (systemInit [])
    reported (fun cs => ∃ c ∈ cs, c.output.rows.length = 2) (by decide +kernel)
  exact ⟨cs, s, c, hrun, hinput, hc, hlen, (rows_of_active_nodes hrun hc).2.2⟩

end PTop
