import PTop.Framework.Tables
import PTop.Metatheory.Cycle

/-!
# Runs of the main loop

The states a run goes through, and what one cycle says about one process: at
most one row, decided by the entry of that process in the sampled tree.
-/

namespace PTop

open Framework Framework.HTree AvlTree

/-- A step of a run of the main loop. -/
abbrev PtopCycle := Transition PtopState CycleInput CycleOutput

/-- The runs of the program. -/
abbrev PtopRun (conf : Conf) (cpuFd : List PCFile) : List PtopCycle → PtopState → Prop :=
  Run (Steps (mainLoop conf)) (systemInit cpuFd)

/-- The pids listed in a cycle. -/
def CycleInput.listing (inp : CycleInput) : List Pid := inp.proc.getD []

/-- A process all of whose files open, with these counters. -/
def plainFiles (stat : StatScan) (io : IoScan) : ProcFiles where
  stat := some stat
  statAgain := some none
  status := some {}
  io := some io
  smaps := some {}
  meminfo := some 0
  perfOpen := -1
  counter := none

/-- A cycle on a machine that has been busy for `busy` jiffies. -/
def plainCycle (busy : u64) (pids : List Pid) (files : Pid → ProcFiles) : CycleInput where
  ctime := 0
  stat := some (some { cpuUser := busy })
  proc := some pids
  files := files
  cpufreq := none
  cpuCounter := fun _ => none
  net := none
  isatty := true
  displayExit := none
  purgeTime := (0, 0)

def resident : Pid := ⟨1, by decide⟩
def visitor : Pid := ⟨7, by decide⟩

/-! ## The invariant of the loop -/

/-- A sample kept under a key: without a pid, or with the pid of the key. -/
def SlotOk (X : ElementType) (st : PidStats) : Prop :=
  st.pid = 0 ∨ Int32.ofBitVec st.pid = X

/-- Every sample of an entry belongs to its key. -/
def EntryOk (X : ElementType) (e : PidEntry) : Prop := ∀ i, SlotOk X (e.pstList i)

/-- The invariant of the loop. -/
structure StateOk (s : PtopState) : Prop where
  tree : TreeOk s.tree s.brk
  entries : ∀ X e, AvlTree.entries s.tree X = some e → EntryOk X e

theorem stateOk_init (cpuFd : List PCFile) : StateOk (systemInit cpuFd) :=
  ⟨treeOk_nil 0, fun _ _ h => by cases h⟩

theorem entryOk_fresh (X : ElementType) : EntryOk X freshEntry := fun _ => Or.inl rfl

theorem entryOk_setSlot {X : ElementType} {e : PidEntry} {fd : PCFile} {i : Bool} {st : PidStats}
    (he : EntryOk X e) (hst : SlotOk X st) : EntryOk X ({ e with fd := fd }.setSlot i st) := by
  intro j
  by_cases hj : j = i
  · subst hj
    rwa [PidEntry.setSlot_same]
  · have hi : j = !i := by cases i <;> cases j <;> first | rfl | exact absurd rfl hj
    subst hi
    rw [PidEntry.setSlot_other]
    exact he _

theorem entryOk_sampled {conf : Conf} {pid : Pid} {f : ProcFiles} {curr : Bool} {e : PidEntry}
    (he : EntryOk pid.toElement e) :
    EntryOk pid.toElement (sampledEntry conf pid f curr e) := by
  refine entryOk_setSlot he ?_
  unfold SlotOk
  rw [storedSample_pid]
  by_cases h : Readable f
  · rw [if_pos h]
    exact Or.inr rfl
  · rw [if_neg h]
    exact Or.inl rfl

theorem entryOk_written {X : ElementType} {a : WriteArgs} {e : PidEntry} (he : EntryOk X e) :
    EntryOk X (writtenEntry a e) := by
  unfold writtenEntry
  split
  · exact entryOk_setSlot he (he a.curr)
  · exact he

theorem sampledMap_ok {conf : Conf} {files : Pid → ProcFiles} {curr : Bool} {pids : List Pid}
    {m : ProcMap} (hm : ∀ X e, m X = some e → EntryOk X e) :
    ∀ X e, sampledMap conf files curr pids m X = some e → EntryOk X e := by
  intro X e he
  by_cases hX : ∃ p ∈ pids, p.toElement = X
  · obtain ⟨p, hp, rfl⟩ := hX
    rw [sampledMap_listed m hp] at he
    cases he
    apply entryOk_sampled
    cases h : m p.toElement with
    | none => exact entryOk_fresh _
    | some e => exact hm _ _ h
  · rw [sampledMap_unlisted m fun p hp he => hX ⟨p, hp, he⟩] at he
    exact hm X e he

section Cycle

variable {conf : Conf} {inp : CycleInput} {s s' : PtopState} {out : CycleOutput}

theorem CycleFacts.entries_after (h : CycleFacts conf inp s s' out) (X : ElementType) :
    entries s'.tree X = (entries out.sampled X).map (writtenEntry (cycleArgs inp s out)) := by
  rw [h.tree]
  exact entries_written h.sampled_ok.sorted _ X

theorem CycleFacts.sampled_entries (h : CycleFacts conf inp s s' out) (hs : StateOk s) :
    ∀ X e, entries out.sampled X = some e → EntryOk X e := by
  obtain ⟨pids, -, -, he⟩ := h.listing
  rw [he]
  exact sampledMap_ok hs.entries

/-- **The invariant is kept.** -/
theorem stateOk_step (hs : StateOk s) (h : Steps (mainLoop conf) inp s s' out) :
    StateOk s' ∧ CycleFacts conf inp s s' out := by
  have hf := cycleFacts hs.tree h
  refine ⟨⟨?_, ?_⟩, hf⟩
  · rw [hf.tree]
    exact hf.sampled_ok.written _
  · intro X e he
    rw [hf.entries_after, Option.map_eq_some_iff] at he
    obtain ⟨e₀, he₀, rfl⟩ := he
    exact entryOk_written (hf.sampled_entries hs X e₀ he₀)

end Cycle

/-- **Every state and every cycle of a run.** -/
theorem run_stateOk {conf : Conf} {cpuFd : List PCFile} {cs : List PtopCycle} {s : PtopState}
    (h : PtopRun conf cpuFd cs s) : StateOk s :=
  h.invariant (stateOk_init cpuFd) fun hs hstep => (stateOk_step hs hstep).1

theorem run_cycle {conf : Conf} {cpuFd : List PCFile} {cs : List PtopCycle} {s : PtopState}
    (h : PtopRun conf cpuFd cs s) {c : PtopCycle} (hc : c ∈ cs) :
    StateOk c.pre ∧ CycleFacts conf c.input c.pre c.post c.output := by
  obtain ⟨before, after, rfl⟩ := List.append_of_mem hc
  obtain ⟨hrun, hstep⟩ := h.at_step
  exact ⟨run_stateOk hrun, (stateOk_step (run_stateOk hrun) hstep).2⟩

/-! ## One process in one cycle -/

theorem rowOf_pid {conf : Conf} {a : WriteArgs} {e : PidEntry} {r : ProcessInfo}
    (h : rowOf conf a e = some r) : r.pid = (e.pstList a.curr).pid ∧ r.pid ≠ 0 := by
  unfold rowOf at h
  split at h
  · rename_i hact
    cases h
    exact ⟨rfl, (active_iff.mp hact).1⟩
  · cases h

section OneProcess

variable {conf : Conf} {inp : CycleInput} {s s' : PtopState} {out : CycleOutput}

theorem CycleFacts.preorder_nodup (h : CycleFacts conf inp s s' out) :
    (out.sampled.preorder.map AvlNode.element).Nodup :=
  ((preorder_perm_toList _).map _).nodup_iff.mpr h.sampled_ok.sorted.nodup_keys

theorem CycleFacts.mem_preorder (h : CycleFacts conf inp s s' out) {X : ElementType}
    {e : PidEntry} : entries out.sampled X = some e ↔
      ∃ n ∈ out.sampled.preorder, n.element = X ∧ n.toPidEntry = e := by
  rw [entries_eq_some_iff h.sampled_ok.sorted]
  simp only [(preorder_perm_toList out.sampled).mem_iff]

/-- The rows of one process in a cycle. -/
def rowsOf (pid : Pid) (rows : List ProcessInfo) : List ProcessInfo :=
  rows.filter fun r => r.pid = pid.val

/-- **A key has the row of its entry**, and no other. -/
theorem CycleFacts.rows_filter_key (h : CycleFacts conf inp s s' out) (hs : StateOk s)
    (X : ElementType) : out.rows.filter (fun r => Int32.ofBitVec r.pid = X) =
      ((entries out.sampled X).bind (rowOf conf (cycleArgs inp s out))).toList := by
  have hkey : ∀ n ∈ out.sampled.preorder, ∀ r, rowOf conf (cycleArgs inp s out) n.toPidEntry = some r →
      Int32.ofBitVec r.pid = n.element := by
    intro n hn r hr
    obtain ⟨hr₁, hr₂⟩ := rowOf_pid hr
    have hslot := h.sampled_entries hs _ _ (h.mem_preorder.mpr ⟨n, hn, rfl, rfl⟩)
      (cycleArgs inp s out).curr
    rcases hslot with hslot | hslot
    · exact absurd (hr₁.trans hslot) hr₂
    · rw [hr₁]
      exact hslot
  have hfilter : out.rows.filter (fun r => Int32.ofBitVec r.pid = X) =
      out.sampled.preorder.filterMap fun n =>
        if n.element = X then rowOf conf (cycleArgs inp s out) n.toPidEntry else none := by
    rw [h.rows, List.filter_filterMap]
    apply List.filterMap_congr
    intro n hn
    cases hr : rowOf conf (cycleArgs inp s out) n.toPidEntry with
    | none => simp
    | some r => simp [Option.filter, hkey n hn r hr]
  rw [hfilter]
  cases he : entries out.sampled X with
  | none =>
      have hnone : ∀ n ∈ out.sampled.preorder, n.element ≠ X := by
        intro n hn hk
        rw [h.mem_preorder.mpr ⟨n, hn, hk, rfl⟩] at he
        cases he
      simp only [Option.bind_none, Option.toList_none, List.filterMap_eq_nil_iff]
      intro n hn
      rw [if_neg (hnone n hn)]
  | some e =>
      obtain ⟨n, hn, hk, rfl⟩ := h.mem_preorder.mp he
      refine filterMap_of_nodup_key (x := n)
        (f := fun n => rowOf conf (cycleArgs inp s out) n.toPidEntry)
        (g := fun m =>
          if m.element = X then rowOf conf (cycleArgs inp s out) m.toPidEntry else none)
        h.preorder_nodup hn ?_ ?_
      · intro m _ hm
        rw [if_neg fun he => hm (he.trans hk.symm)]
      · rw [if_pos hk]

/-- **A process has the row of its entry**, and no other. -/
theorem CycleFacts.rowsOf_eq (h : CycleFacts conf inp s s' out) (hs : StateOk s) (pid : Pid) :
    rowsOf pid out.rows =
      ((entries out.sampled pid.toElement).bind (rowOf conf (cycleArgs inp s out))).toList := by
  rw [← h.rows_filter_key hs, rowsOf]
  apply List.filter_congr
  intro r _
  have hkey : Int32.ofBitVec r.pid = pid.toElement ↔ r.pid = pid.val :=
    ⟨congrArg Int32.toBitVec, congrArg Int32.ofBitVec⟩
  simp only [hkey]

end OneProcess

end PTop
