import PTop.Metatheory.Purge
import PTop.Metatheory.TreeGrowth

/-!
# The tables stay small

A purge every `CLEAN_INTERVAL` cycles of what is older than `CLEAN_INTERVAL`
seconds: on a clock that advances from cycle to cycle the two tables hold the rows
of fewer than twice as many cycles, however long the program runs.
-/

namespace PTop

open Framework Framework.HTree AvlTree

section Runs

variable {conf : Conf} {cpuFd : List PCFile} {cs : List PtopCycle} {s : PtopState}

theorem cycle_count {inp : CycleInput} {s s' : PtopState} {out : CycleOutput}
    (h : Steps (mainLoop conf) inp s s' out) : s'.cycle = s.cycle + 1 := by
  obtain ⟨sys, pids, st, w, shown, hc, rfl, -⟩ := mainLoop_ok_iff.mp h
  have hshown : shown.cycle = s.cycle := by
    rw [showStage_frame hc.shown]
    exact (sampleSystem_frame hc.cpu).cycle
  show shown.cycle + 1 = s.cycle + 1
  rw [hshown]

theorem run_count {s₀ : PtopState} (h : Run (Steps (mainLoop conf)) s₀ cs s) :
    s.cycle = s₀.cycle + cs.length := by
  induction h with
  | init => rfl
  | step _ hstep ih =>
      rw [cycle_count hstep, ih, List.length_append, List.length_singleton, Nat.add_assoc]

/-! ## One cycle inserts one row for each node at most -/

theorem length_insertedRows_le {inp : CycleInput} {s s' : PtopState} {out : CycleOutput}
    (h : CycleFacts conf inp s s' out) : (insertedRows out).length ≤ s'.tree.toList.length := by
  have hrows : out.rows.length ≤ out.sampled.preorder.length := by
    rw [h.rows]
    exact List.length_filterMap_le ..
  rw [insertedRows, List.length_map, h.tree, toList_map, List.length_map,
    ← (preorder_perm_toList out.sampled).length_eq]
  exact (List.length_filter_le ..).trans hrows

theorem card_listedKeys_le (before after : List PtopCycle) :
    (listedKeys before).toFinset.card ≤ (listedKeys (before ++ after)).toFinset.card := by
  apply Finset.card_le_card
  intro X hX
  rw [List.mem_toFinset] at hX ⊢
  rw [listedKeys, List.flatMap_append]
  exact List.mem_append_left _ hX

theorem length_cycle_rows (h : PtopRun conf cpuFd cs s) {c : PtopCycle} (hc : c ∈ cs) :
    (processStep c).rows.length ≤ (listedKeys cs).toFinset.card := by
  obtain ⟨before, after, rfl⟩ := List.append_of_mem hc
  have hpost := h.up_to
  have hnodes : c.post.tree.toList.length = (listedKeys (before ++ [c])).toFinset.card := by
    have hset : (keys c.post.tree).toFinset = (listedKeys (before ++ [c])).toFinset := by
      ext X
      rw [List.mem_toFinset, List.mem_toFinset, run_keys hpost]
    rw [length_toList_eq (run_stateOk hpost).tree.sorted, hset]
  refine (length_insertedRows_le (run_cycle h hc).2).trans ?_
  rw [hnodes]
  have hle := card_listedKeys_le (before ++ [c]) after
  rwa [← List.append_cons] at hle

/-! ## The purges of a run -/

/-- The clock advances from cycle to cycle, stays in range, and a purge reads it later
than its cycle did. -/
structure ClockAdvances (cs : List PtopCycle) : Prop where
  increasing : cs.Pairwise fun c d => c.input.ctime < d.input.ctime
  range : ∀ c ∈ cs, 0 ≤ c.input.ctime ∧ c.input.ctime < 2 ^ 32
  purges : ∀ c ∈ cs, Purges c →
    c.input.ctime ≤ c.input.purgeTime.1 ∧ c.input.ctime ≤ c.input.purgeTime.2

theorem stamp_of_range {inp : CycleInput} (h : 0 ≤ inp.ctime ∧ inp.ctime < 2 ^ 32) :
    stamp inp = inp.ctime := by
  rw [stamp, BitVec.toNat_ofInt]
  omega

/-- Every `CLEAN_INTERVAL`-th cycle of a run purges. -/
theorem purges_of_dvd {before after : List PtopCycle} {c : PtopCycle}
    (h : PtopRun conf cpuFd (before ++ c :: after) s) (hdvd : CLEAN_INTERVAL ∣ before.length + 1) :
    Purges c := by
  have hcount : c.pre.cycle = before.length + 1 := by
    rw [run_count h.at_step.1, Nat.add_comm]
    rfl
  rw [Purges, hcount]
  exact Nat.mod_eq_zero_of_dvd hdvd

theorem prunedEvery_process (h : PtopRun conf cpuFd cs s) (hclock : ClockAdvances cs) :
    PrunedEvery ProcessInfoRow.time processStep (fun c => c.input.ctime) CLEAN_INTERVAL
      CLEAN_INTERVAL cs where
  stamped c hc r hr := (processRow_stamp h hc r hr).trans (stamp_of_range (hclock.range c hc))
  increasing := hclock.increasing
  pruned := by
    rintro before c after rfl hdvd
    have hpurge := purges_of_dvd h hdvd
    refine ⟨_, mem_processStep_horizon.mpr ⟨hpurge, rfl⟩, ?_⟩
    have hlate := (hclock.purges c (by simp) hpurge).1
    exact sub_le_sub_right hlate _

theorem prunedEvery_sys (h : PtopRun conf cpuFd cs s) (hclock : ClockAdvances cs) :
    PrunedEvery SysInfoRow.time sysStep (fun c => c.input.ctime) CLEAN_INTERVAL
      CLEAN_INTERVAL cs where
  stamped c hc r hr := by
    rw [List.mem_singleton.mp hr]
    exact (sysRow_stamp h hc).trans (stamp_of_range (hclock.range c hc))
  increasing := hclock.increasing
  pruned := by
    rintro before c after rfl hdvd
    have hpurge := purges_of_dvd h hdvd
    refine ⟨_, mem_sysStep_horizon.mpr ⟨hpurge, rfl⟩, ?_⟩
    have hlate := (hclock.purges c (by simp) hpurge).2
    exact sub_le_sub_right hlate _

/-- Few steps have few rows. -/
theorem length_everInserted_le {ρ τ : Type*} (f : PtopCycle → TableStep ρ τ) {n : ℕ}
    {ds : List PtopCycle} (h : ∀ c ∈ ds, (f c).rows.length ≤ n) :
    (everInserted (ds.map f)).length ≤ ds.length * n := by
  rw [everInserted, List.length_flatMap, List.map_map]
  have hsum := List.sum_le_card_nsmul (ds.map fun c => (f c).rows.length) n (by
    intro m hm
    obtain ⟨c, hc, rfl⟩ := List.mem_map.mp hm
    exact h c hc)
  rw [List.length_map, smul_eq_mul] at hsum
  exact hsum

theorem ClockAdvances.of_append {ds : List PtopCycle} (h : ClockAdvances (cs ++ ds)) :
    ClockAdvances cs where
  increasing := (List.pairwise_append.mp h.increasing).1
  range c hc := h.range c (List.mem_append_left ds hc)
  purges c hc := h.purges c (List.mem_append_left ds hc)

theorem length_sysInfo_le (h : PtopRun conf cpuFd cs s) (hclock : ClockAdvances cs) :
    s.db.sysInfo.length ≤ 2 * CLEAN_INTERVAL := by
  have hsub := tableAfter_sublist_recent (prunedEvery_sys h hclock)
  rw [← (run_tables h).2] at hsub
  have hone : (everInserted ((recent CLEAN_INTERVAL CLEAN_INTERVAL cs).map sysStep)).length ≤
      (recent CLEAN_INTERVAL CLEAN_INTERVAL cs).length * 1 :=
    length_everInserted_le sysStep fun _ _ => le_refl _
  have hrecent : (recent CLEAN_INTERVAL CLEAN_INTERVAL cs).length ≤ CLEAN_INTERVAL + CLEAN_INTERVAL :=
    length_recent_lt (by decide) cs
  have hlen := hsub.length_le
  omega

theorem length_processInfo_le (h : PtopRun conf cpuFd cs s) (hclock : ClockAdvances cs) :
    s.db.processInfo.length ≤ 2 * CLEAN_INTERVAL * (listedKeys cs).toFinset.card := by
  have hsub := tableAfter_sublist_recent (prunedEvery_process h hclock)
  rw [← (run_tables h).1] at hsub
  have hmany : (everInserted ((recent CLEAN_INTERVAL CLEAN_INTERVAL cs).map processStep)).length ≤
      (recent CLEAN_INTERVAL CLEAN_INTERVAL cs).length * (listedKeys cs).toFinset.card :=
    length_everInserted_le processStep fun c hc => length_cycle_rows h (List.mem_of_mem_drop hc)
  have hrecent : (recent CLEAN_INTERVAL CLEAN_INTERVAL cs).length ≤ 2 * CLEAN_INTERVAL :=
    length_recent_lt (by decide) cs
  exact (hsub.length_le.trans hmany).trans (Nat.mul_le_mul_right _ hrecent)

/-- **The tables of a run stay small**: they hold rows of the last 62 cycles only, so at
most 62 samples of the machine and 62 rows of each pid ever listed. -/
theorem tables_bounded (h : PtopRun conf cpuFd cs s) (hclock : ClockAdvances cs) :
    s.db.sysInfo.length ≤ 2 * CLEAN_INTERVAL ∧
      s.db.processInfo.length ≤ 2 * CLEAN_INTERVAL * (listedKeys cs).toFinset.card ∧
      ∀ c ∈ cs, (queryDb c).sysInfo.length ≤ 2 * CLEAN_INTERVAL + 1 := by
  refine ⟨length_sysInfo_le h hclock, length_processInfo_le h hclock, ?_⟩
  intro c hc
  obtain ⟨before, after, rfl⟩ := List.append_of_mem hc
  have hpre := length_sysInfo_le h.at_step.1 hclock.of_append
  rw [queryDb_eq, List.length_append, List.length_singleton]
  exact Nat.add_le_add_right hpre 1

end Runs

/-- A cycle every other second, until after the first purge. -/
def ticking : List CycleInput :=
  (List.range 34).map fun n =>
    { plainCycle (BitVec.ofNat 64 (100 * (n + 1))) [resident] fun _ =>
        plainFiles { utime := BitVec.ofNat 64 (30 * (n + 1)) } {} with
      ctime := 10 + 2 * n
      purgeTime := (10 + 2 * n, 11 + 2 * n) }

/-- The purge of the 31st cycle has left 19 of 34 rows. -/
theorem tables_bounded_ticking :
    ∃ cs s, PtopRun {} [] cs s ∧ cs.map Transition.input = ticking ∧ (∃ c ∈ cs, Purges c) ∧
      s.db.sysInfo.length = 19 ∧ s.db.processInfo.length = 19 ∧
      s.db.sysInfo.length ≤ 2 * CLEAN_INTERVAL := by
  obtain ⟨cs, s, hrun, hinput, hinc, hrange, hpurges, hpurge, c, hc, hlen, hlen'⟩ :=
    exists_run_of_trace (mainLoop {}) (systemInit []) ticking
      (fun cs => (cs.Pairwise fun c d => c.input.ctime < d.input.ctime) ∧
        (∀ c ∈ cs, 0 ≤ c.input.ctime ∧ c.input.ctime < 2 ^ 32) ∧
        (∀ c ∈ cs, Purges c →
          c.input.ctime ≤ c.input.purgeTime.1 ∧ c.input.ctime ≤ c.input.purgeTime.2) ∧
        (∃ c ∈ cs, Purges c) ∧
        ∃ c ∈ cs.getLast?, c.post.db.sysInfo.length = 19 ∧ c.post.db.processInfo.length = 19)
      (by decide +kernel)
  obtain ⟨before, rfl⟩ := List.getLast?_eq_some_iff.mp hc
  obtain ⟨-, -, rfl⟩ := hrun.snoc_inv
  exact ⟨_, c.post, hrun, hinput, hpurge, hlen, hlen',
    (tables_bounded hrun ⟨hinc, hrange, hpurges⟩).1⟩

end PTop
