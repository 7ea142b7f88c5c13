import PTop.Framework.BoundedInsertion
import PTop.Metatheory.Runs
import PTop.Model.Display

/-!
# The display list

`add_higher_process_info` keeps `pst_list` in descending order of cpu by bounded
insertion. A list that is not full takes every row; a full list takes none, so
what it shows is the first `SHOW_NUM` rows offered, in order.
-/

namespace PTop

open Framework Framework.HTree AvlTree

/-- The order of the display list. -/
def LowerCpu (a b : ProcessInfo) : Prop := a.cpu < b.cpu

instance : DecidableRel LowerCpu := fun a b => inferInstanceAs (Decidable (a.cpu < b.cpu))

/-! ## The two special cases of the source -/

theorem shiftLower_eq (pi : ProcessInfo) : ∀ {n : ℕ} {A : ℕ → ProcessInfo}, n < SHOW_NUM →
    shiftLower pi n A = shiftBelow LowerCpu pi n A
  | 0, A, _ => rfl
  | n + 1, A, hn => by
      -- the special case is about the last slot, which is not filled yet
      have hlast : n ≠ SHOW_NUM - 1 := by
        unfold SHOW_NUM at hn ⊢
        omega
      rw [shiftLower, shiftBelow]
      by_cases h : (A n).cpu < pi.cpu
      · rw [if_pos ⟨h, hlast⟩, if_pos (show LowerCpu (A n) pi from h)]
        exact shiftLower_eq pi (Nat.lt_of_succ_lt hn)
      · rw [if_neg fun hc => h hc.1, if_neg (show ¬ LowerCpu (A n) pi from h)]

/-- Below the capacity: an insertion. -/
theorem addHigherProcessInfo_of_lt (pi : ProcessInfo) {n : ℕ} (A : ℕ → ProcessInfo)
    (hn : n < SHOW_NUM) : addHigherProcessInfo pi n A = insertSlot LowerCpu pi n A := by
  have hplace : (shiftBelow LowerCpu pi n A).1 ≤ SHOW_NUM - 1 :=
    (shiftBelow_fst_le LowerCpu pi).trans (Nat.le_pred_of_lt hn)
  rw [addHigherProcessInfo, shiftLower_eq pi hn]
  exact if_pos hplace

/-- At the capacity: the special case of the loop stops it at once, and the
guard of the store drops the row. -/
theorem addHigherProcessInfo_full (pi : ProcessInfo) (A : ℕ → ProcessInfo) :
    addHigherProcessInfo pi SHOW_NUM A = A := by
  have hstop : shiftLower pi SHOW_NUM A = (SHOW_NUM, A) := by
    rw [show SHOW_NUM = 39 + 1 from rfl, shiftLower, if_neg fun h => h.2 rfl]
  rw [addHigherProcessInfo, hstop]
  exact if_neg (by decide)

theorem offer_eq : offer = offerTo LowerCpu SHOW_NUM := by
  funext d r
  unfold offer offerTo boundedInsert
  by_cases h : d.2 < SHOW_NUM
  · rw [if_neg (not_le.mpr h), if_pos h, addHigherProcessInfo_of_lt r d.1 h]
  · rw [if_pos (not_lt.mp h), if_neg h, addHigherProcessInfo_full]

/-! ## The rows of a cycle are comparable -/

/-- All cpu figures of a cycle are shares of one interval. -/
theorem rowOf_cpu_share {conf : Conf} {a : WriteArgs} {e : PidEntry} {r : ProcessInfo}
    (h : rowOf conf a e = some r) : XFloat.IsShareOf (percentUnit a.itv) r.cpu := by
  unfold rowOf at h
  split at h
  · cases h
    exact ⟨_, rfl⟩
  · cases h

/-- The rows `write_stat` offers to the display list, in traversal order. -/
def offeredRows (conf : Conf) (a : WriteArgs) (T : AvlTree) : List ProcessInfo :=
  offered a.screen (T.preorder.filterMap fun n => rowOf conf a n.toPidEntry)

theorem offeredRows_weakOrder (conf : Conf) (a : WriteArgs) (T : AvlTree) :
    WeakOrderOn LowerCpu (offeredRows conf a T) := by
  have hshare : ∀ r ∈ offeredRows conf a T, XFloat.IsShareOf (percentUnit a.itv) r.cpu := by
    intro r hr
    obtain ⟨n, -, hn⟩ := List.mem_filterMap.mp (List.mem_of_mem_filter hr)
    exact rowOf_cpu_share hn
  constructor
  · intro x _ y _ h
    exact XFloat.lt_asymm h
  · intro x hx y hy z hz hxy hyz
    exact (hshare x hx).not_lt_trans (hshare y hy) (hshare z hz) hxy hyz

/-! ## What every call does -/

/-- The slots the loop of `add_higher_process_info` copies to. -/
def shiftedSlots (pi : ProcessInfo) : ℕ → (ℕ → ProcessInfo) → List ℕ
  | 0, _ => []
  | i + 1, pstList =>
      if (pstList i).cpu < pi.cpu ∧ i ≠ SHOW_NUM - 1 then
        (i + 1) :: shiftedSlots pi i (Function.update pstList (i + 1) (pstList i))
      else []

/-- The slots one call of `add_higher_process_info` writes. -/
def writtenSlots (pi : ProcessInfo) (length : ℕ) (pstList : ℕ → ProcessInfo) : List ℕ :=
  let place := (shiftLower pi length pstList).1
  shiftedSlots pi length pstList ++ if place ≤ SHOW_NUM - 1 then [place] else []

theorem shiftLower_of_notMem (pi : ProcessInfo) : ∀ {n : ℕ} {A : ℕ → ProcessInfo} {j : ℕ},
    j ∉ shiftedSlots pi n A → (shiftLower pi n A).2 j = A j
  | 0, _, _, _ => rfl
  | i + 1, A, j, hj => by
      rw [shiftLower]
      rw [shiftedSlots] at hj
      by_cases h : (A i).cpu < pi.cpu ∧ i ≠ SHOW_NUM - 1
      · rw [if_pos h] at hj ⊢
        rw [List.mem_cons, not_or] at hj
        rcases hj with ⟨hne, hj⟩
        rw [shiftLower_of_notMem pi hj, Function.update_of_ne hne]
      · rw [if_neg h]

/-- A slot that a call does not write keeps its entry. -/
theorem addHigherProcessInfo_of_notMem {pi : ProcessInfo} {n : ℕ} {A : ℕ → ProcessInfo} {j : ℕ}
    (hj : j ∉ writtenSlots pi n A) : addHigherProcessInfo pi n A j = A j := by
  rw [writtenSlots, List.mem_append, not_or] at hj
  rcases hj with ⟨hshift, hplace⟩
  rw [addHigherProcessInfo]
  by_cases h : (shiftLower pi n A).1 ≤ SHOW_NUM - 1
  · rw [if_pos h, List.mem_singleton] at hplace
    simp only [if_pos h, Function.update_of_ne hplace, shiftLower_of_notMem pi hshift]
  · simp only [if_neg h, shiftLower_of_notMem pi hshift]

theorem shiftedSlots_lt (pi : ProcessInfo) : ∀ {n : ℕ} {A : ℕ → ProcessInfo}, n ≤ SHOW_NUM →
    ∀ j ∈ shiftedSlots pi n A, j < SHOW_NUM
  | 0, _, _, _, hj => by simp [shiftedSlots] at hj
  | i + 1, A, hn, j, hj => by
      rw [shiftedSlots] at hj
      by_cases h : (A i).cpu < pi.cpu ∧ i ≠ SHOW_NUM - 1
      · rw [if_pos h] at hj
        -- the last slot is never copied upwards
        rcases List.mem_cons.mp hj with rfl | hj
        · have hlast := h.2
          omega
        · exact shiftedSlots_lt pi (Nat.le_of_succ_le hn) j hj
      · rw [if_neg h] at hj
        exact absurd hj List.not_mem_nil

theorem writtenSlots_lt {pi : ProcessInfo} {n : ℕ} {A : ℕ → ProcessInfo} (hn : n ≤ SHOW_NUM) :
    ∀ j ∈ writtenSlots pi n A, j < SHOW_NUM := by
  intro j hj
  rcases List.mem_append.mp hj with hj | hj
  · exact shiftedSlots_lt pi hn j hj
  · split at hj
    · rename_i hplace
      rw [List.mem_singleton.mp hj]
      exact Nat.lt_of_le_pred (by decide) hplace
    · exact absurd hj List.not_mem_nil

/-- The display list and the count after the calls for `rows`, from the list `stale`. -/
structure DisplayOk (stale : ℕ → ProcessInfo) (rows : List ProcessInfo)
    (d : (ℕ → ProcessInfo) × ℕ) : Prop where
  count : d.2 = rows.length
  kept : ∃ σ, KeptInOrder LowerCpu SHOW_NUM rows d.1 σ
  rest : ∀ j, min d.2 SHOW_NUM ≤ j → d.1 j = stale j

theorem displayOk_foldl (stale : ℕ → ProcessInfo) {rows : List ProcessInfo}
    (h : WeakOrderOn LowerCpu rows) : DisplayOk stale rows (rows.foldl offer (stale, 0)) := by
  have hcount : (rows.foldl offer (stale, 0)).2 = rows.length :=
    (foldl_offer_snd rows (stale, 0)).trans (Nat.zero_add _)
  refine ⟨hcount, ?_, ?_⟩
  · rw [offer_eq]
    exact exists_keptInOrder LowerCpu SHOW_NUM stale h
  · intro j hj
    rw [hcount] at hj
    rw [offer_eq]
    exact foldl_offerTo_of_ge LowerCpu SHOW_NUM stale rows hj

/-- What one call writes: only slots of the list, and every other slot is left alone. -/
structure CallOk (stale : ℕ → ProcessInfo) (before : List ProcessInfo) (r : ProcessInfo)
    (slots : List ℕ) : Prop where
  bound : ∀ j ∈ slots, j < SHOW_NUM
  frame : ∀ j, j ∉ slots →
    ((before ++ [r]).foldl offer (stale, 0)).1 j = (before.foldl offer (stale, 0)).1 j

theorem callOk_offer (stale : ℕ → ProcessInfo) (before : List ProcessInfo) (r : ProcessInfo) :
    CallOk stale before r (writtenSlots r (min before.length SHOW_NUM)
      (before.foldl offer (stale, 0)).1) := by
  constructor
  · exact writtenSlots_lt (Nat.min_le_right _ _)
  · intro j hj
    have hcount : (before.foldl offer (stale, 0)).2 = before.length :=
      (foldl_offer_snd before (stale, 0)).trans (Nat.zero_add _)
    have hlength : (if before.length ≥ SHOW_NUM then SHOW_NUM else before.length) =
        min before.length SHOW_NUM := by
      split <;> omega
    rw [List.foldl_append, List.foldl_cons, List.foldl_nil, offer, hcount, hlength]
    exact addHigherProcessInfo_of_notMem hj

/-- **Every call of a cycle.** `write_stat` makes one call for each offered row; after
each call the list is an arrangement of the rows so far in descending order of cpu,
stable, over the entries it had before, and no call writes a slot past the last. -/
theorem display_calls {conf : Conf} {a : WriteArgs} {T T' : AvlTree} {w w' : WriteAcc}
    (h : writeStat conf a T w = .ok (T', w')) (hidx : w.idx = 0) :
    (w'.pstList, w'.idx) = (offeredRows conf a T).foldl offer (w.pstList, 0) ∧
      ∀ before after, offeredRows conf a T = before ++ after →
        DisplayOk w.pstList before (before.foldl offer (w.pstList, 0)) ∧
          ∀ r ∈ after.head?, CallOk w.pstList before r
            (writtenSlots r (min before.length SHOW_NUM)
              (before.foldl offer (w.pstList, 0)).1) := by
  obtain ⟨-, -, rfl⟩ := (writeStat_ok_iff conf a).mp h
  refine ⟨?_, ?_⟩
  · rw [visit_display, hidx, offeredRows]
  · intro before after hsplit
    have hweak := offeredRows_weakOrder conf a T
    rw [hsplit] at hweak
    exact ⟨displayOk_foldl w.pstList hweak.of_append, fun r _ => callOk_offer w.pstList before r⟩

/-- Processes `1`, `2`, … that have used these jiffies, in the order `write_stat` visits them. -/
def busyTree : List u64 → ElementType → AvlTree
  | [], _ => .nil
  | utime :: utimes, pid => .node .nil { newNode pid (-1) 0 with
      pstList := fun i => if i then { pid := pid.toBitVec, utime := utime } else {} } 0
        (busyTree utimes (pid + 1))

/-- Three levels of cpu, more rows than the list holds, the last one the busiest. -/
def busyTimes : List u64 := (List.range 41).map (fun i => BitVec.ofNat 64 (30 + i % 3)) ++ [99]

/-- What an earlier cycle has left in the list. -/
def staleList : ℕ → ProcessInfo := fun i => { pid := 7000, cpu := .fin (100 - i) }

theorem display_calls_busy :
    ∃ T' w', writeStat {} ⟨true, 0, 100, true⟩ (busyTree busyTimes 1) (.start {} staleList []) =
        .ok (T', w') ∧
      (offeredRows {} ⟨true, 0, 100, true⟩ (busyTree busyTimes 1)).length = 42 ∧
      (List.range 42).map (fun j => (w'.pstList j).pid.toNat) =
        (List.range 13).map (3 * · + 3) ++ (List.range 13).map (3 * · + 2) ++
          (List.range 14).map (3 * · + 1) ++ [7000, 7000] ∧
      ∀ before after,
        offeredRows {} ⟨true, 0, 100, true⟩ (busyTree busyTimes 1) = before ++ after →
          DisplayOk staleList before (before.foldl offer (staleList, 0)) ∧
            ∀ r ∈ after.head?, CallOk staleList before r
              (writtenSlots r (min before.length SHOW_NUM)
                (before.foldl offer (staleList, 0)).1) := by
  have hne : busyTree busyTimes 1 ≠ .nil := by
    simp [busyTimes, List.range_succ_eq_map, busyTree]
  have h := writeStat_eq {} ⟨true, 0, 100, true⟩ (w := .start {} staleList []) hne
  obtain ⟨hlist, hcalls⟩ := display_calls h rfl
  obtain ⟨hlength, hshown⟩ :
      (offeredRows {} ⟨true, 0, 100, true⟩ (busyTree busyTimes 1)).length = 42 ∧
        (List.range 42).map (fun j => (((offeredRows {} ⟨true, 0, 100, true⟩
          (busyTree busyTimes 1)).foldl offer (staleList, 0)).1 j).pid.toNat) =
        (List.range 13).map (3 * · + 3) ++ (List.range 13).map (3 * · + 2) ++
          (List.range 14).map (3 * · + 1) ++ [7000, 7000] := by decide +kernel
  refine ⟨_, _, h, hlength, Eq.trans ?_ hshown, hcalls⟩
  exact List.map_congr_left fun j _ => congrArg (fun d => (d.1 j).pid.toNat) hlist

/-! ## What the list holds after a cycle -/

/-- The list holds as many of the offered rows as fit, in descending order of
cpu, and no row left out has more cpu than one that is kept. -/
def TopListOk (pstList : ℕ → ProcessInfo) (rows : List ProcessInfo) : Prop :=
  IsTop LowerCpu ((List.range (min rows.length SHOW_NUM)).map pstList) rows

theorem topListOk_iff {conf : Conf} {inp : CycleInput} {s s' : PtopState} {out : CycleOutput}
    (h : CycleFacts conf inp s s' out) :
    TopListOk s'.pstList (offeredRows conf (cycleArgs inp s out) out.sampled) ↔
      ∀ x ∈ (offeredRows conf (cycleArgs inp s out) out.sampled).drop SHOW_NUM,
        ∀ y ∈ (offeredRows conf (cycleArgs inp s out) out.sampled).take SHOW_NUM,
          ¬ y.cpu < x.cpu := by
  have hrows : offered s.screen out.rows =
      offeredRows conf (cycleArgs inp s out) out.sampled := by
    rw [h.rows]
    rfl
  rw [TopListOk, h.display, hrows, offer_eq]
  exact isTop_foldl_offerTo LowerCpu SHOW_NUM s.pstList (offeredRows_weakOrder _ _ _)

/-- **The display list of a cycle is right iff no row offered after the list was
full has more cpu than a row offered before.** -/
theorem display_list_iff {conf : Conf} {cpuFd : List PCFile} {cs : List PtopCycle} {s : PtopState}
    (h : PtopRun conf cpuFd cs s) {c : PtopCycle} (hc : c ∈ cs) :
    TopListOk c.post.pstList
        (offeredRows conf (cycleArgs c.input c.pre c.output) c.output.sampled) ↔
      ∀ x ∈ (offeredRows conf (cycleArgs c.input c.pre c.output) c.output.sampled).drop SHOW_NUM,
        ∀ y ∈ (offeredRows conf (cycleArgs c.input c.pre c.output) c.output.sampled).take SHOW_NUM,
          ¬ y.cpu < x.cpu :=
  topListOk_iff (run_cycle h hc).2

/-- The pids below `n`. -/
def pidsBelow (n : ℕ) : List Pid :=
  (List.range n).filterMap fun i => if h : BitVec.ofNat 32 i ≠ 0 then some ⟨_, h⟩ else none

/-- One process more than the list holds; the last one is the busiest. -/
def crowd : List CycleInput :=
  [plainCycle 100 (pidsBelow 42) fun p => plainFiles { utime := if p.val = 41 then 2 else 1 } {}]

theorem exists_crowd_run :
    ∃ cs s c, PtopRun {} [] cs s ∧ cs.map Transition.input = crowd ∧ c ∈ cs := by
  obtain ⟨cs, s, hrun, hinput, hlen⟩ := exists_run_of_trace (mainLoop {}) (systemInit []) crowd
    (fun cs => cs.length = 1) (by decide +kernel)
  obtain ⟨c, rfl⟩ := List.length_eq_one_iff.mp hlen
  exact ⟨_, s, c, hrun, hinput, List.mem_singleton_self c⟩

theorem display_list_iff_crowd :
    ∃ cs s c, PtopRun {} [] cs s ∧ cs.map Transition.input = crowd ∧ c ∈ cs ∧
      (TopListOk c.post.pstList
          (offeredRows {} (cycleArgs c.input c.pre c.output) c.output.sampled) ↔
        ∀ x ∈ (offeredRows {} (cycleArgs c.input c.pre c.output) c.output.sampled).drop SHOW_NUM,
          ∀ y ∈ (offeredRows {} (cycleArgs c.input c.pre c.output) c.output.sampled).take SHOW_NUM,
            ¬ y.cpu < x.cpu) := by
  obtain ⟨cs, s, c, hrun, hinput, hc⟩ := exists_crowd_run
  exact ⟨cs, s, c, hrun, hinput, hc, display_list_iff hrun hc⟩

/-- The busiest process of a crowd is not shown. -/
theorem busiest_left_out :
    ∃ cs s c, PtopRun {} [] cs s ∧ cs.map Transition.input = crowd ∧ c ∈ cs ∧
      ¬ TopListOk c.post.pstList
        (offeredRows {} (cycleArgs c.input c.pre c.output) c.output.sampled) := by
  obtain ⟨cs, s, hrun, hinput, c, hc, x, hx, y, hy, hlt⟩ := exists_run_of_trace (mainLoop {})
    (systemInit []) crowd
    (fun cs => ∃ c ∈ cs,
      ∃ x ∈ (offeredRows {} (cycleArgs c.input c.pre c.output) c.output.sampled).drop SHOW_NUM,
      ∃ y ∈ (offeredRows {} (cycleArgs c.input c.pre c.output) c.output.sampled).take SHOW_NUM,
        y.cpu < x.cpu) (by decide +kernel)
  refine ⟨cs, s, c, hrun, hinput, hc, ?_⟩
  intro htop
  exact (topListOk_iff (run_cycle hrun hc).2).mp htop x hx y hy hlt

/-! ## How many processes are shown -/

/-- `write_process_stats` returns one less than the number of rows offered. -/
theorem cycle_amount {conf : Conf} {inp : CycleInput} {s s' : PtopState} {out : CycleOutput}
    (h : Steps (mainLoop conf) inp s s' out) :
    out.amount = ((offered s.screen out.rows).length : Int) - 1 ∧
      out.sysRow.activeProcessNum = out.amount := by
  obtain ⟨sys, pids, st, w, shown, hc, rfl, rfl⟩ := mainLoop_ok_iff.mp h
  have hscreen : (sys.writeArgs inp.ctime).screen = s.screen :=
    (sampleSystem_frame hc.cpu).screen
  have hrows := visit_rows conf (sys.writeArgs inp.ctime) st.tree.preorder
    (.start (sys.sysStats s.curr) s.pstList st.fdLog)
  have hidx := congrArg Prod.snd (visit_display conf (sys.writeArgs inp.ctime) st.tree.preorder
    (.start (sys.sysStats s.curr) s.pstList st.fdLog))
  rw [← hc.written] at hrows hidx
  have hrows : w.rows =
      st.tree.preorder.filterMap fun n => rowOf conf (sys.writeArgs inp.ctime) n.toPidEntry := hrows
  have hidx : w.idx = _ := hidx
  rw [foldl_offer_snd, ← hrows, hscreen] at hidx
  have hidx : w.idx = (offered s.screen w.rows).length := hidx.trans (Nat.zero_add _)
  refine ⟨?_, rfl⟩
  show (w.idx : Int) - 1 = _
  rw [hidx]
  rfl

theorem length_showProcStat (pstList : ℕ → ProcessInfo) (n : ℕ) :
    (showProcStat pstList ((n : Int) - 1)).length = min (n - 1) SHOW_NUM := by
  simp only [showProcStat, List.length_map, List.length_range]
  split <;> omega

/-- The count of a cycle is that of the rows offered, and as many of these are
shown as fit on the screen. -/
structure AmountExact (c : PtopCycle) : Prop where
  amount : c.output.amount = (offered c.pre.screen c.output.rows).length
  stored : c.output.sysRow.activeProcessNum = c.output.amount
  nonneg : 0 ≤ c.output.amount
  shown : (showProcStat c.post.pstList c.output.amount).length =
    min (offered c.pre.screen c.output.rows).length SHOW_NUM

/-- **The count is one too small in every cycle**, and -1 when no row is offered;
so one process too few is shown unless more are offered than fit. -/
theorem amount_never_exact {conf : Conf} {cpuFd : List PCFile} {cs : List PtopCycle}
    {s : PtopState} (h : PtopRun conf cpuFd cs s) {c : PtopCycle} (hc : c ∈ cs) :
    c.output.amount = ((offered c.pre.screen c.output.rows).length : Int) - 1 ∧
      (showProcStat c.post.pstList c.output.amount).length =
        min ((offered c.pre.screen c.output.rows).length - 1) SHOW_NUM ∧
      ¬ AmountExact c := by
  obtain ⟨before, after, rfl⟩ := List.append_of_mem hc
  obtain ⟨hamount, -⟩ := cycle_amount h.at_step.2
  refine ⟨hamount, ?_, ?_⟩
  · rw [hamount]
    exact length_showProcStat _ _
  · intro hexact
    have := hexact.amount
    omega

theorem amount_never_exact_crowd :
    ∃ cs s c, PtopRun {} [] cs s ∧ cs.map Transition.input = crowd ∧ c ∈ cs ∧
      c.output.amount = ((offered c.pre.screen c.output.rows).length : Int) - 1 ∧
      ¬ AmountExact c := by
  obtain ⟨cs, s, c, hrun, hinput, hc⟩ := exists_crowd_run
  have hwrong := amount_never_exact hrun hc
  exact ⟨cs, s, c, hrun, hinput, hc, hwrong.1, hwrong.2.2⟩

/-- One idle process: the count is -1. -/
def quietMachine : List CycleInput := [plainCycle 100 [resident] fun _ => plainFiles {} {}]

theorem amount_negative :
    ∃ cs s c, PtopRun {} [] cs s ∧ cs.map Transition.input = quietMachine ∧ c ∈ cs ∧
      c.output.amount = -1 ∧ ¬ AmountExact c := by
  obtain ⟨cs, s, hrun, hinput, c, hc, hamount⟩ := exists_run_of_trace (mainLoop {})
    (systemInit []) quietMachine (fun cs => ∃ c ∈ cs, c.output.amount = -1) (by decide +kernel)
  refine ⟨cs, s, c, hrun, hinput, hc, hamount, ?_⟩
  intro hexact
  have := hexact.nonneg
  omega

end PTop
