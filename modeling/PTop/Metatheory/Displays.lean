import PTop.Metatheory.DisplayList
import PTop.Metatheory.Sessions
import PTop.Metatheory.TableBounds

/-!
# What the displays of a session write down

Every third pass draws the screen, as long as standard output is a terminal, and
writes the energies it shows to two tables that nothing ever purges. A display
asks for the samples of the last `interval` seconds, so what reaches the tables is
decided by how the displays follow each other.
-/

namespace PTop

open Framework Framework.HTree AvlTree

/-- Four seconds; the display has its turn in the third. -/
def fourSeconds : List PassInput :=
  let files := fun (utime : u64) (_ : Pid) => plainFiles { utime := utime } {}
  [plainPass 100 100 [resident, visitor] (files 30), plainPass 101 200 [resident, visitor] (files 60),
    plainPass 102 300 [resident, visitor] (files 90), plainPass 103 400 [resident] (files 99)]

section Runs

variable {conf : Conf} {interval : Int} {s₀ s : ProgramState} {cs : List Pass} {e : EnergyTables}

/-! ## The energy tables of a run -/

/-- The passes of a run that draw the screen. -/
def drawing (cs : List Pass) : List Pass := cs.filter fun c => c.Draws

theorem drawing_snoc (cs : List Pass) (c : Pass) :
    drawing (cs ++ [c]) = drawing cs ++ if c.Draws then [c] else [] := by
  rw [drawing, drawing, List.filter_append, List.filter_singleton]
  by_cases h : c.Draws <;> simp [h]

/-- **The energy tables of a run** hold one row of the machine for each display, and a row
for each line of it that is finite. -/
theorem run_energies (h : ProgramRun conf interval s₀ cs s) : s.energies =
    { deviceEnergy := s₀.energies.deviceEnergy ++
        (drawing cs).map fun c => (c.screen interval).device.toRow
      processEnergy := s₀.energies.processEnergy ++
        (drawing cs).flatMap fun c => (c.screen interval).rows } := by
  induction h with
  | init => simp [drawing]
  | @step cs s inp s' out hrun hstep ih =>
      have hf := pass_ok hstep
      rw [drawing_snoc]
      by_cases hdraws : Pass.Draws ⟨s, inp, s', out⟩
      · have henergies := (hf.drawn hdraws).1
        rw [if_pos hdraws, List.map_append, List.flatMap_append, List.map_singleton,
          List.flatMap_singleton, ← List.append_assoc, ← List.append_assoc]
        rw [ih, persist_eq] at henergies
        exact henergies
      · have henergies := (hf.undrawn hdraws).1
        rw [if_neg hdraws, List.append_nil]
        exact henergies.trans ih

/-- The energy tables of a session. -/
theorem session_energies (h : SessionRun conf interval s₀ cs e) :
    e.deviceEnergy = s₀.energies.deviceEnergy ++
        (drawing cs).map (fun c => (c.screen interval).device.toRow) ∧
      e.processEnergy = s₀.energies.processEnergy ++
        (drawing cs).flatMap fun c => (c.screen interval).rows := by
  obtain ⟨s, hrun, rfl⟩ := h.exists_run
  rw [run_energies hrun]
  exact ⟨rfl, rfl⟩

theorem length_screen_lines (interval : Int) (c : Pass) :
    (c.screen interval).lines.length ≤ SHOW_NUM := by
  have hlen : (c.screen interval).lines.length =
      (showProcStat c.post.pstList c.output.cycle.amount).length := List.length_map ..
  rw [hlen, showProcStat, List.length_map, List.length_range]
  split <;> omega

theorem length_screen_rows (interval : Int) (c : Pass) :
    (c.screen interval).rows.length ≤ SHOW_NUM := by
  rw [EnergyScreen.rows, List.length_map]
  exact (List.length_filter_le ..).trans (length_screen_lines interval c)

/-! ## How often a run draws -/

theorem run_cycle_count (h : ProgramRun conf interval s₀ cs s) : s.cycle = s₀.cycle + cs.length := by
  have hcount := run_count (programRun_cycles h)
  rwa [List.length_map] at hcount

/-- The turn of the display among the first `n + 1` passes. -/
theorem succ_div_three (n : ℕ) : (n + 1) / 3 = n / 3 + if (n + 1) % 3 = 0 then 1 else 0 := by
  split <;> omega

theorem length_drawing_le (h : ProgramRun conf interval s₀ cs s) (h₀ : s₀.cycle = 1) :
    (drawing cs).length ≤ cs.length / 3 := by
  induction h with
  | init => exact Nat.zero_le _
  | @step cs s inp s' out hrun hstep ih =>
      have hcycle : s.cycle = cs.length + 1 := by
        rw [run_cycle_count hrun, h₀, Nat.add_comm]
      rw [drawing_snoc, List.length_append, List.length_append, List.length_singleton,
        succ_div_three]
      refine Nat.add_le_add ih ?_
      by_cases hdraws : Pass.Draws ⟨s, inp, s', out⟩
      · have hturn : (cs.length + 1) % 3 = 0 := hcycle ▸ hdraws.2.1
        rw [if_pos hdraws, if_pos hturn]
        exact le_refl _
      · rw [if_neg hdraws]
        exact Nat.zero_le _

/-- **The energy tables only grow, and by how much.** After `n` passes of a session they
have at most `n / 3` and `40 * (n / 3)` rows more than it found, the pass that ends it
included. -/
theorem session_ledger {cpuFd : List PCFile} {init clean : Int × Int} {db : Database}
    {energies : EnergyTables}
    (h : SessionRun conf interval (programStart interval cpuFd init clean db energies) cs e) :
    ∃ rows rows', e.deviceEnergy = energies.deviceEnergy ++ rows ∧
      e.processEnergy = energies.processEnergy ++ rows' ∧
      rows.length ≤ cs.length / 3 ∧ rows'.length ≤ SHOW_NUM * (cs.length / 3) := by
  obtain ⟨hdevice, hprocess⟩ := session_energies h
  obtain ⟨s, hrun, -⟩ := h.exists_run
  have hlen := length_drawing_le hrun rfl
  refine ⟨_, _, hdevice, hprocess, ?_, ?_⟩
  · rw [List.length_map]
    exact hlen
  · rw [List.length_flatMap]
    have hsum := List.sum_le_card_nsmul ((drawing cs).map fun c => (c.screen interval).rows.length)
      SHOW_NUM (by
        intro n hn
        obtain ⟨c, -, rfl⟩ := List.mem_map.mp hn
        exact length_screen_rows interval c)
    rw [List.length_map, smul_eq_mul, Nat.mul_comm] at hsum
    exact hsum.trans (Nat.mul_le_mul_left _ hlen)

end Runs

/-- A second of a machine with a frequency table, at work all the time. -/
def meteredSecond (n : ℕ) : PassInput :=
  { plainPass (99 + n) (BitVec.ofNat 64 (100 * n)) [resident, visitor]
      fun _ => plainFiles { utime := BitVec.ofNat 64 (30 * n) } {} with
    cpufreq := some [some [(2000, 50 * n), (1000, 50 * n)]] }

def meteredSeconds : List PassInput := [1, 2, 3, 4, 5].map meteredSecond

/-- The user leaves at the second display. -/
def meteredLast : PassInput := { meteredSecond 6 with term := { lastchar := some MQUIT } }

/-- That session: both displays show energies of the machine and of one process. -/
theorem metered_session : ∃ cs e,
    SessionRun { cpufreqStats := true } 1 (programStart 1 [] (99, 99) (99, 99) {} {}) cs e ∧
      cs.map Transition.input = meteredSeconds ++ [meteredLast.carriedOn] ∧
      (drawing cs).map (fun c => (c.screen 1).rows.length) = [1, 1] ∧
      (∀ c ∈ drawing cs, 0 < (c.screen 1).device.ecpu) ∧
      (cs.map fun c => c.output.cycle.sysRow.time).Nodup ∧
      (∀ c ∈ cs, ∃ ds ∈ [[30, 30]], SharedAs c.output.cycle ds) ∧
      (∀ c ∈ cs, 0 ≤ c.input.ctime ∧ c.input.ctime < 2 ^ 32) ∧
      cs.Pairwise fun c d => c.input.ctime + 1 ≤ d.input.ctime :=
  SessionRun.of_trace { cpufreqStats := true } 1 (programStart 1 [] (99, 99) (99, 99) {} {})
    meteredSeconds meteredLast
    (fun cs => (drawing cs).map (fun c => (c.screen 1).rows.length) = [1, 1] ∧
      (∀ c ∈ drawing cs, 0 < (c.screen 1).device.ecpu) ∧
      (cs.map fun c => c.output.cycle.sysRow.time).Nodup ∧
      (∀ c ∈ cs, ∃ ds ∈ [[30, 30]], SharedAs c.output.cycle ds) ∧
      (∀ c ∈ cs, 0 ≤ c.input.ctime ∧ c.input.ctime < 2 ^ 32) ∧
      cs.Pairwise fun c d => c.input.ctime + 1 ≤ d.input.ctime) (by decide +kernel)

theorem session_ledger_metered :
    ∃ cs e, SessionRun { cpufreqStats := true } 1 (programStart 1 [] (99, 99) (99, 99) {} {}) cs e ∧
      cs.map Transition.input = meteredSeconds ++ [meteredLast.carriedOn] ∧
      (drawing cs).length = 2 ∧
      ∃ rows rows', e.deviceEnergy = [] ++ rows ∧ e.processEnergy = [] ++ rows' ∧
        rows.length ≤ cs.length / 3 ∧ rows'.length ≤ SHOW_NUM * (cs.length / 3) := by
  obtain ⟨cs, e, hsession, hinput, hlines, -⟩ := metered_session
  have hdraws : (drawing cs).length = 2 := by
    have hlen := congrArg List.length hlines
    rwa [List.length_map] at hlen
  exact ⟨cs, e, hsession, hinput, hdraws, session_ledger hsession⟩

/-! ## What the rows of the machine add up to -/

/-- The energy of one sample. -/
def sampleEnergy (row : SysInfoRow) : DeviceEnergy := systemEnergy { sysInfo := [row] } 1 row.time

def totalEnergy (es : List DeviceEnergy) : DeviceEnergy where
  ecpu := (es.map DeviceEnergy.ecpu).sum
  emem := (es.map DeviceEnergy.emem).sum
  enet := (es.map DeviceEnergy.enet).sum
  edisk := (es.map DeviceEnergy.edisk).sum

theorem selectSystem_singleton (row : SysInfoRow) :
    Database.selectSystem { sysInfo := [row] } 1 row.time = [row] := by
  simp [Database.selectSystem, inWindow]

/-- `systemEnergy` adds up the energies of the samples it selects. -/
theorem systemEnergy_eq_total (db : Database) (length now : Int) : systemEnergy db length now =
    totalEnergy ((db.selectSystem length now).map sampleEnergy) := by
  rw [systemEnergy, totalEnergy, DeviceEnergy.mk.injEq]
  simp only [List.map_map, Function.comp_def, sampleEnergy, systemEnergy, selectSystem_singleton,
    List.map_singleton, List.sum_singleton, and_self]

theorem totalEnergy_perm {es es' : List DeviceEnergy} (h : es.Perm es') :
    totalEnergy es = totalEnergy es' := by
  rw [totalEnergy, totalEnergy, (h.map _).sum_eq, (h.map _).sum_eq, (h.map _).sum_eq,
    (h.map _).sum_eq]

theorem totalEnergy_flatMap {α : Type} (f : α → List DeviceEnergy) (xs : List α) :
    totalEnergy (xs.flatMap f) = totalEnergy (xs.map fun x => totalEnergy (f x)) := by
  simp only [totalEnergy, List.map_map, Function.comp_def, sum_map_flatMap]

/-! ## No sample is counted twice -/

section Windows

variable {conf : Conf} {interval : Int} {cpuFd : List PCFile} {cs : List Pass} {s : PtopState}

/-- The sample of a pass. -/
def Pass.sample (c : Pass) : SysInfoRow := c.output.cycle.sysRow.toRow

theorem mem_drawing {c : Pass} (h : c ∈ drawing cs) : c ∈ cs := List.mem_of_mem_filter h

/-- The queries of a pass find its own sample last, after earlier ones of the run. -/
theorem queryDb_sysInfo {before after : List Pass} {c : Pass}
    (h : PtopRun conf cpuFd ((before ++ c :: after).map Pass.cycle) s) :
    ∃ A, A.Sublist (before.map Pass.sample) ∧ (queryDb c.cycle).sysInfo = A ++ [c.sample] := by
  rw [List.map_append, List.map_cons] at h
  have htables := (run_tables h.at_step.1).2
  have hsub := tableAfter_sublist SysInfoRow.time ((before.map Pass.cycle).map sysStep)
  rw [← htables, everInserted_sysStep, List.map_map] at hsub
  exact ⟨_, hsub, by rw [queryDb_eq]; rfl⟩

theorem screen_device_eq (interval : Int) (c : Pass) : (c.screen interval).device =
    totalEnergy (((queryDb c.cycle).selectSystem interval c.input.ctime).map sampleEnergy) :=
  systemEnergy_eq_total ..

theorem inWindow_after {now now' t : Int} (h : now + interval ≤ now')
    (ht : inWindow interval now t = true) : inWindow interval now' t = false := by
  rw [inWindow, Bool.and_eq_true, decide_eq_true_eq, decide_eq_true_eq] at ht
  rw [inWindow, Bool.and_eq_false_iff, decide_eq_false_iff_not]
  left
  omega

end Windows

/-- **No sample is counted twice** in `device_energy` when the displays of a session are at
least the sample interval apart: the rows it adds are those of its displays, and these add up
to the energies of some of its samples. -/
theorem samples_counted_once {conf : Conf} {interval : Int} {cpuFd : List PCFile}
    {init clean : Int × Int} {db : Database} {energies e : EnergyTables} {cs : List Pass}
    (h : SessionRun conf interval (programStart interval cpuFd init clean db energies) cs e)
    (hold : OlderThan init clean db)
    (hapart : (drawing cs).Pairwise fun c d => c.input.ctime + interval ≤ d.input.ctime) :
    e.deviceEnergy = energies.deviceEnergy ++
        (drawing cs).map (fun c => (c.screen interval).device.toRow) ∧
      ∃ ds : List Pass, ds.Sublist cs ∧
        totalEnergy ((drawing cs).map fun c => (c.screen interval).device) =
          totalEnergy (ds.map fun c => sampleEnergy c.sample) := by
  refine ⟨(session_energies h).1, ?_⟩
  obtain ⟨s, hprogram, -⟩ := h.exists_run
  have hrun := session_run hprogram hold
  have hread : ((drawing cs).flatMap fun c =>
      (queryDb c.cycle).selectSystem interval c.input.ctime).Subperm (cs.map Pass.sample) := by
    apply flatMap_subperm_of_disjoint
      (W := fun c r => inWindow interval c.input.ctime r.time)
    · intro c hc
      obtain ⟨before, after, rfl⟩ := List.append_of_mem (mem_drawing hc)
      obtain ⟨A, hA, hquery⟩ := queryDb_sysInfo hrun
      have hbefore : (before ++ [c]).Sublist (before ++ c :: after) := by simp
      have hsub : (A ++ [c.sample]).Sublist ((before ++ [c]).map Pass.sample) := by
        rw [List.map_append, List.map_singleton]
        exact hA.append (.refl _)
      rw [← hquery] at hsub
      exact (hsub.trans (hbefore.map _)).filter _
    · exact hapart.imp fun hcd r hr => inWindow_after hcd hr
  obtain ⟨rows, hperm, hsub⟩ := hread
  obtain ⟨ds, hds, rfl⟩ := List.sublist_map_iff.mp hsub
  refine ⟨ds, hds, ?_⟩
  have htotal := totalEnergy_perm (hperm.map sampleEnergy)
  rw [List.map_map, List.map_flatMap, totalEnergy_flatMap] at htotal
  simp only [screen_device_eq]
  exact htotal.symm

/-- Each display finds two of six samples. -/
theorem samples_counted_once_metered :
    ∃ cs e, SessionRun { cpufreqStats := true } 2 (programStart 2 [] (99, 99) (99, 99) {} {}) cs e ∧
      cs.map Transition.input = meteredSeconds ++ [meteredLast.carriedOn] ∧
      (drawing cs).length = 2 ∧
      (∀ c ∈ drawing cs, ((queryDb c.cycle).selectSystem 2 c.input.ctime).length = 2 ∧
        0 < (c.screen 2).device.ecpu) ∧
      ∃ ds : List Pass, ds.Sublist cs ∧
        totalEnergy ((drawing cs).map fun c => (c.screen 2).device) =
          totalEnergy (ds.map fun c => sampleEnergy c.sample) := by
  obtain ⟨cs, e, hsession, hinput, hcount, hfound, hapart⟩ := SessionRun.of_trace
    { cpufreqStats := true } 2 (programStart 2 [] (99, 99) (99, 99) {} {}) meteredSeconds
    meteredLast
    (fun cs => (drawing cs).length = 2 ∧
      (∀ c ∈ drawing cs, ((queryDb c.cycle).selectSystem 2 c.input.ctime).length = 2 ∧
        0 < (c.screen 2).device.ecpu) ∧
      (drawing cs).Pairwise fun c d => c.input.ctime + 2 ≤ d.input.ctime) (by decide +kernel)
  exact ⟨cs, e, hsession, hinput, hcount, hfound,
    (samples_counted_once hsession (by decide) hapart).2⟩

/-- A window with one row. -/
theorem totalEnergy_singleton (e : DeviceEnergy) : totalEnergy [e] = e := by
  simp [totalEnergy]

/-- **At the pace of the alarm only every third sample is written down**: a display finds no
sample but that of its own pass. -/
theorem every_third_sample {conf : Conf} {interval : Int} {cpuFd : List PCFile}
    {init clean : Int × Int} {db : Database} {energies e : EnergyTables} {cs : List Pass}
    (h : SessionRun conf interval (programStart interval cpuFd init clean db energies) cs e)
    (hold : OlderThan init clean db) (hinterval : 0 < interval)
    (hpace : cs.Pairwise fun c d => c.input.ctime + interval ≤ d.input.ctime)
    (hclock : ∀ c ∈ cs, 0 ≤ c.input.ctime ∧ c.input.ctime < 2 ^ 32) :
    e.deviceEnergy = energies.deviceEnergy ++
        (drawing cs).map (fun c => (sampleEnergy c.sample).toRow) ∧
      (drawing cs).length ≤ cs.length / 3 := by
  obtain ⟨s, hprogram, -⟩ := h.exists_run
  have hrun := session_run hprogram hold
  have htime : ∀ c ∈ cs, c.sample.time = c.input.ctime := by
    intro c hc
    have hstamp := sysRow_stamp hrun (List.mem_map_of_mem hc)
    exact hstamp.trans (stamp_of_range (hclock c hc))
  have hown : ∀ c ∈ drawing cs, (c.screen interval).device = sampleEnergy c.sample := by
    intro c hc
    obtain ⟨before, after, rfl⟩ := List.append_of_mem (mem_drawing hc)
    obtain ⟨A, hA, hquery⟩ := queryDb_sysInfo hrun
    -- the window opens after the pass before, and closes with this one
    have hearlier : A.filter (fun r => inWindow interval c.input.ctime r.time) = [] := by
      rw [List.filter_eq_nil_iff]
      intro r hr
      obtain ⟨d, hd, rfl⟩ := List.mem_map.mp (hA.subset hr)
      have hgap := (List.pairwise_append.mp hpace).2.2 d hd c List.mem_cons_self
      rw [htime d (List.mem_append_left _ hd), inWindow, Bool.and_eq_true, decide_eq_true_eq]
      omega
    have hlast : inWindow interval c.input.ctime c.sample.time = true := by
      rw [htime c (by simp), inWindow, Bool.and_eq_true, decide_eq_true_eq, decide_eq_true_eq]
      omega
    rw [screen_device_eq, Database.selectSystem, hquery, List.filter_append, hearlier,
      List.filter_singleton, hlast]
    exact totalEnergy_singleton _
  refine ⟨?_, length_drawing_le hprogram rfl⟩
  have hrows : (drawing cs).map (fun c => (c.screen interval).device.toRow) =
      (drawing cs).map fun c => (sampleEnergy c.sample).toRow := by
    apply List.map_congr_left
    intro c hc
    rw [hown c hc]
  rw [← hrows]
  exact (session_energies h).1

theorem every_third_sample_metered :
    ∃ cs e, SessionRun { cpufreqStats := true } 1 (programStart 1 [] (99, 99) (99, 99) {} {}) cs e ∧
      cs.map Transition.input = meteredSeconds ++ [meteredLast.carriedOn] ∧
      (drawing cs).map (fun c => (c.screen 1).rows.length) = [1, 1] ∧
      (∀ c ∈ drawing cs, 0 < (c.screen 1).device.ecpu) ∧
      e.deviceEnergy = [] ++ (drawing cs).map fun c => (sampleEnergy c.sample).toRow := by
  obtain ⟨cs, e, hsession, hinput, hlines, hpositive, -, -, hclock, hpace⟩ := metered_session
  exact ⟨cs, e, hsession, hinput, hlines, hpositive,
    (every_third_sample hsession (by decide) (by decide) hpace hclock).1⟩

/-! ## Without a terminal -/

theorem showStage_screen {inp : CycleInput} {s s' : SysState} (h : showStage inp s = .ok s') :
    s'.screen = true ↔ s.screen = true ∧ (s.cycle % 3 = 0 → inp.isatty = true) := by
  unfold showStage at h
  split at h
  · rename_i hturn
    obtain ⟨hscreen, hcycle⟩ := Bool.and_eq_true_iff.mp hturn
    split at h
    · cases h
    · cases h
      exact ⟨fun htty => ⟨hscreen, fun _ => htty⟩, fun hboth => hboth.2 (of_decide_eq_true hcycle)⟩
  · rename_i hturn
    cases h
    refine ⟨fun hscreen => ⟨hscreen, fun hcycle => ?_⟩, fun hboth => hboth.1⟩
    exact absurd (by simp [hscreen, hcycle]) hturn

theorem offered_off (rows : List ProcessInfo) : offered false rows = [] :=
  List.filter_eq_nil_iff.mpr fun _ _ => Bool.false_ne_true

section Headless

variable {conf : Conf} {interval : Int} {s₀ s t : ProgramState} {cs before after : List Pass}

theorem pass_screen {inp : PassInput} {s s' : ProgramState} {out : PassOutput}
    (h : Steps (pass conf interval) inp s s' out) : s'.screen = true ↔
      s.screen = true ∧ (s.cycle % 3 = 0 → inp.term.isatty = true) := by
  obtain ⟨sys, pids, st, w, shown, hc, hs', -⟩ := mainLoop_ok_iff.mp (pass_step h)
  have hframe := sampleSystem_frame hc.cpu
  have hscreen : s'.screen = shown.screen := congrArg (fun t => t.screen) hs'
  have hshown := showStage_screen hc.shown
  have hsame : (writeSystemStats inp.cycle.ctime w.amount (sys.addTotals w)).1.screen = s.screen :=
    hframe.screen
  have hcount : (writeSystemStats inp.cycle.ctime w.amount (sys.addTotals w)).1.cycle = s.cycle :=
    hframe.cycle
  rw [hscreen, hshown, hsame, hcount]
  rfl

/-- What a pass does while the display is off. -/
theorem pass_headless {inp : PassInput} {s s' : ProgramState} {out : PassOutput}
    (h : Steps (pass conf interval) inp s s' out) (hoff : s.screen = false) :
    s'.screen = false ∧ s'.pstList = s.pstList ∧ s'.energies = s.energies ∧
      out.cycle.amount = -1 ∧ out.cycle.sysRow.activeProcessNum = -1 ∧ out.display = none := by
  have hundrawn : ¬ Pass.Draws ⟨s, inp, s', out⟩ := by
    intro hdraws
    exact absurd (hdraws.1.symm.trans hoff) (by decide)
  obtain ⟨henergies, hdisplay, -⟩ := (pass_ok h).undrawn hundrawn
  have hscreen : s'.screen = false := by
    rw [← Bool.not_eq_true, pass_screen h, hoff]
    exact fun hboth => absurd hboth.1 (by decide)
  obtain ⟨hamount, hstored⟩ := cycle_amount (pass_step h)
  have hminus : out.cycle.amount = -1 := by
    have hlen : out.cycle.amount = ((offered s.screen out.cycle.rows).length : Int) - 1 := hamount
    rw [hlen, hoff, offered_off]
    rfl
  refine ⟨hscreen, ?_, henergies, hminus, hstored.trans hminus, hdisplay⟩
  obtain ⟨sys, pids, st, w, shown, hc, hs', -⟩ := mainLoop_ok_iff.mp (pass_step h)
  have hlist : s'.pstList = w.pstList := congrArg PtopState.pstList hs'
  have hvisit := visit_display conf (sys.writeArgs inp.cycle.ctime) st.tree.preorder
    (.start (sys.sysStats s.curr) s.pstList st.fdLog)
  have hargs : (sys.writeArgs inp.cycle.ctime).screen = false :=
    (sampleSystem_frame hc.cpu).screen.trans hoff
  have hw : w = visit conf (sys.writeArgs inp.cycle.ctime)
    (.start (sys.sysStats s.curr) s.pstList st.fdLog) st.tree.preorder := hc.written
  rw [hargs, offered_off, ← hw] at hvisit
  exact hlist.trans (congrArg Prod.fst hvisit)

/-- **The display goes off for good at the first turn without a terminal**, and from then on
the list of processes and the energy tables stand still and the count is -1. -/
theorem session_headless (h : ProgramRun conf interval s₀ (before ++ after) s)
    (ht : ProgramRun conf interval s₀ before t) (h₀ : s₀.screen = true) :
    (t.screen = true ↔ ∀ c ∈ before, c.pre.cycle % 3 = 0 → c.input.term.isatty = true) ∧
      (t.screen = false → s.screen = false ∧ s.pstList = t.pstList ∧ s.energies = t.energies ∧
        ∀ c ∈ after, c.output.cycle.amount = -1 ∧
          c.output.cycle.sysRow.activeProcessNum = -1 ∧ c.output.display = none) := by
  constructor
  · clear h
    induction ht with
    | init => simp [h₀]
    | @step before t inp t' out _ hstep ih =>
        rw [pass_screen hstep, ih]
        simp [or_imp, forall_and]
  · intro hoff
    induction after using List.reverseRecOn generalizing s with
    | nil =>
        rw [List.append_nil] at h
        cases h.state_unique ht
        exact ⟨hoff, rfl, rfl, by simp⟩
    | append_singleton after c ih =>
        rw [← List.append_assoc] at h
        obtain ⟨hrun, hstep, rfl⟩ := h.snoc_inv
        obtain ⟨hscreen, hlist, henergies, hall⟩ := ih hrun
        obtain ⟨hscreen', hlist', henergies', hpass⟩ := pass_headless hstep hscreen
        refine ⟨hscreen', hlist'.trans hlist, henergies'.trans henergies, ?_⟩
        intro d hd
        rcases List.mem_append.mp hd with hd | hd
        · exact hall d hd
        · rw [List.mem_singleton.mp hd]
          exact hpass

end Headless

/-- The same seconds with the output in a file. -/
def redirected : List PassInput :=
  fourSeconds.map fun inp => { inp with term := { isatty := false } }

theorem session_headless_redirected :
    ∃ before after s, ProgramRun {} 1 (programStart 1 [] (99, 99) (99, 99) {} {}) (before ++ after) s ∧
      (before ++ after).map Transition.input = redirected ∧ after ≠ [] ∧
      ∀ c ∈ after, c.output.cycle.amount = -1 := by
  obtain ⟨cs, s, hrun, hinput, hlen, c, hc, hoff⟩ := exists_run_of_trace (pass {} 1)
    (programStart 1 [] (99, 99) (99, 99) {} {}) redirected
    (fun cs => cs.length = 4 ∧ ∃ c ∈ (cs.take 3).getLast?, c.post.screen = false)
    (by decide +kernel)
  obtain ⟨before, hbefore⟩ := List.getLast?_eq_some_iff.mp hc
  have hsplit : cs = (before ++ [c]) ++ cs.drop 3 := by rw [← hbefore, List.take_append_drop]
  have hdrop : cs.drop 3 ≠ [] := by
    intro hnil
    have hshort := congrArg List.length hnil
    rw [List.length_drop, hlen] at hshort
    cases hshort
  rw [hsplit] at hrun hinput
  obtain ⟨t, ht⟩ := hrun.of_append
  have htc : t = c.post := ht.snoc_inv.2.2
  have hall := (session_headless hrun ht rfl).2 (htc ▸ hoff)
  exact ⟨before ++ [c], cs.drop 3, s, hrun, hinput, hdrop, fun d hd => (hall.2.2.2 d hd).1⟩

end PTop
