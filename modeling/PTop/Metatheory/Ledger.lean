import PTop.Metatheory.CycleRows
import PTop.Metatheory.Displays

/-!
# The two energy tables of a session agree

A display writes the energy of the machine to one table and that of the processes on
the screen to the other. These are different processes of one cycle, and what the join
charges them for is a part of the power of the machine, display by display. So what a
session writes down about its processes is within what it writes down about the machine.
-/

namespace PTop

open Framework Framework.HTree AvlTree

/-! ## The processes on the screen -/

section Shown

variable {conf : Conf} {inp : CycleInput} {s s' : PtopState} {out : CycleOutput}

/-- **The screen shows rows of its cycle**, each at most once. -/
theorem shown_subperm (hs : TreeOk s.tree s.brk) (h : Steps (mainLoop conf) inp s s' out) :
    (showProcStat s'.pstList out.amount).Subperm out.rows := by
  obtain ⟨hamount, -⟩ := cycle_amount h
  have hkept : ((List.range (min (offered s.screen out.rows).length SHOW_NUM)).map s'.pstList).Perm
      ((offered s.screen out.rows).take SHOW_NUM) := by
    rw [(cycleFacts hs h).display, offer_eq, ← reverse_prefixRev]
    exact (List.reverse_perm _).trans (foldl_offerTo_perm LowerCpu SHOW_NUM s.pstList _)
  have hshown : (showProcStat s'.pstList out.amount).Sublist
      ((List.range (min (offered s.screen out.rows).length SHOW_NUM)).map s'.pstList) := by
    rw [showProcStat, hamount]
    refine (List.range_sublist.mpr ?_).map _
    split <;> omega
  have hoffered : ((offered s.screen out.rows).take SHOW_NUM).Sublist out.rows :=
    (List.take_sublist _ _).trans List.filter_sublist
  exact hshown.subperm.trans (hkept.subperm.trans hoffered.subperm)

theorem CycleFacts.nodup_pids (h : CycleFacts conf inp s s' out) (hs : StateOk s) :
    (out.rows.map ProcessInfo.pid).Nodup := by
  have hpids : (out.rows.map ProcessInfo.pid).map Int32.ofBitVec =
      (activeNodes (cycleArgs inp s out) out.sampled).map AvlNode.element := by
    rw [h.rows_eq_map, List.map_map, List.map_map]
    exact List.map_congr_left fun n hn => h.activeRow_key hs hn
  have hkeys : ((activeNodes (cycleArgs inp s out) out.sampled).map AvlNode.element).Nodup :=
    h.preorder_nodup.sublist (List.filter_sublist.map _)
  exact (hpids ▸ hkeys).of_map _

theorem nodup_shown_pids {cpuFd : List PCFile} {cs : List PtopCycle} {t : PtopState}
    (h : PtopRun conf cpuFd cs t) {c : PtopCycle} (hc : c ∈ cs) :
    ((showProcStat c.post.pstList c.output.amount).map fun pst => pst.pid.toInt).Nodup := by
  obtain ⟨hs, hfacts⟩ := run_cycle h hc
  obtain ⟨before, after, rfl⟩ := List.append_of_mem hc
  obtain ⟨rows, hperm, hsub⟩ := shown_subperm hs.tree h.at_step.2
  have hrows : (rows.map ProcessInfo.pid).Nodup := (hfacts.nodup_pids hs).sublist (hsub.map _)
  have hshown : ((showProcStat c.post.pstList c.output.amount).map ProcessInfo.pid).Nodup :=
    (hperm.map _).nodup_iff.mp hrows
  have hints := hshown.map (f := BitVec.toInt) fun _ _ => BitVec.eq_of_toInt_eq
  rwa [List.map_map] at hints

end Shown

/-! ## The energy of the CPU is a number -/

theorem joinedEnergy_eq_fin {row : ProcessInfoRow × SysInfoRow} (h : atoiU32 row.2.itv ≠ 0) :
    joinedEnergy row = .fin (rowEnergy row) := by
  have hitv : (atoiU32 row.2.itv : ℚ) ≠ 0 := Nat.cast_ne_zero.mpr h
  have hdiv : XFloat.ofNat (atoiU32 row.2.runtime) / .ofNat (atoiU32 row.2.itv) =
      .fin ((atoiU32 row.2.runtime : ℚ) / atoiU32 row.2.itv) := XFloat.fin_div_fin _ hitv
  rw [joinedEnergy, hdiv, XFloat.fin_mul_fin, XFloat.fin_mul_fin,
    XFloat.fin_div_fin _ (by norm_num : (100 : ℚ) ≠ 0)]
  rfl

/-- Where no interval is empty, the energy of a process is a number. -/
theorem CPUEnergyFloat_eq {db : Database} (h : ∀ r ∈ db.sysInfo, atoiU32 r.itv ≠ 0)
    (pid length now : Int) :
    CPUEnergyFloat db pid length now = .fin (CPUEnergy db pid length now) := by
  have hrow : ∀ row ∈ db.selectCpu pid length now,
      joinedEnergy row = XFloat.finHom (rowEnergy row) := by
    intro row hrow
    obtain ⟨p, -, hrow⟩ := List.mem_flatMap.mp hrow
    obtain ⟨r, hr, rfl⟩ := List.mem_map.mp hrow
    exact joinedEnergy_eq_fin (h r (List.mem_of_mem_filter hr))
  exact sum_map_hom XFloat.finHom hrow

theorem SoundRow.itv_ne_zero {r : SysInfoRow} (h : SoundRow r) : atoiU32 r.itv ≠ 0 := by
  have hpos := h.itv_pos
  have hlt := h.itv_lt
  intro hzero
  rw [atoiU32, BitVec.toNat_ofInt] at hzero
  omega

/-! ## One display -/

section Display

variable {conf : Conf} {interval : Int} {cpuFd : List PCFile} {s : PtopState}

/-- The tables that a pass asks are accounted for. -/
theorem accounted_queryDb {cs : List PtopCycle} (h : PtopRun conf cpuFd cs s)
    (hdistinct : (cs.map fun c => c.output.sysRow.time).Nodup)
    (hshared : ∀ c ∈ cs, ∃ ds, SharedAs c.output ds) {c : PtopCycle} (hc : c ∈ cs) :
    ∃ stamps, Accounted stamps (queryDb c) := by
  obtain ⟨ds, hds⟩ := hshared c hc
  obtain ⟨before, after, rfl⟩ := List.append_of_mem hc
  obtain ⟨hrun, hstep⟩ := h.at_step
  rw [List.map_append, List.nodup_append] at hdistinct
  have hacc := run_accounted hrun hdistinct.1 fun d hd => hshared d (List.mem_append_left _ hd)
  rw [queryDb_eq]
  refine ⟨_, hacc.insert hds (insertedRows_time (run_stateOk hrun) hstep) fun hmem => ?_⟩
  exact hdistinct.2.2 _ hmem _ (by simp) rfl

/-- **What a display writes down about its processes** is within what it writes down about
the machine. -/
theorem display_within {c : Pass} {stamps : List u32} (hacc : Accounted stamps (queryDb c.cycle))
    (hpids : ((showProcStat c.post.pstList c.output.cycle.amount).map
      fun pst => pst.pid.toInt).Nodup) :
    ((c.screen interval).rows.map ProcessEnergyRow.ecpu).sum ≤ (c.screen interval).device.ecpu := by
  have hitv : ∀ r ∈ (queryDb c.cycle).sysInfo, atoiU32 r.itv ≠ 0 := fun r hr =>
    (hacc.covered r hr).toSoundRow.itv_ne_zero
  obtain ⟨kept, hsub, hrows⟩ : ∃ kept : List ProcessInfo,
      kept.Sublist (showProcStat c.post.pstList c.output.cycle.amount) ∧
      (c.screen interval).rows.map ProcessEnergyRow.ecpu = (kept.map fun pst => pst.pid.toInt).map
        fun pid => CPUEnergy (queryDb c.cycle) pid interval c.input.ctime := by
    refine ⟨(showProcStat c.post.pstList c.output.cycle.amount).filter fun pst =>
      (energyLine (queryDb c.cycle) interval c.input.ctime (c.screen interval).device
        pst).floats.all XFloat.isFinite, List.filter_sublist, ?_⟩
    rw [EnergyScreen.rows, Pass.screen]
    simp only [energyScreen, List.filter_map, List.map_map]
    apply List.map_congr_left
    intro pst _
    show (CPUEnergyFloat (queryDb c.cycle) pst.pid.toInt interval c.input.ctime).toRat = _
    rw [CPUEnergyFloat_eq hitv]
    rfl
  rw [hrows, ← List.sum_toFinset _ (hpids.sublist (hsub.map _))]
  exact sum_CPUEnergy_le hacc.nonneg hacc.covered _ _ _

end Display

/-- **What a session writes down about its processes is within what it writes down about the
machine**: the energies of the CPU in the rows it adds to `process_energy` sum up to no more
than those in the rows it adds to `device_energy`. -/
theorem displays_within_machine {conf : Conf} {interval : Int} {cpuFd : List PCFile}
    {init clean : Int × Int} {db : Database} {energies e : EnergyTables} {cs : List Pass}
    (h : SessionRun conf interval (programStart interval cpuFd init clean db energies) cs e)
    (hold : OlderThan init clean db)
    (hdistinct : (cs.map fun c => c.output.cycle.sysRow.time).Nodup)
    (hshared : ∀ c ∈ cs, ∃ ds, SharedAs c.output.cycle ds) :
    ∃ rows rows', e.deviceEnergy = energies.deviceEnergy ++ rows ∧
      e.processEnergy = energies.processEnergy ++ rows' ∧
      (rows'.map ProcessEnergyRow.ecpu).sum ≤ (rows.map DeviceEnergyRow.ecpu).sum := by
  obtain ⟨hdevice, hprocess⟩ := session_energies h
  obtain ⟨s, hprogram, -⟩ := h.exists_run
  have hrun := session_run hprogram hold
  refine ⟨_, _, hdevice, hprocess, ?_⟩
  rw [sum_map_flatMap, List.map_map]
  refine List.sum_le_sum fun c hc => ?_
  have hmem : c.cycle ∈ cs.map Pass.cycle := List.mem_map_of_mem (mem_drawing hc)
  have hcycles : ∀ d ∈ cs.map Pass.cycle, ∃ ds, SharedAs d.output ds := by
    intro d hd
    obtain ⟨e, he, rfl⟩ := List.mem_map.mp hd
    exact hshared e he
  obtain ⟨stamps, hacc⟩ := accounted_queryDb hrun (by rwa [List.map_map]) hcycles hmem
  exact display_within hacc (nodup_shown_pids hrun hmem)

theorem displays_within_machine_metered :
    ∃ cs e, SessionRun { cpufreqStats := true } 1 (programStart 1 [] (99, 99) (99, 99) {} {}) cs e ∧
      cs.map Transition.input = meteredSeconds ++ [meteredLast.carriedOn] ∧
      (drawing cs).map (fun c => (c.screen 1).rows.length) = [1, 1] ∧
      ∃ rows rows', e.deviceEnergy = [] ++ rows ∧ e.processEnergy = [] ++ rows' ∧
        (rows'.map ProcessEnergyRow.ecpu).sum ≤ (rows.map DeviceEnergyRow.ecpu).sum := by
  obtain ⟨cs, e, hsession, hinput, hlines, -, hdistinct, hshared, -⟩ := metered_session
  exact ⟨cs, e, hsession, hinput, hlines, displays_within_machine hsession (by decide) hdistinct
    fun d hd => (hshared d hd).imp fun ds h => h.2⟩

end PTop
