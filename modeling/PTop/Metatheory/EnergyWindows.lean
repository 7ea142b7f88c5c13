import PTop.Metatheory.EnergyShare

/-!
# Energy windows tile

Every query selects the rows with `now - length < time <= now` and adds up one
amount for each row it gets. Windows that meet at an end have no row in
common, and none is lost between them.
-/

namespace PTop

open Framework

section Windows

variable {L₁ L₂ now : Int}

/-- The window of length `L₁ + L₂` is the later and the earlier one. -/
theorem inWindow_add (h₁ : 0 ≤ L₁) (h₂ : 0 ≤ L₂) (t : Int) :
    inWindow (L₁ + L₂) now t = (inWindow L₂ now t || inWindow L₁ (now - L₂) t) := by
  rw [Bool.eq_iff_iff]
  simp only [inWindow, Bool.or_eq_true, Bool.and_eq_true, decide_eq_true_eq]
  constructor
  · rintro ⟨hlow, hhigh⟩
    rcases lt_or_ge (now - L₂) t with hlate | hearly
    · exact Or.inl ⟨hlate, hhigh⟩
    · refine Or.inr ⟨?_, hearly⟩
      linarith
  · rintro (⟨hlow, hhigh⟩ | ⟨hlow, hhigh⟩) <;> constructor <;> linarith

/-- What the later window selects, the earlier one does not. -/
theorem inWindow_disjoint {t : Int} (h : inWindow L₂ now t = true) :
    inWindow L₁ (now - L₂) t = false := by
  have hlate : now - L₂ < t := by
    have hwin := Bool.and_eq_true_iff.mp h
    exact of_decide_eq_true hwin.1
  rw [inWindow, decide_eq_false (not_le.mpr hlate), Bool.and_false]

variable {M : Type*} [AddCommMonoid M]

/-- **What is added up over the rows of a process tiles.** -/
theorem sum_selectProcess_add (h₁ : 0 ≤ L₁) (h₂ : 0 ≤ L₂) (db : Database) (pid : Int)
    (f : ProcessInfoRow → M) :
    ((db.selectProcess pid (L₁ + L₂) now).map f).sum =
      ((db.selectProcess pid L₂ now).map f).sum +
        ((db.selectProcess pid L₁ (now - L₂)).map f).sum := by
  apply sum_map_filter_or
  · intro p
    rw [inWindow_add h₁ h₂, Bool.and_or_distrib_left]
  · intro p hp
    rw [inWindow_disjoint (Bool.and_eq_true_iff.mp hp).2, Bool.and_false]

/-- **And so does what is added up over the rows of the machine.** -/
theorem sum_selectSystem_add (h₁ : 0 ≤ L₁) (h₂ : 0 ≤ L₂) (db : Database) (f : SysInfoRow → M) :
    ((db.selectSystem (L₁ + L₂) now).map f).sum =
      ((db.selectSystem L₂ now).map f).sum + ((db.selectSystem L₁ (now - L₂)).map f).sum := by
  apply sum_map_filter_or
  · intro s
    exact inWindow_add h₁ h₂ s.time
  · intro s hs
    exact inWindow_disjoint hs

/-- The join selects by the rows of the process alone. -/
theorem sum_selectCpu_add (h₁ : 0 ≤ L₁) (h₂ : 0 ≤ L₂) (db : Database) (pid : Int)
    (f : ProcessInfoRow × SysInfoRow → M) :
    ((db.selectCpu pid (L₁ + L₂) now).map f).sum =
      ((db.selectCpu pid L₂ now).map f).sum + ((db.selectCpu pid L₁ (now - L₂)).map f).sum := by
  simp only [Database.selectCpu, sum_map_flatMap]
  exact sum_selectProcess_add h₁ h₂ db pid _

end Windows

/-- Each energy over a window of length `L₁ + L₂` is that over the last `L₂` and
that over the `L₁` before. `cpuFloat` keeps the infinities and NaN that an empty
interval leads to. -/
structure WindowsTile (db : Database) (pid L₁ L₂ now : Int) : Prop where
  cpu : CPUEnergy db pid (L₁ + L₂) now = CPUEnergy db pid L₂ now + CPUEnergy db pid L₁ (now - L₂)
  cpuFloat : CPUEnergyFloat db pid (L₁ + L₂) now =
    CPUEnergyFloat db pid L₂ now + CPUEnergyFloat db pid L₁ (now - L₂)
  network : NtwkEnergy db pid (L₁ + L₂) now =
    NtwkEnergy db pid L₂ now + NtwkEnergy db pid L₁ (now - L₂)
  disk : DiskEnergy db pid (L₁ + L₂) now =
    DiskEnergy db pid L₂ now + DiskEnergy db pid L₁ (now - L₂)
  memory : MemoryEnergy db pid (L₁ + L₂) now =
    MemoryEnergy db pid L₂ now + MemoryEnergy db pid L₁ (now - L₂)
  ecpu : (systemEnergy db (L₁ + L₂) now).ecpu =
    (systemEnergy db L₂ now).ecpu + (systemEnergy db L₁ (now - L₂)).ecpu
  emem : (systemEnergy db (L₁ + L₂) now).emem =
    (systemEnergy db L₂ now).emem + (systemEnergy db L₁ (now - L₂)).emem
  enet : (systemEnergy db (L₁ + L₂) now).enet =
    (systemEnergy db L₂ now).enet + (systemEnergy db L₁ (now - L₂)).enet
  edisk : (systemEnergy db (L₁ + L₂) now).edisk =
    (systemEnergy db L₂ now).edisk + (systemEnergy db L₁ (now - L₂)).edisk

/-- **Energy windows tile**, for all tables. -/
theorem energy_windows_tile (db : Database) (pid now : Int) {L₁ L₂ : Int} (h₁ : 0 ≤ L₁)
    (h₂ : 0 ≤ L₂) : WindowsTile db pid L₁ L₂ now where
  cpu := sum_selectCpu_add h₁ h₂ db pid _
  cpuFloat := sum_selectCpu_add h₁ h₂ db pid joinedEnergy
  network := sum_selectProcess_add h₁ h₂ db pid _
  disk := sum_selectProcess_add h₁ h₂ db pid _
  memory := sum_selectProcess_add h₁ h₂ db pid _
  ecpu := sum_selectSystem_add h₁ h₂ db _
  emem := sum_selectSystem_add h₁ h₂ db _
  enet := sum_selectSystem_add h₁ h₂ db _
  edisk := sum_selectSystem_add h₁ h₂ db _

/-- Three rows of a process: before, at and after the meeting of two windows. -/
def boundaryRows : Database :=
  let row := fun t bytes => (⟨7, t, bytes, 0, 0, 50, bytes, 0, 0, 3⟩ : ProcessInfoRow)
  let sys := fun t bytes => (⟨t, bytes, 0, bytes, 0, 6, 3, 100, 100, 1⟩ : SysInfoRow)
  { processInfo := [row 9 4096, row 10 2048, row 11 1024]
    sysInfo := [sys 9 4096, sys 10 2048, sys 11 1024] }

theorem energy_windows_tile_boundaryRows :
    WindowsTile boundaryRows 7 3 2 12 ∧ 0 < DiskEnergy boundaryRows 7 2 12 ∧
      DiskEnergy boundaryRows 7 2 12 < DiskEnergy boundaryRows 7 3 10 := by
  refine ⟨energy_windows_tile boundaryRows 7 12 (by decide) (by decide), ?_, ?_⟩
  · decide +kernel
  · decide +kernel

end PTop
