import PTop.Framework.Truncation
import PTop.Metatheory.EnergyShare

/-!
# Bytes that are rounded, for each process and for the machine

`DiskEnergy` and `systemEnergy` both turn bytes into whole KB, the one for each
row of a process and the other for each cycle. For memory only `systemEnergy`
rounds: `MemoryEnergy` divides the bytes of a row by the cache line in floating
point.
-/

namespace PTop

open Framework

/-! ## The rows of a window, cycle by cycle -/

/-- The row of the machine holds what the rows of the processes add up to. -/
structure CycleTotals (s : SysInfoRow) (ps : List ProcessInfoRow) : Prop where
  read : s.diskread = (ps.map ProcessInfoRow.readBytes).sum
  write : s.diskwrite = (ps.map fun p => p.writeBytes - p.cancelledWriteBytes).sum
  read_nonneg : 0 ≤ s.diskread
  write_nonneg : 0 ≤ s.diskwrite
  read_lt : s.diskread < 2 ^ 63
  write_lt : s.diskwrite < 2 ^ 63

instance (s : SysInfoRow) (ps : List ProcessInfoRow) : Decidable (CycleTotals s ps) :=
  decidable_of_iff (s.diskread = (ps.map ProcessInfoRow.readBytes).sum ∧
      s.diskwrite = (ps.map fun p => p.writeBytes - p.cancelledWriteBytes).sum ∧
      (0 ≤ s.diskread ∧ 0 ≤ s.diskwrite) ∧ s.diskread < 2 ^ 63 ∧ s.diskwrite < 2 ^ 63)
    ⟨fun ⟨hr, hw, h₀, hlt⟩ => ⟨hr, hw, h₀.1, h₀.2, hlt.1, hlt.2⟩,
      fun h => ⟨h.read, h.write, ⟨h.read_nonneg, h.write_nonneg⟩, h.read_lt, h.write_lt⟩⟩

/-- The rows of a window are those of these cycles, each of which has exact totals. -/
structure WindowCycles (db : Database) (length now : Int)
    (cycles : List (SysInfoRow × List ProcessInfoRow)) : Prop where
  process : (processWindow db length now).Perm (cycles.flatMap Prod.snd)
  system : (db.selectSystem length now).Perm (cycles.map Prod.fst)
  totals : ∀ c ∈ cycles, CycleTotals c.1 c.2

/-- The cycles of a window, when they are told apart by their time stamps. -/
def cyclesByTime (db : Database) (length now : Int) : List (SysInfoRow × List ProcessInfoRow) :=
  (db.selectSystem length now).map fun s =>
    (s, (processWindow db length now).filter fun p => p.time = s.time)

theorem windowCycles_of_times {db : Database} {length now : Int}
    (hdistinct : ((db.selectSystem length now).map SysInfoRow.time).Nodup)
    (hrows : ∀ p ∈ processWindow db length now, ∃ s ∈ db.selectSystem length now, p.time = s.time)
    (htotals : ∀ s ∈ db.selectSystem length now,
      CycleTotals s ((processWindow db length now).filter fun p => p.time = s.time)) :
    WindowCycles db length now (cyclesByTime db length now) where
  process := by
    rw [cyclesByTime, List.flatMap_map]
    exact perm_flatMap_filter_key ProcessInfoRow.time SysInfoRow.time hdistinct hrows
  system := by
    rw [cyclesByTime, List.map_map, show (Prod.fst ∘ fun s => (s, _)) = id from rfl, List.map_id]
  totals := by
    intro c hc
    obtain ⟨s, hs, rfl⟩ := List.mem_map.mp hc
    exact htotals s hs

section Window

variable {db : Database} {length now : Int} {cycles : List (SysInfoRow × List ProcessInfoRow)}
  {M : Type*} [AddCommMonoid M]

/-- What all processes are charged, cycle by cycle. -/
theorem WindowCycles.sum_process (h : WindowCycles db length now cycles) (f : ProcessInfoRow → M) :
    ((processWindow db length now).map f).sum = (cycles.map fun c => (c.2.map f).sum).sum := by
  rw [(h.process.map f).sum_eq, sum_map_flatMap]

/-- What the machine is charged, cycle by cycle. -/
theorem WindowCycles.sum_system (h : WindowCycles db length now cycles) (f : SysInfoRow → M) :
    ((db.selectSystem length now).map f).sum = (cycles.map fun c => f c.1).sum := by
  rw [(h.system.map f).sum_eq, List.map_map]
  rfl

/-- **All processes of a window together**, whatever each of their rows is charged. -/
theorem WindowCycles.sum_pids (h : WindowCycles db length now cycles) (f : ProcessInfoRow → M)
    {pids : Finset Int} (hpids : ∀ p ∈ processWindow db length now, p.pid ∈ pids) :
    ∑ pid ∈ pids, ((db.selectProcess pid length now).map f).sum =
      (cycles.map fun c => (c.2.map f).sum).sum := by
  simp only [selectProcess_eq]
  rw [sum_groups_eq f hpids, h.sum_process]

end Window

/-! ## A column and its total -/

theorem atolU64_natCast {n : ℕ} (h : n < 2 ^ 64) : atolU64 n = n := by
  have hv : (atolU64 n : Int) = n := by
    rw [atolU64, BitVec.toNat_ofInt]
    omega
  exact_mod_cast hv

section Column

variable {ps : List ProcessInfoRow} {f : ProcessInfoRow → Int} {total : Int}

/-- A column without negative entries, read as `atol` does, and its total. -/
theorem atolU64_column (hsum : total = (ps.map f).sum) (hf : ∀ p ∈ ps, 0 ≤ f p)
    (hlt : total < 2 ^ 63) : atolU64 total = (ps.map fun p => atolU64 (f p)).sum := by
  have hle : ∀ p ∈ ps, f p ≤ total := by
    intro p hp
    rw [hsum]
    refine List.single_le_sum ?_ _ (List.mem_map_of_mem hp)
    intro v hv
    obtain ⟨q, hq, rfl⟩ := List.mem_map.mp hv
    exact hf q hq
  have hentry : ∀ p ∈ ps, (atolU64 (f p) : Int) = f p := by
    intro p hp
    obtain ⟨n, hn⟩ := Int.eq_ofNat_of_zero_le (hf p hp)
    have hlt := (hle p hp).trans_lt hlt
    rw [hn, atolU64_natCast (by omega)]
  have hcast : (((ps.map fun p => atolU64 (f p)).sum : ℕ) : Int) = total := by
    rw [Nat.cast_list_sum, List.map_map, hsum]
    congr 1
    exact List.map_congr_left hentry
  rw [← hcast, atolU64_natCast]
  omega

/-- The KB of a column: rounded row by row, and rounded once. -/
theorem column_kb_le (hsum : total = (ps.map f).sum) (hf : ∀ p ∈ ps, 0 ≤ f p)
    (hlt : total < 2 ^ 63) :
    (ps.map fun p => atolU64 (f p) / 1024).sum ≤ atolU64 total / 1024 := by
  rw [atolU64_column hsum hf hlt]
  exact sum_div_le_div_sum (by norm_num) _ ps

theorem kb_column_le (hsum : total = (ps.map f).sum) (hf : ∀ p ∈ ps, 0 ≤ f p)
    (hlt : total < 2 ^ 63) (hps : ps ≠ []) :
    atolU64 total / 1024 ≤ (ps.map fun p => atolU64 (f p) / 1024).sum + (ps.length - 1) := by
  rw [atolU64_column hsum hf hlt]
  exact div_sum_le_sum_div (by norm_num) _ hps

end Column

/-! ## The disk -/

/-- What a row of a process is charged for the disk. -/
def diskOfRow (row : ProcessInfoRow) : ℚ :=
  ((atolU64 row.readBytes / 1024 : ℕ) : ℚ) * EDISKRPERKB +
    ((atolU64 (row.writeBytes - row.cancelledWriteBytes) / 1024 : ℕ) : ℚ) * EDISKWPERKB

/-- What a row of the machine is charged for it. -/
def diskOfCycle (row : SysInfoRow) : ℚ :=
  ((atolU64 row.diskread / 1024 : ℕ) : ℚ) * EDISKRPERKB +
    ((atolU64 row.diskwrite / 1024 : ℕ) : ℚ) * EDISKWPERKB

theorem DiskEnergy_eq (db : Database) (pid length now : Int) :
    DiskEnergy db pid length now = ((db.selectProcess pid length now).map diskOfRow).sum := rfl

theorem EDISKRPERKB_nonneg : 0 ≤ EDISKRPERKB := by
  rw [EDISKRPERKB]
  norm_num

theorem EDISKWPERKB_nonneg : 0 ≤ EDISKWPERKB := by
  rw [EDISKWPERKB]
  norm_num

theorem diskOfRow_nonneg (row : ProcessInfoRow) : 0 ≤ diskOfRow row :=
  add_nonneg (mul_nonneg (Nat.cast_nonneg _) EDISKRPERKB_nonneg)
    (mul_nonneg (Nat.cast_nonneg _) EDISKWPERKB_nonneg)

/-- The row counts bytes: none is negative, and no more are cancelled than written. -/
structure CountsBytes (row : ProcessInfoRow) : Prop where
  read : 0 ≤ row.readBytes
  write : row.cancelledWriteBytes ≤ row.writeBytes

instance (row : ProcessInfoRow) : Decidable (CountsBytes row) :=
  decidable_of_iff (0 ≤ row.readBytes ∧ row.cancelledWriteBytes ≤ row.writeBytes)
    ⟨fun h => ⟨h.1, h.2⟩, fun h => ⟨h.read, h.write⟩⟩

/-- What the rows of a cycle are charged, in KB. -/
theorem sum_diskOfRow (ps : List ProcessInfoRow) :
    (ps.map diskOfRow).sum =
      (((ps.map fun p => atolU64 p.readBytes / 1024).sum : ℕ) : ℚ) * EDISKRPERKB +
        (((ps.map fun p => atolU64 (p.writeBytes - p.cancelledWriteBytes) / 1024).sum : ℕ) : ℚ) *
          EDISKWPERKB := by
  rw [Nat.cast_list_sum, Nat.cast_list_sum, List.map_map, List.map_map, ← List.sum_map_mul_right,
    ← List.sum_map_mul_right, ← List.sum_map_add]
  rfl

section Cycle

variable {s : SysInfoRow} {ps : List ProcessInfoRow}

/-- **The rows of a cycle are charged no more than the machine.** -/
theorem CycleTotals.disk_le (h : CycleTotals s ps) (hps : ∀ p ∈ ps, CountsBytes p) :
    (ps.map diskOfRow).sum ≤ diskOfCycle s := by
  have hread := column_kb_le h.read (fun p hp => (hps p hp).read) h.read_lt
  have hwrite := column_kb_le h.write (fun p hp => sub_nonneg.mpr (hps p hp).write) h.write_lt
  rw [sum_diskOfRow]
  refine add_le_add (mul_le_mul_of_nonneg_right ?_ EDISKRPERKB_nonneg)
    (mul_le_mul_of_nonneg_right ?_ EDISKWPERKB_nonneg)
  · exact_mod_cast hread
  · exact_mod_cast hwrite

/-- **And what is lost is less than one KB of each kind for every row but one.** -/
theorem CycleTotals.disk_loss (h : CycleTotals s ps) (hps : ∀ p ∈ ps, CountsBytes p) :
    diskOfCycle s ≤ (ps.map diskOfRow).sum +
      if 1 ≤ ps.length then ((ps.length : ℚ) - 1) * (EDISKRPERKB + EDISKWPERKB) else 0 := by
  rcases eq_or_ne ps [] with rfl | hne
  · -- a cycle without rows: its totals are zero
    have hr : s.diskread = 0 := h.read
    have hw : s.diskwrite = 0 := h.write
    rw [if_neg (by simp), diskOfCycle, hr, hw]
    simp [atolU64]
  · have hlen : 1 ≤ ps.length := List.length_pos_of_ne_nil hne
    have hread := kb_column_le h.read (fun p hp => (hps p hp).read) h.read_lt hne
    have hwrite := kb_column_le h.write (fun p hp => sub_nonneg.mpr (hps p hp).write) h.write_lt hne
    rw [if_pos hlen, sum_diskOfRow, diskOfCycle]
    have hread' : ((atolU64 s.diskread / 1024 : ℕ) : ℚ) ≤
        ((ps.map fun p => atolU64 p.readBytes / 1024).sum : ℕ) + ((ps.length : ℚ) - 1) := by
      rw [← Nat.cast_one, ← Nat.cast_sub hlen]
      exact_mod_cast hread
    have hwrite' : ((atolU64 s.diskwrite / 1024 : ℕ) : ℚ) ≤
        ((ps.map fun p => atolU64 (p.writeBytes - p.cancelledWriteBytes) / 1024).sum : ℕ) +
          ((ps.length : ℚ) - 1) := by
      rw [← Nat.cast_one, ← Nat.cast_sub hlen]
      exact_mod_cast hwrite
    have hr := mul_le_mul_of_nonneg_right hread' EDISKRPERKB_nonneg
    have hw := mul_le_mul_of_nonneg_right hwrite' EDISKWPERKB_nonneg
    rw [add_mul] at hr hw
    rw [mul_add]
    linarith

end Cycle

/-- **Disk energy is attributed without excess**: any processes are charged at most
what the machine is, and all of them at most that much less. -/
theorem disk_energy_attributed {db : Database} {length now : Int}
    {cycles : List (SysInfoRow × List ProcessInfoRow)} (h : WindowCycles db length now cycles)
    (hbytes : ∀ p ∈ processWindow db length now, CountsBytes p) (pids : Finset Int) :
    ∑ pid ∈ pids, DiskEnergy db pid length now ≤ (systemEnergy db length now).edisk ∧
      ((∀ p ∈ processWindow db length now, p.pid ∈ pids) →
        (systemEnergy db length now).edisk - ∑ pid ∈ pids, DiskEnergy db pid length now ≤
          ((cycles.filter fun c => 1 ≤ c.2.length).map fun c =>
            ((c.2.length : ℚ) - 1) * (EDISKRPERKB + EDISKWPERKB)).sum) := by
  have hcycle : ∀ c ∈ cycles, ∀ p ∈ c.2, CountsBytes p := by
    intro c hc p hp
    exact hbytes p (h.process.mem_iff.mpr (List.mem_flatMap.mpr ⟨c, hc, hp⟩))
  have hsystem : (systemEnergy db length now).edisk =
      (cycles.map fun c => diskOfCycle c.1).sum := h.sum_system diskOfCycle
  constructor
  · calc ∑ pid ∈ pids, DiskEnergy db pid length now
        ≤ ((processWindow db length now).map diskOfRow).sum := by
          simp only [DiskEnergy_eq, selectProcess_eq]
          exact sum_groups_le ProcessInfoRow.pid pids fun p _ => diskOfRow_nonneg p
      _ = (cycles.map fun c => (c.2.map diskOfRow).sum).sum := h.sum_process diskOfRow
      _ ≤ (cycles.map fun c => diskOfCycle c.1).sum :=
          List.sum_le_sum fun c hc => (h.totals c hc).disk_le (hcycle c hc)
      _ = (systemEnergy db length now).edisk := hsystem.symm
  · intro hpids
    have hprocess : ∑ pid ∈ pids, DiskEnergy db pid length now =
        (cycles.map fun c => (c.2.map diskOfRow).sum).sum := h.sum_pids diskOfRow hpids
    rw [hsystem, hprocess, sub_le_iff_le_add', sum_map_filter, ← List.sum_map_add]
    refine List.sum_le_sum fun c hc => ?_
    simpa only [decide_eq_true_eq] using (h.totals c hc).disk_loss (hcycle c hc)

/-- Two processes that share three KB of reads unevenly, and a cycle without rows. -/
def unevenReads : Database where
  processInfo := [⟨1, 5, 1000, 0, 0, 0, 0, 0, 0, 0⟩, ⟨7, 5, 2072, 4096, 1024, 0, 0, 0, 0, 0⟩]
  sysInfo := [⟨5, 0, 0, 3072, 3072, 6, 0, 100, 100, 2⟩, ⟨6, 0, 0, 0, 0, 6, 0, 100, 100, 0⟩]

theorem unevenReads_cycles :
    WindowCycles unevenReads 10 6 (cyclesByTime unevenReads 10 6) :=
  windowCycles_of_times (by decide) (by decide) (by decide)

theorem disk_energy_attributed_unevenReads :
    ∑ pid ∈ {1, 7}, DiskEnergy unevenReads pid 10 6 < (systemEnergy unevenReads 10 6).edisk ∧
      (systemEnergy unevenReads 10 6).edisk - ∑ pid ∈ {1, 7}, DiskEnergy unevenReads pid 10 6 ≤
        (((cyclesByTime unevenReads 10 6).filter fun c => 1 ≤ c.2.length).map fun c =>
          ((c.2.length : ℚ) - 1) * (EDISKRPERKB + EDISKWPERKB)).sum := by
  have hboth := disk_energy_attributed unevenReads_cycles (by decide) {1, 7}
  exact ⟨lt_of_le_of_ne hboth.1 (by decide +kernel), hboth.2 (by decide)⟩

/-! ## Memory -/

/-- The DMA part of what a row of a process is charged for memory. -/
def dmaOfRow (row : ProcessInfoRow) : ℚ :=
  ((row.readBytes : ℚ) / L2CACHE_LINE_SIZE +
      ((row.writeBytes - row.cancelledWriteBytes : Int) : ℚ) / L2CACHE_LINE_SIZE) *
    L2CACHE_MISS_LATENCY * MEMORY_POWER / 1000000000

/-- The part for the cache misses. -/
def missesOfRow (row : ProcessInfoRow) : ℚ :=
  row.cpuAccesses * L2CACHE_MISS_LATENCY * MEMORY_POWER / 1000000000

/-- The DMA part of what a row of the machine is charged: the lines are whole. -/
def dmaOfCycle (row : SysInfoRow) : ℚ :=
  ((atolU64 row.diskread / L2CACHE_LINE_SIZE + atolU64 row.diskwrite / L2CACHE_LINE_SIZE : ℕ) : ℚ) *
    L2CACHE_MISS_LATENCY * MEMORY_POWER / 1000000000

def missesOfCycle (row : SysInfoRow) : ℚ :=
  (atolU64 row.memaccess : ℚ) * L2CACHE_MISS_LATENCY * MEMORY_POWER / 1000000000

/-- The DMA part of `MemoryEnergy`. -/
def memoryDma (db : Database) (PID length now : Int) : ℚ :=
  ((db.selectProcess PID length now).map dmaOfRow).sum

/-- The DMA part of `systemEnergy`'s `emem`. -/
def systemDma (db : Database) (length now : Int) : ℚ :=
  ((db.selectSystem length now).map dmaOfCycle).sum

theorem MemoryEnergy_eq (db : Database) (PID length now : Int) :
    MemoryEnergy db PID length now = memoryDma db PID length now +
      ((db.selectProcess PID length now).map missesOfRow).sum := by
  rw [memoryDma, ← List.sum_map_add]
  rfl

theorem emem_eq (db : Database) (length now : Int) :
    (systemEnergy db length now).emem = systemDma db length now +
      ((db.selectSystem length now).map missesOfCycle).sum := by
  rw [systemDma, ← List.sum_map_add]
  rfl

/-- The energy of one cache line. -/
def lineEnergy : ℚ := L2CACHE_MISS_LATENCY * MEMORY_POWER / 1000000000

theorem lineEnergy_pos : 0 < lineEnergy := by
  rw [lineEnergy, L2CACHE_MISS_LATENCY, MEMORY_POWER]
  norm_num

/-- The lines of a cycle, in fractions. -/
def linesOf (s : SysInfoRow) : ℚ :=
  (s.diskread : ℚ) / L2CACHE_LINE_SIZE + (s.diskwrite : ℚ) / L2CACHE_LINE_SIZE

/-- The rows of a cycle are charged for all its bytes. -/
theorem CycleTotals.sum_dmaOfRow {s : SysInfoRow} {ps : List ProcessInfoRow}
    (h : CycleTotals s ps) : (ps.map dmaOfRow).sum = linesOf s * lineEnergy := by
  have hrow : ∀ p ∈ ps, dmaOfRow p = ((p.readBytes : ℚ) +
      ((p.writeBytes - p.cancelledWriteBytes : Int) : ℚ)) * (lineEnergy / L2CACHE_LINE_SIZE) := by
    intro p _
    rw [dmaOfRow, lineEnergy]
    ring
  have hread : (s.diskread : ℚ) = (ps.map fun p => (p.readBytes : ℚ)).sum := by
    rw [h.read, Int.cast_list_sum, List.map_map]
    rfl
  have hwrite : (s.diskwrite : ℚ) =
      (ps.map fun p => ((p.writeBytes - p.cancelledWriteBytes : Int) : ℚ)).sum := by
    rw [h.write, Int.cast_list_sum, List.map_map]
    rfl
  rw [List.map_congr_left hrow, List.sum_map_mul_right, List.sum_map_add, ← hread, ← hwrite,
    linesOf]
  ring

/-- **The machine is charged for whole lines only.** -/
theorem CycleTotals.dmaOfCycle_eq_iff {s : SysInfoRow} {ps : List ProcessInfoRow}
    (h : CycleTotals s ps) :
    dmaOfCycle s ≤ linesOf s * lineEnergy ∧
      (dmaOfCycle s = linesOf s * lineEnergy ↔ 128 ∣ s.diskread ∧ 128 ∣ s.diskwrite) := by
  obtain ⟨r, hr⟩ := Int.eq_ofNat_of_zero_le h.read_nonneg
  obtain ⟨w, hw⟩ := Int.eq_ofNat_of_zero_le h.write_nonneg
  have hr64 : r < 2 ^ 64 := by
    have := h.read_lt
    omega
  have hw64 : w < 2 ^ 64 := by
    have := h.write_lt
    omega
  have hline : (0 : ℕ) < L2CACHE_LINE_SIZE := by decide
  have hcycle : dmaOfCycle s =
      (((r / L2CACHE_LINE_SIZE : ℕ) : ℚ) + ((w / L2CACHE_LINE_SIZE : ℕ) : ℚ)) * lineEnergy := by
    rw [dmaOfCycle, hr, hw, atolU64_natCast hr64, atolU64_natCast hw64, lineEnergy, Nat.cast_add]
    ring
  have hlines : linesOf s = (r : ℚ) / L2CACHE_LINE_SIZE + (w : ℚ) / L2CACHE_LINE_SIZE := by
    rw [linesOf, hr, hw, Int.cast_natCast, Int.cast_natCast]
  have hrle : ((r / L2CACHE_LINE_SIZE : ℕ) : ℚ) ≤ r / L2CACHE_LINE_SIZE := Nat.cast_div_le
  have hwle : ((w / L2CACHE_LINE_SIZE : ℕ) : ℚ) ≤ w / L2CACHE_LINE_SIZE := Nat.cast_div_le
  rw [hcycle, hlines]
  constructor
  · exact mul_le_mul_of_nonneg_right (add_le_add hrle hwle) lineEnergy_pos.le
  · rw [mul_left_inj' lineEnergy_pos.ne', hr, hw]
    have hdvd : ∀ n : ℕ, (128 : Int) ∣ n ↔ L2CACHE_LINE_SIZE ∣ n := fun n => Int.natCast_dvd_natCast
    rw [hdvd, hdvd, ← cast_div_eq_iff hline, ← cast_div_eq_iff hline]
    constructor
    · intro hsum
      constructor <;> linarith
    · rintro ⟨hread, hwrite⟩
      rw [hread, hwrite]

/-- **The processes are charged within the machine for DMA iff every cycle of the window
moved whole cache lines in both directions.** -/
theorem memory_dma_within_iff {db : Database} {length now : Int}
    {cycles : List (SysInfoRow × List ProcessInfoRow)} (h : WindowCycles db length now cycles)
    {pids : Finset Int} (hpids : ∀ p ∈ processWindow db length now, p.pid ∈ pids) :
    ∑ pid ∈ pids, memoryDma db pid length now ≤ systemDma db length now ↔
      ∀ s ∈ db.selectSystem length now, 128 ∣ s.diskread ∧ 128 ∣ s.diskwrite := by
  have hprocess : ∑ pid ∈ pids, memoryDma db pid length now =
      (cycles.map fun c => linesOf c.1 * lineEnergy).sum := by
    refine (h.sum_pids dmaOfRow hpids).trans ?_
    congr 1
    exact List.map_congr_left fun c hc => (h.totals c hc).sum_dmaOfRow
  have hsystem : systemDma db length now = (cycles.map fun c => dmaOfCycle c.1).sum :=
    h.sum_system dmaOfCycle
  have hle : ∀ c ∈ cycles, dmaOfCycle c.1 ≤ linesOf c.1 * lineEnergy :=
    fun c hc => (h.totals c hc).dmaOfCycle_eq_iff.1
  have hmem : ∀ s, s ∈ db.selectSystem length now ↔ ∃ c ∈ cycles, c.1 = s := by
    intro s
    rw [h.system.mem_iff, List.mem_map]
  rw [hprocess, hsystem]
  constructor
  · intro hsum s hs
    obtain ⟨c, hc, rfl⟩ := (hmem s).mp hs
    refine (h.totals c hc).dmaOfCycle_eq_iff.2.mp ?_
    exact eq_of_sum_map_eq hle (le_antisymm (List.sum_le_sum hle) hsum) c hc
  · intro hwhole
    refine List.sum_le_sum fun c hc => ?_
    have hc' := hwhole c.1 ((hmem c.1).mpr ⟨c, hc, rfl⟩)
    exact ((h.totals c hc).dmaOfCycle_eq_iff.2.mpr hc').ge

theorem memory_dma_within_iff_unevenReads :
    ∑ pid ∈ {1, 7}, memoryDma unevenReads pid 10 6 ≤ systemDma unevenReads 10 6 ↔
      ∀ s ∈ unevenReads.selectSystem 10 6, 128 ∣ s.diskread ∧ 128 ∣ s.diskwrite :=
  memory_dma_within_iff unevenReads_cycles (by decide)

/-- A process that has read one byte. -/
def oneByte : Database where
  processInfo := [⟨7, 5, 1, 0, 0, 0, 0, 0, 0, 0⟩]
  sysInfo := [⟨5, 0, 0, 1, 0, 6, 0, 100, 100, 1⟩]

/-- The process is charged for the byte, the machine is not. -/
theorem oneByte_dma_exceeds :
    ∃ cycles, WindowCycles oneByte 10 6 cycles ∧ (∀ p ∈ processWindow oneByte 10 6, CountsBytes p) ∧
      (∀ p ∈ processWindow oneByte 10 6, p.pid ∈ ({7} : Finset Int)) ∧
      ¬ ∑ pid ∈ {7}, memoryDma oneByte pid 10 6 ≤ systemDma oneByte 10 6 := by
  refine ⟨_, windowCycles_of_times (by decide) (by decide) (by decide), ?_, ?_, ?_⟩
  · decide
  · decide
  · decide +kernel

end PTop
