import PTop.Framework.Printf
import PTop.Model.Common

/-!
# `database.c`, `energy.c` — the two tables and the queries over them

The tables keep the columns the energy queries select. A BIGINT column holds an
integer and a FLOAT column a finite number, which is why an `INSERT` with an
infinity or NaN in it fails. Energies are exact rationals.
-/

namespace PTop

open Framework

structure ProcessInfoRow where
  pid : Int
  time : Int
  readBytes : Int
  writeBytes : Int
  cancelledWriteBytes : Int
  cpu : ℚ
  netsnd : ℚ
  netrcv : ℚ
  ratio : ℚ
  cpuAccesses : Int
deriving DecidableEq

structure SysInfoRow where
  time : Int
  netsend : Int
  netrcv : Int
  diskread : Int
  diskwrite : Int
  cpupower : ℚ
  memaccess : Int
  itv : Int
  runtime : Int
  apnum : Int
deriving DecidableEq

structure Database where
  processInfo : List ProcessInfoRow := []
  sysInfo : List SysInfoRow := []

/-- A number stored in a BIGINT column. -/
def toBigint (q : ℚ) : Int := (q + 1 / 2).floor

/-- The float fields `insert_ps` prints. -/
def ProcessInfo.floats (pst : ProcessInfo) : List XFloat :=
  [pst.readBytes, pst.writeBytes, pst.cancelledWriteBytes, pst.mem, pst.utime, pst.stime,
    pst.gtime, pst.cpu, pst.cswch, pst.nvcswch, pst.minflt, pst.majflt, pst.netsnd, pst.netrcv,
    pst.ratio]

def ProcessInfo.toRow (pst : ProcessInfo) : ProcessInfoRow where
  pid := pst.pid.toInt
  time := pst.time.toNat
  readBytes := toBigint pst.readBytes.toRat
  writeBytes := toBigint pst.writeBytes.toRat
  cancelledWriteBytes := toBigint pst.cancelledWriteBytes.toRat
  cpu := pst.cpu.toRat
  netsnd := pst.netsnd.toRat
  netrcv := pst.netrcv.toRat
  ratio := pst.ratio.toRat
  cpuAccesses := pst.cpuAccesses.toNat

/-- The format of `insert_ps`. -/
def insertFormat : String :=
  "INSERT INTO process_info(pid, time, read_bytes, write_bytes, cancelled_write_bytes," ++
    "total_vsz, total_rsz, mem, utime, stime, gtime, cpu, cswch, nvswch, minflt, majflt, " ++
    "netsnd, netrcv, ratio, cpu_accesses,cmdline) VALUES(%d, %u, %9.2f, %9.2f, %9.2f, %u, %u, %6.2f, " ++
    "%7.2f, %7.2f, %7.2f, " ++
    "%7.2f, %9.2f, %9.2f, %9.2f, %9.2f, %9.2f, %9.2f,%9.2f,%llu, '%s')"

/-- The text that `insert_ps` sends to the server. -/
def insertPsText (pst : ProcessInfo) : CString :=
  printf (pieces insertFormat)
    [.bits pst.pid, .bits pst.time, .float pst.readBytes, .float pst.writeBytes,
      .float pst.cancelledWriteBytes, .bits pst.vsz, .bits pst.rss, .float pst.mem,
      .float pst.utime, .float pst.stime, .float pst.gtime, .float pst.cpu, .float pst.cswch,
      .float pst.nvcswch, .float pst.minflt, .float pst.majflt, .float pst.netsnd,
      .float pst.netrcv, .float pst.ratio, .bits pst.cpuAccesses, .text pst.cmdline]

/-- `insert_ps`. -/
def insertPs (pst : ProcessInfo) (db : Database) : Database :=
  if pst.floats.all XFloat.isFinite then
    { db with processInfo := db.processInfo ++ [pst.toRow] }
  else db

def SysInfo.toRow (st : SysInfo) : SysInfoRow where
  time := st.time.toNat
  netsend := st.totalnetsnd.toNat
  netrcv := st.totalnetrcv.toNat
  diskread := st.totaldiskread.toNat
  diskwrite := st.totaldiskwrite.toNat
  cpupower := st.cpupower
  memaccess := st.memaccess.toNat
  itv := st.itv.toNat
  runtime := st.runtime.toNat
  apnum := st.activeProcessNum

/-- `insert_sys_info`. -/
def insertSysInfo (st : SysInfo) (db : Database) : Database :=
  { db with sysInfo := db.sysInfo ++ [st.toRow] }

/-- `freeup_ps` at time `now`. -/
def freeupPs (interval : u32) (now : Int) (db : Database) : Database :=
  { db with processInfo := db.processInfo.filter fun r => ¬ r.time < now - interval.toNat }

/-- `freeup_sys_info` at time `now`. -/
def freeupSysInfo (interval : u32) (now : Int) (db : Database) : Database :=
  { db with sysInfo := db.sysInfo.filter fun r => ¬ r.time < now - interval.toNat }

/-- `freeup_all`; each of the two calls reads the clock itself. -/
def freeupAll (interval : u32) (now : Int × Int) (db : Database) : Database :=
  freeupSysInfo interval now.2 (freeupPs interval now.1 db)

/-! ## `energy.c` -/

def MEMORY_POWER : ℚ := 2016 / 1000
def L2CACHE_MISS_LATENCY : ℚ := 5980 / 100
def L2CACHE_LINE_SIZE : ℕ := 128
def EDISKRPERKB : ℚ := 2 / 100000 * (278 / 100)
def EDISKWPERKB : ℚ := 2 / 100000 * (219 / 100)
def ENETSNDPERKB : ℚ := (18 / 10) / (1024 * (12330 / 1000))
def ENETRCVPERKB : ℚ := (14 / 10) / (1024 * (5665 / 1000))

/-- `atoi` into a `u32`. -/
def atoiU32 (v : Int) : ℕ := (BitVec.ofInt 32 v).toNat

/-- `atol` into a `u64`. -/
def atolU64 (v : Int) : ℕ := (BitVec.ofInt 64 v).toNat

/-- The window every query selects by. -/
def inWindow (length now t : Int) : Bool := decide (now - length < t) && decide (t ≤ now)

/-- Rows of one process in a window. -/
def Database.selectProcess (db : Database) (pid length now : Int) : List ProcessInfoRow :=
  db.processInfo.filter fun p => decide (p.pid = pid) && inWindow length now p.time

/-- The join of `CPUEnergy`. -/
def Database.selectCpu (db : Database) (pid length now : Int) :
    List (ProcessInfoRow × SysInfoRow) :=
  (db.selectProcess pid length now).flatMap fun p =>
    (db.sysInfo.filter fun s => p.time = s.time).map fun s => (p, s)

def CPUEnergy (db : Database) (PID length now : Int) : ℚ :=
  ((db.selectCpu PID length now).map fun row =>
    let cpu := row.1.cpu
    let power := row.2.cpupower
    let itv := atoiU32 row.2.itv
    let runtime := atoiU32 row.2.runtime
    let runPercent : ℚ := runtime / itv
    (cpu * power * runPercent) / 100).sum

/-- One pass of the loop of `CPUEnergy` as it is computed: `itv` is not guarded. -/
def joinedEnergy (row : ProcessInfoRow × SysInfoRow) : XFloat :=
  let cpu := XFloat.fin row.1.cpu
  let power := XFloat.fin row.2.cpupower
  let itv := atoiU32 row.2.itv
  let runtime := atoiU32 row.2.runtime
  let runPercent := XFloat.ofNat runtime / .ofNat itv
  (cpu * power * runPercent) / .fin 100

/-- `CPUEnergy` with the infinities and NaN that an empty interval leads to. -/
def CPUEnergyFloat (db : Database) (PID length now : Int) : XFloat :=
  ((db.selectCpu PID length now).map joinedEnergy).sum

def NtwkEnergy (db : Database) (pid length now : Int) : ℚ :=
  ((db.selectProcess pid length now).map fun row =>
    row.netsnd * ENETSNDPERKB / 1024 + row.netrcv * ENETRCVPERKB / 1024).sum

def DiskEnergy (db : Database) (pid length now : Int) : ℚ :=
  ((db.selectProcess pid length now).map fun row =>
    let rKB := atolU64 row.readBytes
    let wKB := atolU64 (row.writeBytes - row.cancelledWriteBytes)
    ((rKB / 1024 : ℕ) : ℚ) * EDISKRPERKB + ((wKB / 1024 : ℕ) : ℚ) * EDISKWPERKB).sum

def MemoryEnergy (db : Database) (PID length now : Int) : ℚ :=
  ((db.selectProcess PID length now).map fun row =>
    let dmaRbytes : ℚ := row.readBytes
    let dmaWbytes : ℚ := (row.writeBytes - row.cancelledWriteBytes : Int)
    (dmaRbytes / L2CACHE_LINE_SIZE + dmaWbytes / L2CACHE_LINE_SIZE) * L2CACHE_MISS_LATENCY *
        MEMORY_POWER / 1000000000 +
      row.cpuAccesses * L2CACHE_MISS_LATENCY * MEMORY_POWER / 1000000000).sum

/-- The fields of `struct device_energy` that `systemEnergy` fills in. -/
structure DeviceEnergy where
  ecpu : ℚ
  emem : ℚ
  enet : ℚ
  edisk : ℚ

def Database.selectSystem (db : Database) (length now : Int) : List SysInfoRow :=
  db.sysInfo.filter fun s => inWindow length now s.time

def systemEnergy (db : Database) (length now : Int) : DeviceEnergy where
  ecpu := ((db.selectSystem length now).map fun row => row.cpupower).sum
  emem := ((db.selectSystem length now).map fun row =>
    ((atolU64 row.diskread / L2CACHE_LINE_SIZE + atolU64 row.diskwrite / L2CACHE_LINE_SIZE : ℕ) : ℚ) *
        L2CACHE_MISS_LATENCY * MEMORY_POWER / 1000000000 +
      (atolU64 row.memaccess : ℚ) * L2CACHE_MISS_LATENCY * MEMORY_POWER / 1000000000).sum
  enet := ((db.selectSystem length now).map fun row =>
    (atolU64 row.netsend : ℚ) * ENETSNDPERKB / 1024 +
      (atolU64 row.netrcv : ℚ) * ENETRCVPERKB / 1024).sum
  edisk := ((db.selectSystem length now).map fun row =>
    ((atolU64 row.diskread / 1024 : ℕ) : ℚ) * EDISKRPERKB +
      ((atolU64 row.diskwrite / 1024 : ℕ) : ℚ) * EDISKWPERKB).sum

end PTop
