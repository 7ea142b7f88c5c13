import PTop.Model.Program

/-!
# `database.c` — the program where the server may refuse

Every function that needs the server opens a connection of its own and gives up when
`create_conn` fails, or `mysql_real_query` on it: a statement then has no effect, and a
query answers zero. No caller looks at what they return.
-/

namespace PTop

open Framework

/-- Which calls get through to the server in one pass, by the function that makes them;
those for the rows of a cycle and for the lines of a screen are counted from 0. -/
structure Connections where
  insertPs : ℕ → Bool := fun _ => true
  insertSysInfo : Bool := true
  systemEnergy : Bool := true
  insertDeviceEnergy : Bool := true
  CPUEnergy : ℕ → Bool := fun _ => true
  DiskEnergy : ℕ → Bool := fun _ => true
  NtwkEnergy : ℕ → Bool := fun _ => true
  MemoryEnergy : ℕ → Bool := fun _ => true
  insertProcessEnergy : ℕ → Bool := fun _ => true
  /-- The two purges of `main_loop`. -/
  freeup : Bool × Bool := (true, true)
  /-- The two purges of `cleanstop`. -/
  cleanup : Bool × Bool := (true, true)

/-- Those whose call gets through. -/
def through {α : Type} (ok : ℕ → Bool) (xs : List α) : List α :=
  (xs.zipIdx.filter fun p => ok p.2).map Prod.fst

/-- `freeup_all`. -/
def freeupAllOver (conn : Bool × Bool) (interval : u32) (now : Int × Int) (db : Database) : Database :=
  let db := if conn.1 then freeupPs interval now.1 db else db
  if conn.2 then freeupSysInfo interval now.2 db else db

/-! ## The display -/

/-- The four queries about one process. -/
def processEnergyOver (conn : Connections) (j : ℕ) (db : Database) (tlength now : Int)
    (pst : ProcessInfo) : ProcessEnergy where
  pid := pst.pid
  time := now
  ecpu := if conn.CPUEnergy j then CPUEnergyFloat db pst.pid.toInt tlength now else .fin 0
  edisk := .fin (if conn.DiskEnergy j then DiskEnergy db pst.pid.toInt tlength now else 0)
  enet := .fin (if conn.NtwkEnergy j then NtwkEnergy db pst.pid.toInt tlength now else 0)
  emem := .fin (if conn.MemoryEnergy j then MemoryEnergy db pst.pid.toInt tlength now else 0)

def energyLineOver (conn : Connections) (j : ℕ) (db : Database) (tlength now : Int)
    (device : DeviceEnergy) (pst : ProcessInfo) : EnergyLine :=
  let pe := processEnergyOver conn j db tlength now pst
  let eall := pe.ecpu + pe.edisk + pe.emem
  let etotalsys := XFloat.fin (device.ecpu + device.edisk + device.emem)
  { toProcessEnergy := pe
    percent := if etotalsys > .fin 0 then eall / etotalsys * .fin 100 else .fin 0
    cmdline := pst.cmdline }

/-- `systemEnergy` clears the record before it asks. -/
def systemEnergyOver (ok : Bool) (db : Database) (length now : Int) : DeviceEnergy :=
  if ok then systemEnergy db length now else { ecpu := 0, emem := 0, enet := 0, edisk := 0 }

def energyScreenOver (conn : Connections) (db : Database) (tlength now : Int)
    (pstList : ℕ → ProcessInfo) (amount : Int) : EnergyScreen :=
  let device := systemEnergyOver conn.systemEnergy db tlength now
  { device := device
    lines := (showProcStat pstList amount).zipIdx.map fun p =>
      energyLineOver conn p.2 db tlength now device p.1 }

def persistOver (conn : Connections) (scr : EnergyScreen) (t : EnergyTables) : EnergyTables :=
  (through conn.insertProcessEnergy scr.lines).foldl
    (fun t line => insertProcessEnergy line.toProcessEnergy t)
    (if conn.insertDeviceEnergy then insertDeviceEnergy scr.device t else t)

/-! ## The program -/

/-- What the environment answers during one pass, the server included. -/
structure RefusedInput extends PassInput where
  conn : Connections := {}

/-- The body of `main_loop` up to the display. -/
def samplePassOver (conf : Conf) (conn : Connections) (inp : CycleInput) (s : PtopState) :
    Except Stop (PtopState × CycleOutput) := do
  let (t, out) ← samplePass conf inp s
  let db := (through conn.insertPs out.rows).foldl (fun db r => insertPs r db) s.db
  return ({ t with db := if conn.insertSysInfo then insertSysInfo out.sysRow db else db }, out)

/-- `cleanstop`. -/
def cleanstopOver (conn : Connections) (code : Int) (now : Int × Int) (s : ProgramState) : Ending :=
  .clean code { systemClean now s with db := freeupAllOver conn.cleanup 0 now s.db }

/-- The `switch` of `show_proc_stat`; only the key that quits needs the server. -/
def keyStageOver (interval : Int) (inp : RefusedInput) (scr : EnergyScreen) (s : ProgramState) :
    Except Ending (ProgramState × Display) :=
  if inp.term.lastchar = some MQUIT then .error (cleanstopOver inp.conn 0 inp.cleanTime s)
  else keyStage interval inp.toPassInput scr s

/-- `show_proc_stat`. -/
def displayStageOver (interval : Int) (inp : RefusedInput) (amount : Int) (s : ProgramState) :
    Except Ending (ProgramState × Option Display) :=
  if ¬ inp.term.isatty then .ok ({ s with screen := false }, none)
  else
    let s := { s with screen := true }
    if inp.term.COLS < LEAST_COLUMS then .error (cleanstopOver inp.conn 1 inp.cleanTime s)
    else
      let scr := energyScreenOver inp.conn s.db interval inp.ctime s.pstList amount
      let s := { s with handlers := true, energies := persistOver inp.conn scr s.energies }
      (keyStageOver interval inp scr s).map fun shown => (shown.1, some shown.2)

/-- The display every third cycle. -/
def drawStageOver (interval : Int) (inp : RefusedInput) (amount : Int) (s : ProgramState) :
    Except Ending (ProgramState × Option Display) :=
  if s.screen && s.cycle % 3 = 0 then displayStageOver interval inp amount s else .ok (s, none)

/-- The purge every `CLEAN_INTERVAL` cycles. -/
def purgeStageOver (conn : Connections) (cycle : ℕ) (inp : CycleInput) (db : Database) : Database :=
  if cycle % CLEAN_INTERVAL = 0 then
    freeupAllOver conn.freeup (BitVec.ofNat 32 CLEAN_INTERVAL) inp.purgeTime db
  else db

/-- SIGINT and SIGTERM. -/
def terminateOver (sig : Int) (inp : RefusedInput) (s : ProgramState) : Ending :=
  if s.handlers then cleanstopOver inp.conn sig inp.cleanTime s else .killed sig

/-- `pause`; only the signals that end the program in `cleanstop` need the server. -/
def pauseOver (interval : Int) (inp : RefusedInput) (s : ProgramState) :
    Except Ending ProgramState :=
  match inp.signal with
  | some .sigint => .error (terminateOver SIGINT inp s)
  | some .sigterm => .error (terminateOver SIGTERM inp s)
  | _ => pause interval inp.toPassInput s

/-- One pass of `main_loop`. -/
def passOver (conf : Conf) (interval : Int) (inp : RefusedInput) (s : ProgramState) :
    Except Ending (ProgramState × PassOutput) := do
  let (t, out) ← (samplePassOver conf inp.conn inp.cycle s.toPtopState).mapError Ending.stop
  let (s₁, display) ← drawStageOver interval inp out.amount
    (onAlarm interval inp.early.1 { s with toPtopState := t })
  let s₂ ← pauseOver interval inp (onAlarm interval inp.early.2 { s₁ with
    toSysState := s₁.toSysState.next
    db := purgeStageOver inp.conn s₁.cycle inp.cycle s₁.db })
  return (s₂, { cycle := out, display := display })

/-- Which of the connections of `system_init` can be opened: that of `init_stat_data` itself,
and those of its two purges and of the two of `clean_stat_data`. -/
structure StartConnections where
  initStatData : Bool := true
  init : Bool × Bool := (true, true)
  clean : Bool × Bool := (true, true)

/-- `init_stat_data`; without a connection it reports success and purges nothing. -/
def initStatDataOver (conn : StartConnections) (now : Int × Int) (db : Database) : Database :=
  if conn.initStatData then freeupAllOver conn.init 0 now db else db

/-- `system_init` and `alarm_handler(0)`. -/
def programStartOver (conn : StartConnections) (interval : Int) (cpuFd : List PCFile)
    (init clean : Int × Int) (db : Database) (energies : EnergyTables) : ProgramState where
  toPtopState := { systemInit cpuFd with
    db := freeupAllOver conn.clean 0 clean (initStatDataOver conn init db) }
  energies := energies
  clock := alarm interval
  handlers := false

end PTop
