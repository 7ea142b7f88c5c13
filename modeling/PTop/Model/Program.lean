import PTop.Model.Display

/-!
# `main`, `display.c` — the program around the loop

`system_init` on the tables of earlier sessions, the passes of `main_loop` with
`show_proc_stat` in full, the alarm clock that wakes `pause`, and the ways out.
Curses draws what it is given: of the screen only its size is looked at.
-/

namespace PTop

open Framework

/-! ## The energy tables -/

structure DeviceEnergyRow where
  time : Int
  ecpu : ℚ
  emem : ℚ
  enet : ℚ
  edisk : ℚ
deriving DecidableEq

structure ProcessEnergyRow where
  pid : Int
  time : Int
  ecpu : ℚ
  emem : ℚ
  enet : ℚ
  edisk : ℚ
deriving DecidableEq

/-- The tables that `freeup_all` leaves alone: its two calls for them are commented out. -/
structure EnergyTables where
  deviceEnergy : List DeviceEnergyRow := []
  processEnergy : List ProcessEnergyRow := []

/-- `struct process_energy`. -/
structure ProcessEnergy where
  pid : u32
  time : Int
  ecpu : XFloat
  emem : XFloat
  enet : XFloat
  edisk : XFloat

def ProcessEnergy.floats (pe : ProcessEnergy) : List XFloat := [pe.ecpu, pe.emem, pe.enet, pe.edisk]

/-- `insert_device_energy`. `systemEnergy` clears the record and never sets its time. -/
def insertDeviceEnergy (de : DeviceEnergy) (t : EnergyTables) : EnergyTables :=
  { t with deviceEnergy := t.deviceEnergy ++ [⟨0, de.ecpu, de.emem, de.enet, de.edisk⟩] }

def ProcessEnergy.toRow (pe : ProcessEnergy) : ProcessEnergyRow where
  pid := pe.pid.toInt
  time := pe.time
  ecpu := pe.ecpu.toRat
  emem := pe.emem.toRat
  enet := pe.enet.toRat
  edisk := pe.edisk.toRat

/-- `insert_process_energy`; a FLOAT column takes no infinity and no NaN. -/
def insertProcessEnergy (pe : ProcessEnergy) (t : EnergyTables) : EnergyTables :=
  if pe.floats.all XFloat.isFinite then
    { t with processEnergy := t.processEnergy ++ [pe.toRow] }
  else t

/-! ## The display -/

/-- What `show_proc_stat` computes for one process of `pst_list`. -/
def processEnergy (db : Database) (tlength now : Int) (pst : ProcessInfo) : ProcessEnergy where
  pid := pst.pid
  time := now
  ecpu := CPUEnergyFloat db pst.pid.toInt tlength now
  edisk := .fin (DiskEnergy db pst.pid.toInt tlength now)
  enet := .fin (NtwkEnergy db pst.pid.toInt tlength now)
  emem := .fin (MemoryEnergy db pst.pid.toInt tlength now)

/-- A line of the screen. -/
structure EnergyLine extends ProcessEnergy where
  percent : XFloat
  cmdline : CString

/-- The energy of the network is in neither sum. -/
def energyLine (db : Database) (tlength now : Int) (device : DeviceEnergy) (pst : ProcessInfo) :
    EnergyLine :=
  let pe := processEnergy db tlength now pst
  let eall := pe.ecpu + pe.edisk + pe.emem
  let etotalsys := XFloat.fin (device.ecpu + device.edisk + device.emem)
  { toProcessEnergy := pe
    percent := if etotalsys > .fin 0 then eall / etotalsys * .fin 100 else .fin 0
    cmdline := pst.cmdline }

/-- What is on the screen after the loop of `show_proc_stat`. -/
structure EnergyScreen where
  device : DeviceEnergy
  lines : List EnergyLine

def energyScreen (db : Database) (tlength now : Int) (pstList : ℕ → ProcessInfo) (amount : Int) :
    EnergyScreen :=
  let device := systemEnergy db tlength now
  { device := device
    lines := (showProcStat pstList amount).map (energyLine db tlength now device) }

/-- `persist_device_energy`, then `persists_process_energy` for each line. -/
def persist (scr : EnergyScreen) (t : EnergyTables) : EnergyTables :=
  scr.lines.foldl (fun t line => insertProcessEnergy line.toProcessEnergy t)
    (insertDeviceEnergy scr.device t)

/-! ## Keys -/

def MQUIT : Int := 'q'.toNat
def MKILLPROC : Int := 'k'.toNat
def MHELP : Int := 'h'.toNat
def ERR : Int := -1
def LEAST_COLUMS : Int := 30

/-- The lines of `helptext`, with their argument put in. -/
def helptext : List String :=
  ["General commands:\n",
    "\t^L  - redraw the screen                       \n",
    "\t'z' - pause-button to freeze current sample (toggle)\n",
    "\n",
    "\t'k' - kill a process (i.e. send a signal)\n",
    "\n",
    "\t'h' - help-information\n",
    "\t'q' - quit this program\n"]

/-- The loop of `showhelp` from line `lin` on: the lines printed and the keys read. -/
def helpLoop (winlines : Int) : ℕ → List String → List Int → List String × List Int
  | _, [], keys => ([], keys.take 1)
  | lin, line :: rest, keys =>
      if lin ≥ winlines - 2 then
        match keys with
        | [] => ([line], [])
        | key :: keys =>
            if key = 'q'.toNat then ([line], [key])
            else
              let shown := helpLoop winlines (lin + 1) rest keys
              (line :: shown.1, key :: shown.2)
      else
        let shown := helpLoop winlines (lin + 1) rest keys
        (line :: shown.1, shown.2)

/-- `showhelp`, given the keys that will be typed; each `wgetch` takes one. -/
def showhelp (LINES helpline : Int) (keys : List Int) : List String × List Int :=
  helpLoop (LINES - helpline) 0 helptext keys

/-- The terminal while a display is up, and what is typed at it. -/
structure Terminal where
  isatty : Bool := true
  LINES : Int := 24
  COLS : Int := 80
  /-- What `mvgetch` returns; `none` if `select` fails or finds nothing in time. -/
  lastchar : Option Int := none
  helpKeys : List Int := []
  pidTyped : CString := []
  sigTyped : CString := []
  /-- The system call. -/
  kill : Int → Int → Int := fun _ _ => 0

/-- What one display leaves behind besides the state. -/
structure Display where
  screen : EnergyScreen
  help : Option (List String × List Int) := none
  kill : Option KillOutcome := none

/-! ## The program -/

structure ProgramState extends PtopState where
  energies : EnergyTables
  /-- The seconds of the last `alarm` that is still pending. -/
  clock : Option Int
  /-- `cleanstop` is installed for SIGINT and SIGTERM. -/
  handlers : Bool

/-- `alarm`. -/
def alarm (seconds : Int) : Option Int := if seconds = 0 then none else some seconds

/-- What a signal does to the program. -/
inductive Signal where
  /-- From another process; the handler is that of the clock. -/
  | sigalrm
  | sigint
  | sigterm
  /-- One that curses catches, such as SIGWINCH: `pause` returns. -/
  | caught
  /-- One whose action is to end the process. -/
  | fatal (sig : Int)
deriving DecidableEq

def SIGINT : Int := 2
def SIGTERM : Int := 15

/-- What the environment answers during one pass, and the signals it sends. -/
structure PassInput where
  ctime : Int
  stat : Option (Option StatsCpu)
  proc : Option (List Pid)
  files : Pid → ProcFiles
  cpufreq : Option (List (Option FreqTable))
  cpuCounter : ℕ → Option u64
  net : Option (u64 × u64)
  purgeTime : Int × Int
  term : Terminal := {}
  /-- SIGALRM comes before the display, and between the display and `pause`. -/
  early : Bool × Bool := (false, false)
  /-- The signal that ends `pause`, unless it is left to the clock. -/
  signal : Option Signal := none
  /-- `time(NULL)` in the two purges of `cleanstop`. -/
  cleanTime : Int × Int := purgeTime

/-- The exit code of a display that ends the program. -/
def Terminal.exitCode (term : Terminal) : Option ℕ :=
  if term.COLS < LEAST_COLUMS then some 1
  else if term.lastchar = some MQUIT then some 0
  else none

/-- A pass as `main_loop` sees it. -/
def PassInput.cycle (inp : PassInput) : CycleInput where
  ctime := inp.ctime
  stat := inp.stat
  proc := inp.proc
  files := inp.files
  cpufreq := inp.cpufreq
  cpuCounter := inp.cpuCounter
  net := inp.net
  isatty := inp.term.isatty
  displayExit := inp.term.exitCode
  purgeTime := inp.purgeTime

structure PassOutput where
  cycle : CycleOutput
  display : Option Display

/-- The ways a pass does not come to its end. -/
inductive Ending where
  /-- `exit` on a read error, or a dereference of `NULL`. -/
  | stop (e : Stop)
  /-- `cleanstop`, with what it leaves behind. -/
  | clean (code : Int) (s : ProgramState)
  /-- A signal without a handler. -/
  | killed (sig : Int)
  /-- A `pause` with no alarm pending, and no signal to end it. -/
  | asleep

/-- `system_clean`: purge, and close every counter. -/
def systemClean (now : Int × Int) (s : ProgramState) : ProgramState :=
  let closed := closeAllCounters s.cpuFd s.tree
  { s with
    db := freeupAll 0 now s.db
    cpuFd := closed.1
    tree := .nil
    fdLog := s.fdLog ++ closed.2 }

/-- `cleanstop`. -/
def cleanstop (code : Int) (now : Int × Int) (s : ProgramState) : Ending :=
  .clean code (systemClean now s)

/-- The body of `main_loop` up to the display. -/
def samplePass (conf : Conf) (inp : CycleInput) (s : PtopState) :
    Except Stop (PtopState × CycleOutput) := do
  let sys ← readCpuStage inp s.toSysState
  match inp.proc with
  | none => .error (.exit 4)
  | some pids =>
      let st ← readListing conf inp.files sys.curr pids s.toTreeState
      let sys := readSystemStats conf inp sys
      let start := WriteAcc.start (sys.sysStats sys.curr) s.pstList st.fdLog
      let (tree, w) ← writeStat conf (sys.writeArgs inp.ctime) st.tree start
      let (sys', sysRow) := writeSystemStats inp.ctime w.amount (sys.addTotals w)
      return ({ toSysState := sys'
                tree := tree
                brk := st.brk
                fdLog := w.fdLog
                pstList := w.pstList
                db := insertSysInfo sysRow (w.rows.foldl (fun db r => insertPs r db) s.db) },
        { sampled := st.tree, itv := sys.itv, rows := w.rows, amount := w.amount,
          sysRow := sysRow })

/-- The clock when help is left; `alarm(0)` stopped it before. -/
def clockAfterHelp (interval : Int) : Option Int :=
  if interval ≠ 0 then alarm 3 else alarm 0

/-- The `switch` of `show_proc_stat`. The pause and resize keys change nothing that lasts,
and `paused` is never set. -/
def keyStage (interval : Int) (inp : PassInput) (scr : EnergyScreen) (s : ProgramState) :
    Except Ending (ProgramState × Display) :=
  let lastchar := inp.term.lastchar.getD 0
  if lastchar = ERR ∨ lastchar = 0 then .ok (s, { screen := scr })
  else if lastchar = MQUIT then .error (cleanstop 0 inp.cleanTime s)
  else if lastchar = MHELP then
    let help := showhelp inp.term.LINES 2 inp.term.helpKeys
    .ok ({ s with clock := clockAfterHelp interval }, { screen := scr, help := some help })
  else if lastchar = MKILLPROC then
    let outcome := mkillproc inp.term.pidTyped inp.term.sigTyped inp.term.kill
    .ok ({ s with clock := alarm 3 }, { screen := scr, kill := some outcome })
  else .ok (s, { screen := scr })

/-- `show_proc_stat`. -/
def displayStage (interval : Int) (inp : PassInput) (amount : Int) (s : ProgramState) :
    Except Ending (ProgramState × Option Display) :=
  if ¬ inp.term.isatty then .ok ({ s with screen := false }, none)
  else
    let s := { s with screen := true }
    if inp.term.COLS < LEAST_COLUMS then .error (cleanstop 1 inp.cleanTime s)
    else
      let scr := energyScreen s.db interval inp.ctime s.pstList amount
      let s := { s with handlers := true, energies := persist scr s.energies }
      (keyStage interval inp scr s).map fun shown => (shown.1, some shown.2)

/-- The display every third cycle. -/
def drawStage (interval : Int) (inp : PassInput) (amount : Int) (s : ProgramState) :
    Except Ending (ProgramState × Option Display) :=
  if s.screen && s.cycle % 3 = 0 then displayStage interval inp amount s else .ok (s, none)

def alarmHandler (interval : Int) (s : ProgramState) : ProgramState :=
  { s with clock := alarm interval }

/-- Where SIGALRM may come outside of `pause`. -/
def onAlarm (interval : Int) (comes : Bool) (s : ProgramState) : ProgramState :=
  { s with clock := if comes then (alarmHandler interval s).clock else s.clock }

/-- SIGINT and SIGTERM, which a display has given the handler `cleanstop`. -/
def terminate (sig : Int) (inp : PassInput) (s : ProgramState) : Ending :=
  if s.handlers then cleanstop sig inp.cleanTime s else .killed sig

/-- `pause`, and the handler of the signal that ends it. -/
def pause (interval : Int) (inp : PassInput) (s : ProgramState) : Except Ending ProgramState :=
  match inp.signal with
  | none =>
      match s.clock with
      | none => .error .asleep
      | some _ => .ok (alarmHandler interval s)
  | some .sigalrm => .ok (alarmHandler interval s)
  | some .caught => .ok s
  | some .sigint => .error (terminate SIGINT inp s)
  | some .sigterm => .error (terminate SIGTERM inp s)
  | some (.fatal sig) => .error (.killed sig)

/-- One pass of `main_loop`. -/
def pass (conf : Conf) (interval : Int) (inp : PassInput) (s : ProgramState) :
    Except Ending (ProgramState × PassOutput) := do
  let (t, out) ← (samplePass conf inp.cycle s.toPtopState).mapError Ending.stop
  let (s₁, display) ← drawStage interval inp out.amount
    (onAlarm interval inp.early.1 { s with toPtopState := t })
  let s₂ ← pause interval inp (onAlarm interval inp.early.2 { s₁ with
    toSysState := s₁.toSysState.next
    db := purgeStage s₁.cycle inp.cycle s₁.db })
  return (s₂, { cycle := out, display := display })

/-- `atoi`. -/
def atoi (s : CString) : Int := toInt32 (atol s)

/-- The sample interval `main` takes from its arguments. -/
def sampleInterval (argv : List CString) : Int :=
  match argv with
  | [_, rate] => if atoi rate ≤ 0 then 1 else atoi rate
  | _ => 1

/-- `system_init` on the tables it finds, and `alarm_handler(0)`. Both `init_stat_data` and
`clean_stat_data` purge; the first reports success in any case. -/
def programStart (interval : Int) (cpuFd : List PCFile) (init clean : Int × Int) (db : Database)
    (energies : EnergyTables) : ProgramState where
  toPtopState := { systemInit cpuFd with db := freeupAll 0 clean (freeupAll 0 init db) }
  energies := energies
  clock := alarm interval
  handlers := false

end PTop
