import PTop.Framework.KeyedLines
import PTop.Model.Files
import PTop.Model.Ptop

/-!
# The cycle on the texts it reads

The readers of `Files` are those whose texts take some care. Here are the others, and
with them one pass of `main_loop` on what the files under `/proc` and `/sys` hold: the
texts are read, and the pass goes on with what was read. Variables that nothing
initialises are part of the input.
-/

namespace PTop

open Framework

/-! ## The files of a process -/

def voluntaryBranch : Branch StatusScan :=
  ⟨ascii "voluntary_ctxt_switches:", 25, fun z s => { s with nvcsw := toUint z }⟩

def nonvoluntaryBranch : Branch StatusScan :=
  ⟨ascii "nonvoluntary_ctxt_switches:", 28, fun z s => { s with nivcsw := toUint z }⟩

/-- The tests of `read_proc_pid_status`, in order. -/
def statusBranches : List (Branch StatusScan) := [voluntaryBranch, nonvoluntaryBranch]

/-- The loop of `read_proc_pid_status`. -/
def scanStatus (text : CString) : StatusScan := readKeyed 255 statusBranches text {}

def readBranch : Branch IoScan :=
  ⟨ascii "read_bytes:", 12, fun z s => { s with readBytes := toUlong z }⟩

def writeBranch : Branch IoScan :=
  ⟨ascii "write_bytes:", 13, fun z s => { s with writeBytes := toUlong z }⟩

def cancelledBranch : Branch IoScan :=
  ⟨ascii "cancelled_write_bytes:", 23, fun z s => { s with cancelledWriteBytes := toUlong z }⟩

/-- The tests of `read_proc_pid_io`. -/
def ioBranches : List (Branch IoScan) := [readBranch, writeBranch, cancelledBranch]

/-- The loop of `read_proc_pid_io`. -/
def scanIo (text : CString) : IoScan := readKeyed 255 ioBranches text {}

/-- `%lld` into a 64-bit field, with the clamp of `strtoll`. -/
def toLlong (z : Int) : u64 := BitVec.ofInt 64 (max (-2 ^ 63) (min z (2 ^ 63 - 1)))

def secondFormat : List Directive :=
  format "%lld %llu %lld %llu %lld %llu %lld %llu %lld %llu %lld %llu %lld %lld"

/-- The second half of `read_proc_pid_stat`: the second line of the file, if it has one. -/
def scanSecond (text : CString) : Option NetScan :=
  match fgetsLoop 4095 [] text with
  | _ :: line :: _ =>
      let v := scanf secondFormat line
      some {
        dsk := { rio := toLlong (intAt v 0), rsz := toUlong (intAt v 1)
                 wio := toLlong (intAt v 2), wsz := toUlong (intAt v 3) }
        net := { tcpsnd := toLlong (intAt v 4), tcpssz := toUlong (intAt v 5)
                 tcprcv := toLlong (intAt v 6), tcprsz := toUlong (intAt v 7)
                 udpsnd := toLlong (intAt v 8), udpssz := toUlong (intAt v 9)
                 udprcv := toLlong (intAt v 10), udprsz := toUlong (intAt v 11)
                 rawsnd := toLlong (intAt v 12), rawrcv := toLlong (intAt v 13) } }
  | _ => none

/-- The test of `total_active_memory`. -/
def activeBranch : Branch u32 := ⟨ascii "Active:", 7, fun z _ => toInt z⟩

/-- `total_active_memory` on the text of `/proc/meminfo`. -/
def totalActiveMemory (active : u32) (text : CString) : u32 :=
  readFirst (BUFFER_SIZE - 1) activeBranch text active

/-- The texts that one process answers with in one cycle, and what `stmaps` of
`read_smaps` and `active` of `total_active_memory` hold at first. -/
structure PidTexts where
  stat : Option CString
  statAgain : Option CString
  status : Option CString
  io : Option CString
  smaps : Option CString
  meminfo : Option CString
  perfOpen : PCFile
  counter : Option u64
  stmaps : StatSmaps
  active : u32

/-- What the readers make of them. -/
def PidTexts.scan (t : PidTexts) : ProcFiles where
  stat := t.stat.map scanStat
  statAgain := t.statAgain.map scanSecond
  status := t.status.map scanStatus
  io := t.io.map scanIo
  smaps := t.smaps.map (readSmaps t.stmaps)
  meminfo := t.meminfo.map (totalActiveMemory t.active)
  perfOpen := t.perfOpen
  counter := t.counter

/-! ## The files of the machine -/

def statCpuFormat : List Directive := format "%llu %llu %llu %llu %llu %llu %llu %llu %llu"

/-- `read_stat_cpu` up to the conversions; `none` is a file without a first line. -/
def scanStatCpu (text : CString) : Option StatsCpu :=
  (fgetsLoop 1023 [] text).head?.map fun line =>
    let v := scanf statCpuFormat (line.drop 5)
    { cpuUser := toUlong (intAt v 0)
      cpuNice := toUlong (intAt v 1)
      cpuSys := toUlong (intAt v 2)
      cpuIdle := toUlong (intAt v 3)
      cpuIowait := toUlong (intAt v 4)
      cpuHardirq := toUlong (intAt v 5)
      cpuSoftirq := toUlong (intAt v 6)
      cpuSteal := toUlong (intAt v 7)
      cpuGuest := toUlong (intAt v 8) }

/-- `atoi` into a `u32`. -/
def atoiPid (name : CString) : u32 :=
  match scanInt name with
  | none => 0
  | some (z, _) => toInt z

/-- A process has no pid 0. -/
def pidOf (x : u32) : Option Pid := if h : x ≠ 0 then some ⟨x, h⟩ else none

/-- The entries of `/proc` that `read_process_stats` takes for processes. -/
def listPids (names : List CString) : List Pid :=
  names.filterMap fun name => if name.head?.any isDigit then pidOf (atoiPid name) else none

/-- `sscanf(line, "%llu %llu", …)`; what it does not reach stays as it was. -/
def scanFreqLine (old : CpuFreqData) (line : CString) : u64 × u64 :=
  match scanf (format "%llu %llu") line with
  | [.int f] => (toUlong f, old.count)
  | [.int f, .int c] => (toUlong f, toUlong c)
  | _ => (old.frequency, old.count)

/-- A `time_in_state` file: what the first 16 entries hold after its lines. -/
def scanTimeInState (freqs : ℕ → CpuFreqData) (text : CString) : FreqTable :=
  (((fgetsLoop 31 [] text).take 16).zipIdx).map fun p => scanFreqLine (freqs p.2) p.1

/-- The directory loop of `read_cpufreq_stats`, over the names and the texts of the
`time_in_state` files; each table is stored before the next is read. -/
def scanCpuDir : (ℕ → CpuFreqData) → List (CString × Option CString) → List (Option FreqTable)
  | _, [] => []
  | freqs, (name, text) :: dirs =>
      if strncmpEq 3 name (ascii "cpu") then
        match text with
        | none => none :: scanCpuDir freqs dirs
        | some text =>
            let table := scanTimeInState freqs text
            some table :: scanCpuDir (storeTable table 0 freqs).1 dirs
      else scanCpuDir freqs dirs

/-! ## The cycle -/

/-- What the environment answers during one pass, as text. -/
structure CycleTexts where
  ctime : Int
  stat : Option CString
  /-- The entries of `/proc`, in `readdir` order. -/
  proc : Option (List CString)
  files : Pid → PidTexts
  cpuDir : Option (List (CString × Option CString))
  cpuCounter : ℕ → Option u64
  netWireless : Option CString
  netDev : Option CString
  /-- What the variables `wireless` and `name` of `stat_sysnet_stats` hold at first. -/
  wireless : CString
  name : CString
  isatty : Bool
  displayExit : Option ℕ
  purgeTime : Int × Int

/-- What the readers make of the texts, given the frequency table before the pass; `none`
is a word of `/proc/net/wireless` that does not fit its variable. -/
def CycleTexts.scan (freqs : ℕ → CpuFreqData) (t : CycleTexts) : Option CycleInput :=
  (readSysnet t.wireless t.name t.netWireless t.netDev).map fun net =>
    { ctime := t.ctime
      stat := t.stat.map scanStatCpu
      proc := t.proc.map listPids
      files := fun pid => (t.files pid).scan
      cpufreq := t.cpuDir.map (scanCpuDir fun i => { freqs i with count := 0 })
      cpuCounter := t.cpuCounter
      net := net
      isatty := t.isatty
      displayExit := t.displayExit
      purgeTime := t.purgeTime }

/-- One pass of `main_loop` on texts. -/
def mainLoopText (conf : Conf) (t : CycleTexts) (s : PtopState) :
    Except Stop (PtopState × CycleOutput) :=
  match t.scan s.freqs with
  | none => .error .segfault
  | some inp => mainLoop conf inp s

end PTop
