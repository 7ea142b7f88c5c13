import PTop.Model.SystemStats
import PTop.Model.Database

/-!
# `ptop.c` — the sampling cycle

One pass of `main_loop` as a function of the state and of what the environment
answers during the pass. `prev` and `curr` are the two indices of the sample
buffers; the loop flips them, nothing else does.
-/

namespace PTop

open Framework

/-! ## `is_active` -/

/-- `is_active(pstj, psti)`: 0 if the pid is gone, -1 if no compared counter of
the current sample `psti` differs from the previous sample `pstj`. -/
def isActive (pstj psti : PidStats) : Int :=
  if psti.pid ≤ 0 then 0
  else if psti.utime ≠ pstj.utime ∨ psti.stime ≠ pstj.stime then 1
  else if psti.cutime ≠ pstj.cutime ∨ psti.cstime ≠ pstj.cstime then 1
  else if psti.minflt ≠ pstj.minflt ∨ psti.majflt ≠ pstj.majflt then 1
  else if psti.vsz ≠ pstj.vsz ∨ psti.rss ≠ pstj.rss then 1
  else if psti.cminflt ≠ pstj.cminflt ∨ psti.cmajflt ≠ pstj.cmajflt then 1
  else if psti.readBytes ≠ pstj.readBytes ∨ psti.writeBytes ≠ pstj.writeBytes ∨
      psti.cancelledWriteBytes ≠ pstj.cancelledWriteBytes then 1
  else if psti.nvcsw ≠ pstj.nvcsw ∨ psti.nivcsw ≠ pstj.nivcsw then 1
  else -1

/-! ## Reading -/

/-- `read_pid_stats`: fill slot `curr` of the entry. Returns 0 or 1, as the
source does, with the entry and what happened to descriptors. -/
def readPidStats (conf : Conf) (pid : u32) (f : ProcFiles) (p : PidEntry) (curr : Bool) :
    Except Stop (Int × PidEntry × List FdEvent) :=
  let (ret, pst) := readProcPidStat conf pid f {}
  if ret ≠ 0 then .ok (1, p.setSlot curr pst, [])
  else
    let (ret, pst) := readProcPidStatus pid f pst
    if ret ≠ 0 then .ok (1, p.setSlot curr pst, [])
    else
      let (ret, pst) := readProcPidIo pid f pst
      if ret ≠ 0 then .ok (1, p.setSlot curr pst, [])
      else
        let active := isActive (p.pstList (!curr)) pst
        match readProcPidMem f pst p.fd active with
        | .error e => .error e
        | .ok (pst, fd, ev) => .ok (0, { p with fd := fd }.setSlot curr pst, ev)

/-- The body of the listing loop once the node is known: a failed read marks
the slot as empty. -/
def readEntry (conf : Conf) (pid : u32) (f : ProcFiles) (p : PidEntry) (curr : Bool) :
    Except Stop (PidEntry × List FdEvent) :=
  match readPidStats conf pid f p curr with
  | .error e => .error e
  | .ok (ret, p, ev) =>
      if ret ≠ 0 then .ok (p.setSlot curr { p.pstList curr with pid := 0 }, ev) else .ok (p, ev)

/-- The part of the state the listing loop works on. -/
structure TreeState where
  tree : AvlTree
  brk : Position
  fdLog : List FdEvent

/-- Find the node of a pid, or insert one. -/
def locate (pid : Pid) (st : TreeState) : Except Stop (TreeState × Option Position) :=
  match AvlTree.find pid.toElement st.tree with
  | some p => .ok (st, some p)
  | none =>
      match AvlTree.insert pid.toElement (-1) st.brk st.tree none with
      | none => .error .segfault
      | some (tree, position) => .ok ({ st with tree := tree, brk := st.brk + 1 }, position)

/-- One listed pid. -/
def readProcess (conf : Conf) (files : Pid → ProcFiles) (curr : Bool) (pid : Pid)
    (st : TreeState) : Except Stop TreeState := do
  let (st, position) ← locate pid st
  match position with
  | none => .error .segfault
  | some p =>
      match AvlTree.load p st.tree with
      | none => .error .segfault
      | some node =>
          let (e, ev) ← readEntry conf pid.val (files pid) node.toPidEntry curr
          return { st with tree := AvlTree.store p e st.tree, fdLog := st.fdLog ++ ev }

/-- The listing loop. -/
def readListing (conf : Conf) (files : Pid → ProcFiles) (curr : Bool) :
    List Pid → TreeState → Except Stop TreeState
  | [], st => .ok st
  | pid :: pids, st => do
      let st ← readProcess conf files curr pid st
      readListing conf files curr pids st

/-! ## Writing -/

/-- `100.0f / itv`. -/
def percentUnit (itv : u64) : XFloat := .fin 100 / .ofNat itv.toNat

/-- `S_VALUE(m, n, p)`. -/
def S_VALUE (conf : Conf) (m n : u32) (p : u64) : XFloat :=
  .ofNat (n - m).toNat / .ofNat p.toNat * .ofNat conf.hz.toNat

/-- `SP_VALUE(m, n, p)`. -/
def SP_VALUE (m n p : u32) : XFloat :=
  .ofNat (n - m).toNat / .ofNat p.toNat * .fin 100

/-- A jiffy counter that fell by less than 100 is put back. -/
def clampTime (old new : u64) : u64 := if new < old ∧ old - new < 100 then old else new

/-- The clamp of `write_stat`, which rewrites the stored sample. -/
def clampSample (pstj psti : PidStats) : PidStats :=
  { psti with
    utime := clampTime pstj.utime psti.utime
    stime := clampTime pstj.stime psti.stime
    gtime := clampTime pstj.gtime psti.gtime }

/-- The row `write_stat` fills in, from a current sample already clamped. -/
def processRow (conf : Conf) (time : u32) (itv : u64) (pstj psti : PidStats) : ProcessInfo :=
  let writeBytes := conf.stored (u64Subcount psti.writeBytes pstj.writeBytes)
  let cancelled := conf.stored (u64Subcount psti.cancelledWriteBytes pstj.cancelledWriteBytes)
  { time := time
    pid := psti.pid
    -- the first difference is of `psti` with itself in the source
    utime := .ofNat (u64Subcount psti.utime psti.utime -
      u64Subcount psti.gtime pstj.gtime).toNat * percentUnit itv
    stime := .ofNat (u64Subcount psti.stime pstj.stime).toNat * percentUnit itv
    gtime := .ofNat (u64Subcount psti.gtime pstj.gtime).toNat * percentUnit itv
    cpu := .ofNat (u64Subcount psti.utime pstj.utime +
      u64Subcount psti.stime pstj.stime).toNat * percentUnit itv
    minflt := S_VALUE conf pstj.minflt psti.minflt itv
    majflt := S_VALUE conf pstj.majflt psti.majflt itv
    vsz := psti.vsz
    rss := psti.rss
    mem := if conf.tlmkb ≠ 0 then SP_VALUE 0 psti.rss conf.tlmkb else .fin 0
    readBytes := conf.stored (u64Subcount psti.readBytes pstj.readBytes)
    writeBytes := writeBytes
    cancelledWriteBytes := if cancelled > writeBytes then writeBytes else cancelled
    cswch := S_VALUE conf pstj.nvcsw psti.nvcsw itv
    nvcswch := S_VALUE conf pstj.nivcsw psti.nivcsw itv
    cmdline := psti.comm
    netsnd := conf.stored (u64Subcount psti.net.totalnetsnd pstj.net.totalnetsnd)
    netrcv := conf.stored (u64Subcount psti.net.totalnetrcv pstj.net.totalnetrcv)
    ratio := if psti.mem.totalActive > 0 then
      .ofNat psti.mem.memoryUsed.toNat * .fin 100 / .ofNat psti.mem.totalActive.toNat else .fin 0
    cpuAccesses := if psti.mem.cpuAccesses > 0 then
      u64Subcount psti.mem.cpuAccesses pstj.mem.cpuAccesses else 0 }

/-- The test that admits a row to the display list. -/
def ProcessInfo.displayable (r : ProcessInfo) : Bool :=
  decide (r.cpu > .fin 0) || decide (r.cpuAccesses > 0) ||
    decide (r.netrcv + r.netsnd > .fin 0) || decide (r.netrcv + r.netsnd > .fin 0)

def SHOW_NUM : ℕ := 40

/-- The loop of `add_higher_process_info`, from `length` entries downwards:
entries with less cpu move up one place. Returns `i + 1` of the source. -/
def shiftLower (pi : ProcessInfo) : ℕ → (ℕ → ProcessInfo) → ℕ × (ℕ → ProcessInfo)
  | 0, pstList => (0, pstList)
  | i + 1, pstList =>
      if (pstList i).cpu < pi.cpu ∧ i ≠ SHOW_NUM - 1 then
        shiftLower pi i (Function.update pstList (i + 1) (pstList i))
      else (i + 1, pstList)

def addHigherProcessInfo (pi : ProcessInfo) (length : ℕ) (pstList : ℕ → ProcessInfo) :
    ℕ → ProcessInfo :=
  let (place, pstList) := shiftLower pi length pstList
  if place ≤ SHOW_NUM - 1 then Function.update pstList place pi else pstList

/-- What `write_stat` accumulates: the totals of `sys_stats[curr]`, the display
list with its count, the rows inserted and the descriptors closed. -/
structure WriteAcc where
  totaldiskread : u64
  totaldiskwrite : u64
  idx : ℕ
  pstList : ℕ → ProcessInfo
  rows : List ProcessInfo
  fdLog : List FdEvent

/-- The call of `add_higher_process_info`, with the caller's clamp of the length. -/
def WriteAcc.display (w : WriteAcc) (row : ProcessInfo) : WriteAcc :=
  { w with
    pstList := addHigherProcessInfo row (if w.idx ≥ SHOW_NUM then SHOW_NUM else w.idx) w.pstList
    idx := w.idx + 1 }

/-- The arguments `write_stat` passes down unchanged. -/
structure WriteArgs where
  curr : Bool
  time : u32
  itv : u64
  screen : Bool

/-- `clear_position`. -/
def clearPosition (p : PidEntry) : PidEntry × List FdEvent :=
  ({ p with fd := -1 }, if p.fd > 0 then [.closed p.fd] else [])

/-- `write_stat` at one node. -/
def writePosition (conf : Conf) (a : WriteArgs) (p : PidEntry) (w : WriteAcc) :
    PidEntry × WriteAcc :=
  let psti := p.pstList a.curr
  let pstj := p.pstList (!a.curr)
  if isActive pstj psti ≤ 0 then
    let (p, ev) := clearPosition p
    (p, { w with fdLog := w.fdLog ++ ev })
  else
    let read := subcount (psti.readBytes.setWidth 32) (pstj.readBytes.setWidth 32)
    let write := subcount (psti.writeBytes.setWidth 32) (pstj.writeBytes.setWidth 32) -
      subcount (psti.cancelledWriteBytes.setWidth 32) (pstj.cancelledWriteBytes.setWidth 32)
    let psti := clampSample pstj psti
    let row := processRow conf a.time a.itv pstj psti
    let w := { w with
      totaldiskread := w.totaldiskread + read.setWidth 64
      totaldiskwrite := w.totaldiskwrite + write.setWidth 64
      rows := w.rows ++ [row] }
    (p.setSlot a.curr psti, if a.screen && row.displayable then w.display row else w)

/-- `write_stat`: the node, then its left, then its right subtree. The children
are tested before the call; the root is not. -/
def writeStat (conf : Conf) (a : WriteArgs) : AvlTree → WriteAcc →
    Except Stop (AvlTree × WriteAcc)
  | .nil, _ => .error .segfault
  | .node l n h r, w =>
      let node := writePosition conf a n.toPidEntry w
      match if l.isNil then .ok (l, node.2) else writeStat conf a l node.2 with
      | .error e => .error e
      | .ok left =>
          match if r.isNil then .ok (r, left.2) else writeStat conf a r left.2 with
          | .error e => .error e
          | .ok right => .ok (.node left.1 { n with toPidEntry := node.1 } h right.1, right.2)

/-! ## The cycle -/

/-- What the environment answers during one pass of `main_loop`. -/
structure CycleInput where
  /-- `time(NULL)` at the top of the loop. -/
  ctime : Int
  stat : Option (Option StatsCpu)
  /-- The numeric entries of `/proc`, in `readdir` order. -/
  proc : Option (List Pid)
  files : Pid → ProcFiles
  cpufreq : Option (List (Option FreqTable))
  cpuCounter : ℕ → Option u64
  net : Option (u64 × u64)
  /-- `isatty(1)`, asked when the display is drawn. -/
  isatty : Bool
  /-- The exit code if the display ends the program. -/
  displayExit : Option ℕ
  /-- `time(NULL)` in the two purges. -/
  purgeTime : Int × Int

/-- The part of the state that has nothing to do with single processes. -/
structure SysState where
  sysStats : Bool → SysInfo
  curr : Bool
  cycle : ℕ
  screen : Bool
  /-- The per-CPU descriptors `fd[0 .. nr_cpus)`. -/
  cpuFd : List PCFile
  freqs : ℕ → CpuFreqData

structure PtopState extends SysState, TreeState where
  pstList : ℕ → ProcessInfo
  db : Database

/-- What one pass shows to the outside, with the tree as `write_stat` finds it. -/
structure CycleOutput where
  sampled : AvlTree
  itv : u64
  rows : List ProcessInfo
  amount : Int
  sysRow : SysInfo

def CLEAN_INTERVAL : ℕ := 31

/-- `memset(&sys_stats[curr])` and `read_stat_cpu`. -/
def readCpuStage (inp : CycleInput) (s : SysState) : Except Stop SysState :=
  match readStatCpu inp.stat {} with
  | .error e => .error e
  | .ok sy => .ok { s with sysStats := Function.update s.sysStats s.curr sy }

/-- `read_system_stats`. -/
def readSystemStats (conf : Conf) (inp : CycleInput) (s : SysState) : SysState :=
  let (freqs, sy) := readCpufreqStats conf inp.cpufreq s.freqs (s.sysStats s.curr)
  let sy := { sy with memaccess := readCpuCounter s.cpuFd inp.cpuCounter }
  let sy := statSysnetStats inp.net sy
  { s with freqs := freqs, sysStats := Function.update s.sysStats s.curr sy }

/-- The `itv` of `write_process_stats`: busy jiffies since the last cycle. -/
def SysState.itv (s : SysState) : u64 :=
  u64Subcount ((s.sysStats s.curr).runtime.setWidth 64) ((s.sysStats (!s.curr)).runtime.setWidth 64)

/-- The arguments of the outermost `write_stat`. -/
def SysState.writeArgs (s : SysState) (ctime : Int) : WriteArgs where
  curr := s.curr
  time := BitVec.ofInt 32 ctime
  itv := s.itv
  screen := s.screen

/-- The accumulators at the start of `write_process_stats`. -/
def WriteAcc.start (sy : SysInfo) (pstList : ℕ → ProcessInfo) (fdLog : List FdEvent) : WriteAcc where
  totaldiskread := sy.totaldiskread
  totaldiskwrite := sy.totaldiskwrite
  idx := 0
  pstList := pstList
  rows := []
  fdLog := fdLog

/-- `write_process_stats` returns `idx - 1`. -/
def WriteAcc.amount (w : WriteAcc) : Int := w.idx - 1

/-- Store the disk totals `write_stat` accumulated in `sys_stats[curr]`. -/
def SysState.addTotals (s : SysState) (w : WriteAcc) : SysState :=
  { s with sysStats := Function.update s.sysStats s.curr { s.sysStats s.curr with
      totaldiskread := w.totaldiskread, totaldiskwrite := w.totaldiskwrite } }

/-- `write_system_stats`: stamp the sample and form the row `sys_stats[2]`. -/
def writeSystemStats (ctime amount : Int) (s : SysState) : SysState × SysInfo :=
  let sc := { s.sysStats s.curr with time := BitVec.ofInt 32 ctime }
  let sp := s.sysStats (!s.curr)
  let row := { sc with
    totalnetrcv := u64Subcount sc.totalnetrcv sp.totalnetrcv
    totalnetsnd := u64Subcount sc.totalnetsnd sp.totalnetsnd
    itv := (u64Subcount (sc.itv.setWidth 64) (sp.itv.setWidth 64)).setWidth 32
    runtime := (u64Subcount (sc.runtime.setWidth 64) (sp.runtime.setWidth 64)).setWidth 32
    memaccess := u64Subcount sc.memaccess sp.memaccess
    activeProcessNum := amount }
  ({ s with sysStats := Function.update s.sysStats s.curr sc }, row)

/-- The display every third cycle, as far as the rest of the program notices it. -/
def showStage (inp : CycleInput) (s : SysState) : Except Stop SysState :=
  if s.screen && s.cycle % 3 = 0 then
    match inp.isatty, inp.displayExit with
    | true, some code => .error (.exit code)
    | isatty, _ => .ok { s with screen := isatty }
  else .ok s

/-- `cycle++`, `curr ^= 1`. -/
def SysState.next (s : SysState) : SysState := { s with cycle := s.cycle + 1, curr := !s.curr }

/-- `freeup_all`, every `CLEAN_INTERVAL` cycles. -/
def purgeStage (cycle : ℕ) (inp : CycleInput) (db : Database) : Database :=
  if cycle % CLEAN_INTERVAL = 0 then freeupAll (BitVec.ofNat 32 CLEAN_INTERVAL) inp.purgeTime db else db

/-- One pass of `main_loop`. -/
def mainLoop (conf : Conf) (inp : CycleInput) (s : PtopState) :
    Except Stop (PtopState × CycleOutput) := do
  let sys ← readCpuStage inp s.toSysState
  match inp.proc with
  | none => .error (.exit 4)
  | some pids =>
      let st ← readListing conf inp.files sys.curr pids s.toTreeState
      let sys := readSystemStats conf inp sys
      let start := WriteAcc.start (sys.sysStats sys.curr) s.pstList st.fdLog
      let (tree, w) ← writeStat conf (sys.writeArgs inp.ctime) st.tree start
      let (sys', sysRow) := writeSystemStats inp.ctime w.amount (sys.addTotals w)
      let sys' ← showStage inp sys'
      let db := insertSysInfo sysRow (w.rows.foldl (fun db r => insertPs r db) s.db)
      return ({ toSysState := sys'.next
                tree := tree
                brk := st.brk
                fdLog := w.fdLog
                pstList := w.pstList
                db := purgeStage s.cycle inp db },
        { sampled := st.tree, itv := sys.itv, rows := w.rows, amount := w.amount,
          sysRow := sysRow })

/-- The state `system_init` leaves behind: a `NULL` tree, zeroed samples, and
the per-CPU counters open. -/
def systemInit (cpuFd : List PCFile) : PtopState where
  sysStats := fun _ => {}
  curr := true
  cycle := 1
  screen := true
  cpuFd := cpuFd
  freqs := fun _ => {}
  tree := .nil
  brk := 0
  fdLog := (cpuFd.filter fun fd => 0 ≤ fd).map FdEvent.opened
  pstList := fun _ => {}
  db := {}

end PTop
