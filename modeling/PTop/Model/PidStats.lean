import PTop.Model.AvlTree

/-!
# `pid_stats.c`, `eperf.c`, `m_stats.c` — sampling one process

A process answers a cycle through four files it owns, `/proc/meminfo`, and its
performance counter. `ProcFiles` holds these answers: `none` is an open that
fails, and a record holds what the reader's `scanf` calls store, with 0 for
what they leave alone.
-/

namespace PTop

open Framework

def MAX_COMM_LEN : ℕ := 16

/-- The conversions of the first line of `/proc/<pid>/stat`. -/
structure StatScan where
  comm : CString := []
  minflt : u64 := 0
  cminflt : u64 := 0
  majflt : u64 := 0
  cmajflt : u64 := 0
  utime : u64 := 0
  stime : u64 := 0
  cutime : u64 := 0
  cstime : u64 := 0
  vsz : u64 := 0
  rss : u64 := 0
  processor : u32 := 0
  gtime : u64 := 0
  cgtime : u64 := 0

/-- The conversions of the second line of the stat file of a patched kernel. -/
structure NetScan where
  dsk : Dsk := {}
  net : Net := {}

structure StatusScan where
  nvcsw : u32 := 0
  nivcsw : u32 := 0

structure IoScan where
  readBytes : u64 := 0
  writeBytes : u64 := 0
  cancelledWriteBytes : u64 := 0

/-- `struct stat_smaps`: the sums over all mappings. -/
structure StatSmaps where
  size : u32 := 0
  rss : u32 := 0
  pss : u32 := 0
  sharedClean : u32 := 0
  sharedDirty : u32 := 0
  privateClean : u32 := 0
  privateDirty : u32 := 0
  referenced : u32 := 0
  swap : u32 := 0

/-- What one process answers in one cycle. The stat file is opened twice; the
second time `some none` is a file without a second line. -/
structure ProcFiles where
  stat : Option StatScan
  statAgain : Option (Option NetScan)
  status : Option StatusScan
  io : Option IoScan
  smaps : Option StatSmaps
  /-- The `Active:` figure of `/proc/meminfo`. -/
  meminfo : Option u32
  /-- What `perf_event_open` returns if it is called. -/
  perfOpen : PCFile
  /-- What a full read of the counter returns. -/
  counter : Option u64

/-- Something that happened to a counter descriptor. -/
inductive FdEvent where
  | opened (fd : PCFile)
  | closed (fd : PCFile)
deriving DecidableEq

/-! ## `eperf.c` -/

/-- `read_counter`: a short read counts 0. -/
def readCounter (fd : PCFile) (answer : Option u64) : u64 :=
  if fd ≤ 0 then 0 else answer.getD 0

/-- `create_perf_stat_counter(pid, FALSE)`. -/
def createPerfStatCounter (f : ProcFiles) : PCFile × List FdEvent :=
  (f.perfOpen, if 0 ≤ f.perfOpen then [.opened f.perfOpen] else [])

def MAX_NR_CPUS : ℕ := 32

/-- `empty` of `avltree.c`: both subtrees first, then the counter of the node. -/
def AvlTree.empty : AvlTree → AvlTree × List FdEvent
  | .nil => (.nil, [])
  | .node l n _ r => (.nil, (empty l).2 ++ (empty r).2 ++ if n.fd > 0 then [.closed n.fd] else [])

/-- `close_all_counters`: the per-CPU descriptors, then those of the tree. -/
def closeAllCounters (fd : List PCFile) (tree : AvlTree) : List PCFile × List FdEvent :=
  (fd.map fun d => if d ≤ 0 then d else -1,
    (fd.flatMap fun d => if d ≤ 0 then [] else [.closed d]) ++ (AvlTree.empty tree).2)

/-! ## `pid_stats.c` -/

/-- `strncpy`, the forced terminator, and the removal of a trailing `)`. -/
def commOf (comm : CString) : CString :=
  let c := comm.take (MAX_COMM_LEN - 1)
  if c.getLast? = some 41 then c.dropLast else c

def readProcPidStat (conf : Conf) (pid : u32) (f : ProcFiles) (pst : PidStats) : Int × PidStats :=
  match f.stat with
  | none => (1, pst)
  | some s =>
      let pst := { pst with
        minflt := s.minflt.setWidth 32, cminflt := s.cminflt.setWidth 32,
        majflt := s.majflt.setWidth 32, cmajflt := s.cmajflt.setWidth 32,
        utime := s.utime, stime := s.stime, cutime := s.cutime, cstime := s.cstime,
        vsz := s.vsz.setWidth 32 >>> 10, rss := s.rss.setWidth 32 <<< conf.kbShift,
        processor := s.processor, gtime := s.gtime, cgtime := s.cgtime,
        comm := commOf s.comm, pid := pid }
      match f.statAgain with
      | none => (1, pst)
      | some none => (0, pst)
      | some (some n) => (0, { pst with
          dsk := n.dsk
          net := { n.net with
            totalnetsnd := n.net.tcpsnd + n.net.udpsnd + n.net.rawsnd
            totalnetrcv := n.net.tcprcv + n.net.udprcv + n.net.rawrcv } })

def readProcPidStatus (pid : u32) (f : ProcFiles) (pst : PidStats) : Int × PidStats :=
  match f.status with
  | none => (1, pst)
  | some s => (0, { pst with nvcsw := s.nvcsw, nivcsw := s.nivcsw, pid := pid })

def readProcPidIo (pid : u32) (f : ProcFiles) (pst : PidStats) : Int × PidStats :=
  match f.io with
  | none => (1, pst)
  | some s => (0, { pst with
      readBytes := s.readBytes, writeBytes := s.writeBytes,
      cancelledWriteBytes := s.cancelledWriteBytes, pid := pid })

/-- `read_smaps` and `total_active_memory` give up on the whole program when
their file cannot be opened. -/
def readProcPidMem (f : ProcFiles) (pst : PidStats) (fd : PCFile) (active : Int) :
    Except Stop (PidStats × PCFile × List FdEvent) :=
  match f.smaps, f.meminfo with
  | none, _ => .error (.exit 2)
  | some _, none => .error (.exit 2)
  | some smaps, some active' =>
      let opened := if active ≠ 0 ∧ fd ≤ 0 then createPerfStatCounter f else (fd, [])
      let mem : Memory := {
        memoryUsed := (smaps.pss + smaps.privateClean + smaps.privateDirty).setWidth 64
        totalActive := active'.signExtend 64
        cpuAccesses := readCounter opened.1 f.counter }
      .ok ({ pst with mem := mem }, opened)

end PTop
