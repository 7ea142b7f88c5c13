import PTop.Model.Ptop

/-!
# The reference program: sampling over a finite map

What the process tree is for: a map from pid to the sampling part of a node. The
reference program does to each process what `ptop.c` does, but keeps the map and
visits its entries in any order.
-/

namespace PTop

open Framework

/-- A map from tree keys to what is kept about a process. -/
abbrev ProcMap := ElementType → Option PidEntry

/-- What is kept about a process never seen before. -/
def freshEntry : PidEntry where
  fd := -1
  pstList := sallocPid

/-- A list that enumerates the entries of a map. -/
structure Enumerates (order : List ElementType) (m : ProcMap) : Prop where
  nodup : order.Nodup
  mem_iff : ∀ X, X ∈ order ↔ (m X).isSome

namespace Reference

/-- One listed pid. -/
def readProcess (conf : Conf) (files : Pid → ProcFiles) (curr : Bool) (pid : Pid) (m : ProcMap) :
    Except Stop ProcMap :=
  match readEntry conf pid.val (files pid) ((m pid.toElement).getD freshEntry) curr with
  | .error e => .error e
  | .ok (e, _) => .ok (Function.update m pid.toElement (some e))

def readListing (conf : Conf) (files : Pid → ProcFiles) (curr : Bool) :
    List Pid → ProcMap → Except Stop ProcMap
  | [], m => .ok m
  | pid :: pids, m =>
      match readProcess conf files curr pid m with
      | .error e => .error e
      | .ok m => readListing conf files curr pids m

/-- Visit the entries in the given order. -/
def writeStat (conf : Conf) (a : WriteArgs) : List ElementType → ProcMap × WriteAcc →
    ProcMap × WriteAcc
  | [], d => d
  | X :: order, (m, w) =>
      match m X with
      | none => writeStat conf a order (m, w)
      | some e =>
          let (e, w) := writePosition conf a e w
          writeStat conf a order (Function.update m X (some e), w)

/-- The state: the map instead of the tree, and neither display list nor tables. -/
structure State extends SysState where
  procs : ProcMap

def init (cpuFd : List PCFile) : State where
  toSysState := (systemInit cpuFd).toSysState
  procs := fun _ => none

/-- What a cycle inserts into the two tables. -/
structure Output where
  rows : List ProcessInfo
  sysRow : SysInfo

/-- One cycle, with the order in which the map is visited. -/
def mainLoop (conf : Conf) (inp : CycleInput) (order : List ElementType) (r : State) :
    Except Stop (State × Output) := do
  let sys ← readCpuStage inp r.toSysState
  match inp.proc with
  | none => .error (.exit 4)
  | some pids =>
      let procs ← readListing conf inp.files sys.curr pids r.procs
      let sys := readSystemStats conf inp sys
      let start := WriteAcc.start (sys.sysStats sys.curr) (fun _ => {}) []
      let (procs, w) := writeStat conf (sys.writeArgs inp.ctime) order (procs, start)
      let (sys', sysRow) := writeSystemStats inp.ctime w.amount (sys.addTotals w)
      let sys' ← showStage inp sys'
      return ({ toSysState := sys'.next, procs := procs }, { rows := w.rows, sysRow := sysRow })

/-- One cycle, the map being visited in some order. -/
def Cycle (conf : Conf) (inp : CycleInput) (r r' : State) (o : Output) : Prop :=
  ∃ order, Enumerates order r'.procs ∧ mainLoop conf inp order r = .ok (r', o)

end Reference

end PTop
