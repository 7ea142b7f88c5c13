import PTop.Framework.CheckedArray
import PTop.Model.SystemStats

/-!
# `eperf.c` — the per-CPU counters, index by index

`systemInit` and the functions it is used with take the descriptors of the CPUs as a
list. Here is the code as it stands: a static array of `MAX_NR_CPUS` cells, and
`nr_cpus`, a `u32` that holds whatever `sysconf` returned. An access outside the array
ends the run; what C does from there on is undefined.
-/

namespace PTop.Eperf

open Framework

/-- How a run can end early. -/
inductive Fault where
  | exit (code : ℕ)
  | outside (index : Int)
deriving DecidableEq

/-- The static variables of `eperf.c` that the counters of the CPUs use. -/
structure State where
  nrCpus : u32 := 0
  fd : Vector PCFile MAX_NR_CPUS := Vector.replicate MAX_NR_CPUS 0

/-- `read_cpu_counter`; `answer` is what a read of each counter returns. -/
def readCpuCounter (answer : ℕ → Option u64) (s : State) : Except Fault u64 :=
  forLoop (fun cpu result => do
    let fd ← checkedGet Fault.outside s.fd cpu
    return result + readCounter fd (answer cpu)) s.nrCpus.toNat 0

/-- The body of the loop of `close_all_counters`. -/
def closeCounter (counter : ℕ) (st : Vector PCFile MAX_NR_CPUS × List FdEvent) :
    Except Fault (Vector PCFile MAX_NR_CPUS × List FdEvent) := do
  let d ← checkedGet Fault.outside st.1 counter
  if d ≤ 0 then return st
  let fd ← checkedSet Fault.outside st.1 counter (-1)
  return (fd, st.2 ++ [.closed d])

/-- `close_all_counters`. -/
def closeAllCounters (tree : AvlTree) (s : State) :
    Except Fault (State × AvlTree × List FdEvent) := do
  let (fd, log) ← forLoop closeCounter s.nrCpus.toNat (s.fd, [])
  let (tree, closed) := AvlTree.empty tree
  return ({ s with fd := fd }, tree, log ++ closed)

/-- The body of the loop of `create_perf_stat_counter`. -/
def openCounter (sysPerfEventOpen : Int → Int → PCFile) (cpu : ℕ) (fd : Vector PCFile MAX_NR_CPUS) :
    Except Fault (Vector PCFile MAX_NR_CPUS) :=
  checkedSet Fault.outside fd cpu (sysPerfEventOpen (-1) cpu)

/-- `create_perf_stat_counter`; `sysPerfEventOpen` takes the pid and the CPU. -/
def createPerfStatCounter (sysPerfEventOpen : Int → Int → PCFile) (pid : Int) (systemWide : Bool)
    (s : State) : Except Fault (PCFile × State) :=
  if systemWide then do
    let fd ← forLoop (openCounter sysPerfEventOpen) s.nrCpus.toNat s.fd
    -- `cpu` has reached `nr_cpus`; the subtraction is one of `unsigned int`
    let last := s.nrCpus - 1
    let d ← checkedGet Fault.outside fd last.toNat
    return (d, { s with fd := fd })
  else return (sysPerfEventOpen pid (-1), s)

/-- `init_perf`; `nproc` is what `sysconf` returns, a `long`. -/
def initPerf (sysPerfEventOpen : Int → Int → PCFile) (nproc : Int) (s : State) :
    Except Fault State := do
  let s := { s with nrCpus := BitVec.ofInt 32 nproc }
  let (_, s) ← createPerfStatCounter sysPerfEventOpen 1 true s
  return s

/-- `get_cpu_nr` of `cpu_stats.c`. An `int` is compared with an `unsigned int`, so the
comparison is unsigned. -/
def getCpuNr (nproc : Int) (maxNrCpus : u32) : Except Fault Int :=
  let cpuNr : u32 := BitVec.ofInt 32 nproc
  if cpuNr > maxNrCpus then .error (.exit 1) else .ok cpuNr.toInt

/-! ## Runs -/

/-- What the main loop and `system_clean` call. -/
inductive Call where
  | readCpuCounter (answer : ℕ → Option u64)
  | createPerfStatCounter (sysPerfEventOpen : Int → Int → PCFile) (pid : Int)
  | closeAllCounters (tree : AvlTree)

def Call.run (s : State) : Call → Except Fault State
  | .readCpuCounter answer => (Eperf.readCpuCounter answer s).map fun _ => s
  | .createPerfStatCounter sysPerfEventOpen pid =>
      (Eperf.createPerfStatCounter sysPerfEventOpen pid false s).map Prod.snd
  | .closeAllCounters tree => (Eperf.closeAllCounters tree s).map Prod.fst

/-- The lines of `system_init` that ask for the number of processors. Each of the two
asks for itself: `nproc` is what `get_cpu_nr` is told, `nproc'` what `init_perf` is. -/
def systemInit (sysPerfEventOpen : Int → Int → PCFile) (nproc nproc' : Int) :
    Except Fault State := do
  let _ ← getCpuNr nproc (~~~0)
  initPerf sysPerfEventOpen nproc' {}

/-- A run of the program, as far as these counters see it. -/
def run (sysPerfEventOpen : Int → Int → PCFile) (nproc nproc' : Int) (calls : List Call) :
    Except Fault State := do
  let s ← systemInit sysPerfEventOpen nproc nproc'
  calls.foldlM Call.run s

end PTop.Eperf
