import PTop.Model.PidStats
import Mathlib.Logic.Function.Basic

/-!
# `cpu_stats.c`, `m_stats.c` — sampling the machine

The readers of `/proc/stat`, the CPU frequency tables, the per-CPU cache-miss
counters and the wireless interface, each given what its files answer.
-/

namespace PTop

open Framework

/-- The first line of `/proc/stat`. -/
structure StatsCpu where
  cpuUser : u64 := 0
  cpuNice : u64 := 0
  cpuSys : u64 := 0
  cpuIdle : u64 := 0
  cpuIowait : u64 := 0
  cpuSteal : u64 := 0
  cpuHardirq : u64 := 0
  cpuSoftirq : u64 := 0
  cpuGuest : u64 := 0

/-- `read_stat_cpu`; `some none` is a file without a first line. -/
def readStatCpu (stat : Option (Option StatsCpu)) (sy : SysInfo) : Except Stop SysInfo :=
  match stat with
  | none => .error (.exit 2)
  | some none => .ok sy
  | some (some c) =>
      let itv := c.cpuUser + c.cpuNice + c.cpuSys + c.cpuIdle + c.cpuIowait + c.cpuHardirq +
        c.cpuSteal + c.cpuSoftirq
      let runtime := c.cpuUser + c.cpuSys - c.cpuGuest
      .ok { sy with itv := itv.setWidth 32, runtime := runtime.setWidth 32 }

/-- One entry of the frequency arrays. -/
structure CpuFreqData where
  frequency : u64 := 0
  count : u64 := 0

/-- The lines of one `time_in_state` file: frequency and ticks. -/
abbrev FreqTable := List (u64 × u64)

/-- Store the lines of one file from index `i` on; past 16 the rest is ignored.
Returns the index after the last line stored. -/
def storeTable : FreqTable → ℕ → (ℕ → CpuFreqData) → (ℕ → CpuFreqData) × ℕ
  | [], i, freqs => (freqs, i)
  | (frequency, count) :: lines, i, freqs =>
      let freqs := Function.update freqs i ⟨frequency, count⟩
      if i + 1 > 15 then (freqs, i + 1) else storeTable lines (i + 1) freqs

/-- Go through the CPU directories; `none` is a file that cannot be opened. -/
def storeTables : List (Option FreqTable) → Int → (ℕ → CpuFreqData) → (ℕ → CpuFreqData) × Int
  | [], maxfreq, freqs => (freqs, maxfreq)
  | none :: dirs, maxfreq, freqs => storeTables dirs maxfreq freqs
  | some lines :: dirs, _, freqs =>
      let (freqs, i) := storeTable lines 0 freqs
      storeTables dirs (i - 1) freqs

/-- `delta_power` at index `ret`, in `Watt * 10ms`. -/
def deltaPower (conf : Conf) (maxfreq : Int) (ret : ℕ) (count : u64) : ℚ :=
  let fl := conf.float
  let rangecpupower := fl.sub conf.maxcpupower conf.mincpupower
  let power := fl.sub conf.maxcpupower (fl.div (fl.mul rangecpupower (fl ret)) (fl maxfreq))
  fl.div (fl.mul power (fl count.toNat)) (fl 100)

/-- The accumulation of `read_cpufreq_stats` over `ret = 0 .. maxfreq`. -/
def powerOfDelta (conf : Conf) (maxfreq : Int) (totalTime : u64) (delta : ℕ → u64) : ℚ :=
  conf.float.sum ((List.range (maxfreq + 1).toNat).map fun ret =>
    if totalTime > 0 ∧ maxfreq > 0 then deltaPower conf maxfreq ret (delta ret) else 0)

/-- `read_cpufreq_stats`. The baseline is saved and the counts are cleared
before the directory is opened. -/
def readCpufreqStats (conf : Conf) (dirs : Option (List (Option FreqTable)))
    (freqs : ℕ → CpuFreqData) (sy : SysInfo) : (ℕ → CpuFreqData) × SysInfo :=
  let sy := { sy with cpupower := 0 }
  if conf.cpufreqStats = false then (freqs, sy)
  else
    let cleared := fun i => { freqs i with count := 0 }
    match dirs with
    | none => (cleared, sy)
    | some dirs =>
        let (new, maxfreq) := storeTables dirs 0 cleared
        let delta := fun i => (new i).count - (freqs i).count
        let totalTime := ((List.range 16).map delta).sum
        (new, { sy with cpupower := powerOfDelta conf maxfreq totalTime delta })

/-- `read_cpu_counter`: the sum over the per-CPU descriptors. -/
def readCpuCounter (fd : List PCFile) (answer : ℕ → Option u64) : u64 :=
  (fd.zipIdx.map fun p => readCounter p.1 (answer p.2)).sum

/-- `stat_sysnet_stats`; `none` when the interface's counters are not found. -/
def statSysnetStats (net : Option (u64 × u64)) (sy : SysInfo) : SysInfo :=
  match net with
  | none => { sy with totalnetrcv := 0, totalnetsnd := 0 }
  | some (rcv, snd) => { sy with totalnetrcv := rcv, totalnetsnd := snd }

end PTop
