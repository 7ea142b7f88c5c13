import PTop.Framework.ExactFloat
import PTop.Framework.Rounding
import PTop.Framework.WrapCounter
import Mathlib.Order.Defs.LinearOrder

/-!
# `common.c`, `common.h`, `database.h` — shared types and the counter difference

C's fixed-width integers are bit vectors. A C `float` is a rational where the code
guards its divisors, an `XFloat` where it divides by an unguarded counter (the
fields of `ProcessInfo`). The power of the processor and the bytes and packets of
a row are rounded to what a `float` holds; percentages and rates are exact.
Structures keep the fields some modelled function reads or writes; a `memset` to
zero is the structure's default value.
-/

namespace PTop

open Framework

abbrev u32 := BitVec 32
abbrev u64 := BitVec 64

/-- `typedef int ElementType`, the key of a tree node. -/
abbrev ElementType := Int32

/-- `typedef int PCFile`, a performance-counter descriptor. -/
abbrev PCFile := Int

instance elementLinearOrder : LinearOrder Int32 where
  le_refl := Int32.le_refl
  le_trans _ _ _ := Int32.le_trans
  le_antisymm _ _ := Int32.le_antisymm
  le_total := Int32.le_total
  lt_iff_le_not_ge a b := by
    rw [Int32.not_le]
    exact ⟨fun h => ⟨(Int32.lt_iff_le_and_ne.mp h).1, h⟩, fun h => h.2⟩
  toDecidableLE := inferInstance

/-- A process id as `/proc` lists one: never zero. -/
abbrev Pid := { p : u32 // p ≠ 0 }

/-- The implicit conversion of a `u32` pid to the `int` key of the tree. -/
def Pid.toElement (p : Pid) : ElementType := Int32.ofBitVec p.val

theorem Pid.toElement_inj {p q : Pid} : p.toElement = q.toElement ↔ p = q := by
  constructor
  · intro h
    have h' := congrArg Int32.toBitVec h
    exact Subtype.ext h'
  · rintro rfl
    rfl

/-- How a run of the program can end other than by going on. -/
inductive Stop where
  | exit (code : ℕ)
  | segfault
deriving DecidableEq

/-! ## Counter differences (`common.c`) -/

def MAXU32VAL : u32 := 0x11111111
def MAXU64VAL : u64 := 0x1111111111111111

/-- The shape `subcount` and `u64_subcount` share. -/
def subcountWith {w : ℕ} (maxVal newval oldval : BitVec w) : BitVec w :=
  if newval ≥ oldval then newval - oldval else (maxVal - oldval) + newval

def subcount (newval oldval : u32) : u32 := subcountWith MAXU32VAL newval oldval

def u64Subcount (newval oldval : u64) : u64 := subcountWith MAXU64VAL newval oldval

/-! ## Samples and rows -/

/-- A C string: its bytes up to the terminator. -/
abbrev CString := List UInt8

structure Dsk where
  rio : u64 := 0
  rsz : u64 := 0
  wio : u64 := 0
  wsz : u64 := 0
deriving DecidableEq

structure Net where
  tcpsnd : u64 := 0
  tcpssz : u64 := 0
  tcprcv : u64 := 0
  tcprsz : u64 := 0
  udpsnd : u64 := 0
  udpssz : u64 := 0
  udprcv : u64 := 0
  udprsz : u64 := 0
  rawsnd : u64 := 0
  rawrcv : u64 := 0
  totalnetsnd : u64 := 0
  totalnetrcv : u64 := 0
deriving DecidableEq

structure Memory where
  memoryUsed : u64 := 0
  totalActive : u64 := 0
  cpuAccesses : u64 := 0
deriving DecidableEq

/-- `struct pid_stats`: one sample of one process. -/
structure PidStats where
  readBytes : u64 := 0
  writeBytes : u64 := 0
  cancelledWriteBytes : u64 := 0
  minflt : u32 := 0
  cminflt : u32 := 0
  majflt : u32 := 0
  cmajflt : u32 := 0
  utime : u64 := 0
  cutime : u64 := 0
  stime : u64 := 0
  cstime : u64 := 0
  gtime : u64 := 0
  cgtime : u64 := 0
  vsz : u32 := 0
  rss : u32 := 0
  nvcsw : u32 := 0
  nivcsw : u32 := 0
  processor : u32 := 0
  pid : u32 := 0
  comm : CString := []
  dsk : Dsk := {}
  net : Net := {}
  mem : Memory := {}
deriving DecidableEq

/-- `struct process_info`: one row about one process. -/
structure ProcessInfo where
  readBytes : XFloat := .fin 0
  writeBytes : XFloat := .fin 0
  cancelledWriteBytes : XFloat := .fin 0
  vsz : u32 := 0
  rss : u32 := 0
  mem : XFloat := .fin 0
  minflt : XFloat := .fin 0
  majflt : XFloat := .fin 0
  utime : XFloat := .fin 0
  stime : XFloat := .fin 0
  gtime : XFloat := .fin 0
  cpu : XFloat := .fin 0
  cswch : XFloat := .fin 0
  nvcswch : XFloat := .fin 0
  pid : u32 := 0
  time : u32 := 0
  cmdline : CString := []
  netsnd : XFloat := .fin 0
  netrcv : XFloat := .fin 0
  ratio : XFloat := .fin 0
  cpuAccesses : u64 := 0
deriving DecidableEq

/-- `struct sys_info`: one sample, or one row, about the machine. -/
structure SysInfo where
  time : u32 := 0
  totalnetsnd : u64 := 0
  totalnetrcv : u64 := 0
  totaldiskread : u64 := 0
  totaldiskwrite : u64 := 0
  cpupower : ℚ := 0
  memaccess : u64 := 0
  itv : u32 := 0
  runtime : u32 := 0
  activeProcessNum : Int := 0
deriving DecidableEq

/-- What the program reads once, before its main loop, and how its floats round. -/
structure Conf where
  /-- `HZ`, from `sysconf(_SC_CLK_TCK)`. -/
  hz : u32 := 100
  kbShift : ℕ := 2
  /-- `tlmkb`: a global no function ever assigns. -/
  tlmkb : u32 := 0
  cpufreqStats : Bool := false
  maxcpupower : ℚ := 49 / 2
  mincpupower : ℚ := 6
  float : Rounding := .single

/-- The same in exact arithmetic. -/
def Conf.exact (conf : Conf) : Conf := { conf with float := .exact }

/-- The same in the arithmetic of the program. -/
def Conf.single (conf : Conf) : Conf := { conf with float := .single }

/-- A counter difference in a `float` field. -/
def Conf.stored (conf : Conf) (d : u64) : XFloat := .fin (conf.float d.toNat)

/-! ## Pages (`common.c`) -/

/-- The loop of `get_kb_shift`. -/
def kbShiftLoop (size shift : ℕ) : ℕ :=
  if size > 1 then kbShiftLoop (size / 2) (shift + 1) else shift
termination_by size

/-- `get_kb_shift`, given what `sysconf(_SC_PAGESIZE)` returns. -/
def getKbShift (size : Int) : ℕ := kbShiftLoop (size / 1024).toNat 0

/-! ## What the counter difference computes -/

section Subcount

variable {w : ℕ} (maxVal : BitVec w)

theorem subcountWith_of_le {new old : BitVec w} (h : old ≤ new) :
    subcountWith maxVal new old = new - old := if_pos h

theorem toNat_subcountWith_of_le {new old : BitVec w} (h : old ≤ new) :
    (subcountWith maxVal new old).toNat = new.toNat - old.toNat := by
  rw [subcountWith_of_le maxVal h, BitVec.toNat_sub_of_le h]

/-- Past a wrap the difference is off by exactly the constant. -/
theorem subcountWith_of_lt {new old : BitVec w} (h : new < old) :
    subcountWith maxVal new old = maxVal + (new - old) := by
  rw [subcountWith, if_neg (BitVec.not_le.mpr h), BitVec.sub_eq_add_neg, BitVec.sub_eq_add_neg,
    BitVec.add_assoc, BitVec.add_comm (-old)]

/-- **The counter difference on readings.** Without a wrap it is the increment;
with one it is the increment plus the constant, modulo the register. -/
theorem toNat_subcountWith_reading {c d : ℕ} (hd : d < 2 ^ w) :
    (subcountWith maxVal (reading w (c + d)) (reading w c)).toNat =
      if Wraps w c d then (maxVal.toNat + d) % 2 ^ w else d := by
  by_cases h : Wraps w c d
  · rw [if_pos h, subcountWith_of_lt maxVal ((reading_lt_iff_wraps hd).mpr h),
      reading_sub_reading, BitVec.toNat_add, BitVec.toNat_ofNat, Nat.mod_eq_of_lt hd]
  · have hle : reading w c ≤ reading w (c + d) :=
      BitVec.not_lt.mp fun hlt => h ((reading_lt_iff_wraps hd).mp hlt)
    rw [if_neg h, subcountWith_of_le maxVal hle, reading_sub_reading, BitVec.toNat_ofNat,
      Nat.mod_eq_of_lt hd]

end Subcount

end PTop
