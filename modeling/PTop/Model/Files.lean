import PTop.Framework.Scanf
import PTop.Model.SystemStats

/-!
# `pid_stats.c`, `m_stats.c` — reading the text of files

The readers as functions of the text they find. What they return is what the
sampling model takes as the answer of a file.
-/

namespace PTop

open Framework

/-! ## Stored conversions -/

/-- `%lu` and `%llu` into a 64-bit field, with the clamp of `strtoul`. -/
def toUlong (z : Int) : u64 := if z.natAbs < 2 ^ 64 then BitVec.ofInt 64 z else BitVec.allOnes 64

/-- `%u` into a 32-bit field. -/
def toUint (z : Int) : u32 := (toUlong z).setWidth 32

/-- `%d` into a 32-bit field, with the clamp of `strtol`. -/
def toInt (z : Int) : u32 := BitVec.ofInt 32 (max (-2 ^ 63) (min z (2 ^ 63 - 1)))

/-! ## `/proc/<pid>/stat` -/

/-- The format of `read_proc_pid_stat`, with `MAX_COMM_LEN` filled in. -/
def statFormat : List Directive := format
  ("%*d (%16s %*s %*d %*d %*d %*d %*d %*u %lu %lu" ++
    " %lu %lu %lu %lu %lu %lu %*d %*d %u %*u %*d %lu %lu" ++
    " %*u %*u %*u %*u %*u %*u %*u %*u %*u %*u %*u %*u %*u" ++
    " %*u %u %*u %*u %*u %lu %lu\n")

/-- The `fscanf` of `read_proc_pid_stat`; the conversion after `cstime` is `thread_nr`. -/
def scanStat (text : CString) : StatScan :=
  let v := scanf statFormat text
  { comm := wordAt v 0
    minflt := toUlong (intAt v 1)
    cminflt := toUlong (intAt v 2)
    majflt := toUlong (intAt v 3)
    cmajflt := toUlong (intAt v 4)
    utime := toUlong (intAt v 5)
    stime := toUlong (intAt v 6)
    cutime := toUlong (intAt v 7)
    cstime := toUlong (intAt v 8)
    vsz := toUlong (intAt v 10)
    rss := toUlong (intAt v 11)
    processor := toUint (intAt v 12)
    gtime := toUlong (intAt v 13)
    cgtime := toUlong (intAt v 14) }

/-! ## `/proc/<pid>/smaps` -/

def BUFFER_SIZE : ℕ := 128

/-- The fields of `struct stat_smaps`, in the order `read_smaps` tests for them. -/
inductive SmapsField where
  | size
  | rss
  | pss
  | sharedClean
  | sharedDirty
  | privateClean
  | privateDirty
  | referenced
  | swap
deriving DecidableEq

namespace SmapsField

def all : List SmapsField :=
  [size, rss, pss, sharedClean, sharedDirty, privateClean, privateDirty, referenced, swap]

/-- What a line about the field starts with. -/
def key : SmapsField → CString
  | size => ascii "Size:"
  | rss => ascii "Rss:"
  | pss => ascii "Pss:"
  | sharedClean => ascii "Shared_Clean:"
  | sharedDirty => ascii "Shared_Dirty:"
  | privateClean => ascii "Private_Clean:"
  | privateDirty => ascii "Private_Dirty:"
  | referenced => ascii "Referenced:"
  | swap => ascii "Swap:"

end SmapsField

def StatSmaps.get (s : StatSmaps) : SmapsField → u32
  | .size => s.size
  | .rss => s.rss
  | .pss => s.pss
  | .sharedClean => s.sharedClean
  | .sharedDirty => s.sharedDirty
  | .privateClean => s.privateClean
  | .privateDirty => s.privateDirty
  | .referenced => s.referenced
  | .swap => s.swap

def StatSmaps.set (s : StatSmaps) (v : u32) : SmapsField → StatSmaps
  | .size => { s with size := v }
  | .rss => { s with rss := v }
  | .pss => { s with pss := v }
  | .sharedClean => { s with sharedClean := v }
  | .sharedDirty => { s with sharedDirty := v }
  | .privateClean => { s with privateClean := v }
  | .privateDirty => { s with privateDirty := v }
  | .referenced => { s with referenced := v }
  | .swap => { s with swap := v }

/-- The variables of `read_smaps`: the sums, and the record `stmaps` that the
conversions store to, which nothing initialises. -/
structure SmapsState where
  stats : StatSmaps
  stmaps : StatSmaps

/-- The branch of one field: a failed `sscanf` leaves `stmaps` as it was. -/
def addField (k : SmapsField) (buff : CString) (s : SmapsState) : SmapsState :=
  let stmaps := match scanInt (buff.drop k.key.length) with
    | none => s.stmaps
    | some (z, _) => s.stmaps.set (toInt z) k
  ⟨s.stats.set (s.stats.get k + stmaps.get k) k, stmaps⟩

/-- One pass of the loop of `read_smaps`: the first field whose key the buffer starts with. -/
def readSmapsBuff (s : SmapsState) (buff : CString) : SmapsState :=
  match SmapsField.all.find? fun k => k.key.isPrefixOf buff with
  | none => s
  | some k => addField k buff s

/-- `read_smaps` on the text of the file; `stmaps` is what its record holds at first. -/
def readSmaps (stmaps : StatSmaps) (text : CString) : StatSmaps :=
  ((fgetsLoop (BUFFER_SIZE - 1) [] text).foldl readSmapsBuff ⟨{}, stmaps⟩).stats

/-! ## `/proc/net/wireless` and `/proc/net/dev` -/

/-- What a `%s` conversion leaves in its variable: the word, or what was there. -/
def readWord (width : Option ℕ) (old buff : CString) : CString :=
  match scanWord width buff with
  | none => old
  | some (w, _) => w

/-- `strncmp(s, t, n) == 0`. -/
def strncmpEq (n : ℕ) (s t : CString) : Bool := s.take n == t.take n

/-- The first loop of `stat_sysnet_stats`: `wireless` if it was found. The variable has
ten bytes, and `none` is a word that does not fit them. -/
def findWireless : CString → List CString → Option (Option CString)
  | _, [] => some none
  | wireless, buff :: buffs =>
      let wireless := readWord none wireless buff
      if wireless.length + 1 > 10 then none
      else if strncmpEq 3 wireless (ascii "eth") then some (some wireless)
      else findWireless wireless buffs

/-- The second loop of `stat_sysnet_stats`: the two counters, if a line matches. -/
def findCounters (wireless : CString) : CString → List CString → Option (u64 × u64)
  | _, [] => none
  | name, buff :: buffs =>
      let len := wireless.length
      let name := readWord (some len) name buff
      if strncmpEq (len - 1) name wireless then
        let len := len + (buff.takeWhile (· == 32)).length
        let v := scanf (format "%llu%u%u%u%u%u%u%u%llu%u") (buff.drop len)
        some (toUlong (intAt v 0), toUlong (intAt v 8))
      else findCounters wireless name buffs

/-- `stat_sysnet_stats` up to the counters it stores, given the text of the two files if
they open and what its variables `wireless` and `name` hold at first; the outer `none`
is the word that does not fit. -/
def readSysnet (wireless name : CString) (netWireless netDev : Option CString) :
    Option (Option (u64 × u64)) :=
  match netWireless with
  | none => some none
  | some text =>
      match findWireless wireless (fgetsLoop (BUFFER_SIZE - 1) [] text) with
      | none => none
      | some none => some none
      | some (some wireless) =>
          match netDev with
          | none => some none
          | some text =>
              some (findCounters wireless name (fgetsLoop (BUFFER_SIZE - 1) [] text))

end PTop
