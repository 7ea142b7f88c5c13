import Mathlib.Algebra.Order.BigOperators.Group.List
import PTop.Framework.SqlText
import PTop.Model.Database

/-!
# The text of an `INSERT`

`insert_ps` prints a row between the brackets of one statement and the name of the
process between its last two quotes, byte for byte. The name is read back where its
bytes denote themselves between quotes. The text always fits its buffer: the longest
numbers leave 42 bytes.
-/

namespace PTop

open Framework

/-- The statement up to its first value. -/
def insertHead : CString := ascii
  ("INSERT INTO process_info(pid, time, read_bytes, write_bytes, cancelled_write_bytes," ++
    "total_vsz, total_rsz, mem, utime, stime, gtime, cpu, cswch, nvswch, minflt, majflt, " ++
    "netsnd, netrcv, ratio, cpu_accesses,cmdline) VALUES(")

namespace ProcessInfo

variable (pst : ProcessInfo)

/-- A float with spaces before it: those of the format and those of the width. -/
def floatField (pad width : ℕ) (x : XFloat) : ℕ × CString :=
  (width - (floatText 2 x).length + pad, floatText 2 x)

/-- The values before the name. -/
def fields : List (ℕ × CString) :=
  [(0, integer pst.pid.toInt), (1, decimal pst.time.toNat), floatField 1 9 pst.readBytes,
    floatField 1 9 pst.writeBytes, floatField 1 9 pst.cancelledWriteBytes,
    (1, decimal pst.vsz.toNat), (1, decimal pst.rss.toNat), floatField 1 6 pst.mem,
    floatField 1 7 pst.utime, floatField 1 7 pst.stime, floatField 1 7 pst.gtime,
    floatField 1 7 pst.cpu, floatField 1 9 pst.cswch, floatField 1 9 pst.nvcswch,
    floatField 1 9 pst.minflt, floatField 1 9 pst.majflt, floatField 1 9 pst.netsnd,
    floatField 1 9 pst.netrcv, floatField 0 9 pst.ratio, (0, decimal pst.cpuAccesses.toNat)]

end ProcessInfo

theorem pieces_insertFormat : pieces insertFormat =
    [.lit insertHead, .signed, .lit [44, 32], .unsigned, .lit [44, 32], .float 9 2, .lit [44, 32],
      .float 9 2, .lit [44, 32], .float 9 2, .lit [44, 32], .unsigned, .lit [44, 32], .unsigned,
      .lit [44, 32], .float 6 2, .lit [44, 32], .float 7 2, .lit [44, 32], .float 7 2,
      .lit [44, 32], .float 7 2, .lit [44, 32], .float 7 2, .lit [44, 32], .float 9 2,
      .lit [44, 32], .float 9 2, .lit [44, 32], .float 9 2, .lit [44, 32], .float 9 2,
      .lit [44, 32], .float 9 2, .lit [44, 32], .float 9 2, .lit [44], .float 9 2, .lit [44],
      .unsigned, .lit [44, 32, 39], .text, .lit [39, 41]] := by
  unfold pieces insertFormat insertHead ascii
  repeat rw [String.toList_append]
  repeat rw [String.toList_ofList]
  decide +kernel

theorem length_insertHead : insertHead.length = 219 := by
  rw [insertHead, ascii, List.length_map]
  repeat rw [String.toList_append]
  repeat rw [String.toList_ofList]
  decide +kernel

theorem insertPsText_eq (pst : ProcessInfo) :
    insertPsText pst = insertText insertHead pst.fields 1 (pst.cmdline ++ [39, 41]) := by
  rw [insertPsText, pieces_insertFormat]
  simp [printf, insertText, commaFields, ProcessInfo.fields, ProcessInfo.floatField, padding,
    List.replicate_succ]

/-! ## The name -/

/-- What `pst->cmdline` may hold. -/
abbrev CommText := { n : CString // n.length ≤ 15 ∧ (0 : UInt8) ∉ n }

theorem endsSpan_floatText (k : ℕ) (x : XFloat) : EndsSpan isSpace (floatText k x) := by
  cases x with
  | fin q => exact (isNumber_fixed k q).endsSpan
  | inf neg => cases neg <;> exact endsSpan_cons _ (by decide)
  | nan => exact endsSpan_cons _ (by decide)

theorem isNumber_floatText_iff (k : ℕ) (x : XFloat) :
    IsNumber (floatText k x) ↔ x.isFinite = true := by
  cases h : x.isFinite with
  | false =>
      refine iff_of_false ?_ Bool.false_ne_true
      intro hnum
      have hnone := notNumber_floatText (k := k) h []
      rw [hnum []] at hnone
      cases hnone
  | true =>
      refine iff_of_true ?_ rfl
      cases x with
      | fin q => exact isNumber_fixed k q
      | inf neg => cases h
      | nan => cases h

/-- A value is a number unless it is a float that is not finite. -/
theorem fields_isNumber_or (pst : ProcessInfo) : ∀ v ∈ pst.fields,
    IsNumber v.2 ∨ EndsSpan isSpace v.2 ∧ NotNumber v.2 := by
  have hfloat : ∀ (pad width : ℕ) (x : XFloat),
      IsNumber (ProcessInfo.floatField pad width x).2 ∨
        EndsSpan isSpace (ProcessInfo.floatField pad width x).2 ∧
          NotNumber (ProcessInfo.floatField pad width x).2 := by
    intro pad width x
    cases h : x.isFinite with
    | false => exact Or.inr ⟨endsSpan_floatText 2 x, notNumber_floatText h⟩
    | true => exact Or.inl ((isNumber_floatText_iff 2 x).mpr h)
  simp only [ProcessInfo.fields, List.forall_mem_cons, hfloat, isNumber_integer, isNumber_decimal,
    true_or, true_and]
  simp

theorem fields_isNumber_iff (pst : ProcessInfo) :
    (∀ v ∈ pst.fields, IsNumber v.2) ↔ pst.floats.all XFloat.isFinite = true := by
  simp only [ProcessInfo.fields, ProcessInfo.floats, ProcessInfo.floatField, List.forall_mem_cons,
    isNumber_floatText_iff, isNumber_integer, isNumber_decimal, true_and, List.all_cons,
    Bool.and_eq_true, List.all_nil]
  simp

/-- The text is one statement, in which the numbers do not depend on the name and the
last value is a quoted string that denotes the name. -/
def InsertExact (pst : ProcessInfo) (name : CommText) : Prop :=
  ∃ ts : List CString,
    readInsert insertHead 20 (insertPsText { pst with cmdline := name.val }) =
      some (ts, name.val) ∧
    readInsert insertHead 20 (insertPsText { pst with cmdline := [] }) = some (ts, [])

/-- **When the statement holds the name.** The floats are numbers to the server, and no
byte of the name means anything else between quotes. -/
theorem insert_exact_iff (pst : ProcessInfo) (name : CommText) :
    InsertExact pst name ↔ pst.floats.all XFloat.isFinite = true ∧ Verbatim name.val := by
  have hlen : pst.fields.length = 20 := rfl
  have htail : [(41 : UInt8)].head? ≠ some 39 := by decide
  have hread : ∀ n : CString, insertPsText { pst with cmdline := n } =
      insertText insertHead pst.fields 1 (n ++ [39, 41]) := fun n => insertPsText_eq _
  rw [InsertExact, hread, hread, ← hlen, ← fields_isNumber_iff]
  constructor
  · rintro ⟨ts, hname, -⟩
    by_cases hnum : ∀ v ∈ pst.fields, IsNumber v.2
    · refine ⟨hnum, ?_⟩
      have hlit := ((readInsert_eq_some_iff insertHead 1 _ hnum).mp hname).2
      exact (readLiteral_eq_self_iff htail name.val).mp hlit
    · push Not at hnum
      rw [readInsert_eq_none insertHead 1 _ (fields_isNumber_or pst) hnum] at hname
      cases hname
  · rintro ⟨hnum, hverb⟩
    refine ⟨pst.fields.map Prod.snd, ?_, ?_⟩
    · exact (readInsert_eq_some_iff insertHead 1 _ hnum).mpr
        ⟨rfl, (readLiteral_eq_self_iff htail name.val).mpr hverb⟩
    · exact (readInsert_eq_some_iff insertHead 1 _ hnum).mpr
        ⟨rfl, (readLiteral_eq_self_iff htail []).mpr trivial⟩

/-- A process may call itself `it's`. -/
theorem quoted_name_ends :
    ¬ InsertExact {} ⟨ascii "it's", by decide +kernel⟩ := by
  rintro ⟨ts, hname, -⟩
  have hnum := (fields_isNumber_iff {}).mpr rfl
  rw [insertPsText_eq] at hname
  -- the literal is `it`, and it does not end at the last quote
  have hlit := ((readInsert_eq_some_iff insertHead 1 _ hnum).mp hname).2
  exact absurd hlit (by decide)

/-! ## The length -/

/-- A float of C that is finite. -/
def Bounded (x : XFloat) : Prop := ∃ q, x = .fin q ∧ |q| < 2 ^ 128

/-- A sign, 39 digits, the point and two digits; then the comma. -/
theorem length_floatField (pad width : ℕ) {x : XFloat} (h : Bounded x) (hw : width ≤ 43) :
    (ProcessInfo.floatField pad width x).1 + (ProcessInfo.floatField pad width x).2.length + 1 ≤
      44 + pad := by
  rcases h with ⟨q, rfl, hq⟩
  have hlen : (fixed 2 q).length ≤ 1 + 39 + 1 + 2 :=
    length_fixed_le (n := 2 ^ 128) 2 (by exact_mod_cast hq) (by decide) (by decide +kernel)
  simp only [ProcessInfo.floatField, floatText]
  omega

/-- The longest that each value can be, with the spaces before it and its comma. -/
def fieldLimits : List ℕ :=
  [12, 12, 45, 45, 45, 12, 12, 45, 45, 45, 45, 45, 45, 45, 45, 45, 45, 45, 44, 21]

theorem fields_le_limits {pst : ProcessInfo} (hfin : ∀ x ∈ pst.floats, Bounded x) :
    List.Forall₂ (· ≤ ·) (pst.fields.map fun v => v.1 + v.2.length + 1) fieldLimits := by
  have hpid : (integer pst.pid.toInt).length ≤ 11 := by
    apply length_integer_le (by decide)
    have hlt := BitVec.toInt_lt (x := pst.pid)
    have hle := BitVec.le_toInt pst.pid
    omega
  have hu32 : ∀ x : u32, (decimal x.toNat).length ≤ 10 := fun x =>
    length_decimal_le (by decide) (lt_of_lt_of_le x.isLt (by decide))
  have hu64 : (decimal pst.cpuAccesses.toNat).length ≤ 20 :=
    length_decimal_le (by decide) (lt_of_lt_of_le pst.cpuAccesses.isLt (by decide))
  have htime := hu32 pst.time
  have hvsz := hu32 pst.vsz
  have hrss := hu32 pst.rss
  simp only [ProcessInfo.floats, List.forall_mem_cons] at hfin
  obtain ⟨hread, hwrite, hcancelled, hmem, hutime, hstime, hgtime, hcpu, hcswch, hnvcswch, hminflt,
    hmajflt, hnetsnd, hnetrcv, hratio, -⟩ := hfin
  simp only [ProcessInfo.fields, fieldLimits, List.map_cons, List.map_nil, List.forall₂_cons]
  exact ⟨by omega, by omega, length_floatField 1 9 hread (by decide),
    length_floatField 1 9 hwrite (by decide), length_floatField 1 9 hcancelled (by decide),
    by omega, by omega, length_floatField 1 6 hmem (by decide),
    length_floatField 1 7 hutime (by decide), length_floatField 1 7 hstime (by decide),
    length_floatField 1 7 hgtime (by decide), length_floatField 1 7 hcpu (by decide),
    length_floatField 1 9 hcswch (by decide), length_floatField 1 9 hnvcswch (by decide),
    length_floatField 1 9 hminflt (by decide), length_floatField 1 9 hmajflt (by decide),
    length_floatField 1 9 hnetsnd (by decide), length_floatField 1 9 hnetrcv (by decide),
    length_floatField 0 9 hratio (by decide), by omega, .nil⟩

theorem length_commaFields (vs : List (ℕ × CString)) :
    (commaFields vs).length = (vs.map fun v => v.1 + v.2.length + 1).sum := by
  simp [commaFields, List.length_flatMap, Nat.add_assoc]

/-- The values and the name, and 223 bytes around them. -/
theorem length_insertPsText (pst : ProcessInfo) : (insertPsText pst).length =
    223 + (pst.fields.map fun v => v.1 + v.2.length + 1).sum + pst.cmdline.length := by
  rw [insertPsText_eq, insertText, ← length_commaFields]
  simp only [List.length_append, List.length_replicate, List.length_cons, List.length_nil,
    length_insertHead]
  omega

/-- **The statement fits its buffer**, with its terminator. -/
theorem insert_fits (pst : ProcessInfo) (hname : pst.cmdline.length ≤ 15)
    (hfin : ∀ x ∈ pst.floats, Bounded x) : (insertPsText pst).length + 1 ≤ 1024 := by
  have hlimits : fieldLimits.sum = 743 := rfl
  have hfields := (fields_le_limits hfin).sum_le_sum
  rw [length_insertPsText]
  omega

/-- The least finite float. -/
def leastFloat : XFloat := .fin (-(2 ^ 128 - 2 ^ 104))

/-- A row whose values are all as long as they can be. -/
def longestRow : ProcessInfo where
  readBytes := leastFloat
  writeBytes := leastFloat
  cancelledWriteBytes := leastFloat
  vsz := 4294967295
  rss := 4294967295
  mem := leastFloat
  minflt := leastFloat
  majflt := leastFloat
  utime := leastFloat
  stime := leastFloat
  gtime := leastFloat
  cpu := leastFloat
  cswch := leastFloat
  nvcswch := leastFloat
  pid := 2147483648
  time := 4294967295
  cmdline := ascii "kworker/u16:3-e"
  netsnd := leastFloat
  netrcv := leastFloat
  ratio := leastFloat
  cpuAccesses := 18446744073709551615

theorem bounded_leastFloat : Bounded leastFloat := by
  refine ⟨_, rfl, ?_⟩
  rw [abs_lt]
  norm_num

theorem insert_fits_longest :
    (insertPsText longestRow).length = 981 ∧ (insertPsText longestRow).length + 1 ≤ 1024 := by
  have hlimits : (longestRow.fields.map fun v => v.1 + v.2.length + 1) = fieldLimits := by
    decide +kernel
  refine ⟨?_, insert_fits longestRow (by decide) ?_⟩
  · rw [length_insertPsText, hlimits]
    decide
  · intro x hx
    have hleast : x = leastFloat := by simpa [longestRow, ProcessInfo.floats] using hx
    rw [hleast]
    exact bounded_leastFloat

end PTop
