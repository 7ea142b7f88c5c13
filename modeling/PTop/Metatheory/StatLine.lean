import PTop.Model.Files

/-!
# Reading back the stat line

The kernel writes the name of a process between parentheses and the numbers after
it. `read_proc_pid_stat` reads the name as one word and expects the state as the
next one. So a name without inner white space is passed over exactly, and with
it every number gets to its field; with inner white space the integers begin
inside the name, and what is left of it is too short for the first one stored.
-/

namespace PTop

open Framework

/-! ## What the kernel writes -/

/-- The name of a process: 1 to 15 bytes, none of them NUL. -/
abbrev ProcName := { n : CString // 0 < n.length ∧ n.length ≤ 15 ∧ (0 : UInt8) ∉ n }

/-- The letter for the state of a process. -/
abbrev StateLetter := { b : UInt8 // b ∈ ascii "RSDTtXxKWPIZN" }

/-- The fields of the first line of `/proc/<pid>/stat`. `limits` are the fourteen
from `rsslim` to `exit_signal`, and `later` those that newer kernels append. -/
structure StatLine where
  pid : ℕ
  name : ProcName
  state : StateLetter
  ppid : Int
  pgrp : Int
  session : Int
  ttyNr : Int
  tpgid : Int
  flags : Int
  minflt : u32
  cminflt : u32
  majflt : u32
  cmajflt : u32
  utime : u64
  stime : u64
  cutime : u64
  cstime : u64
  priority : Int
  nice : Int
  numThreads : Int
  itrealvalue : Int
  starttime : Int
  vsize : u64
  rss : u64
  limits : { l : List Int // l.length = 14 }
  processor : u32
  rtPriority : Int
  policy : Int
  delayacct : Int
  gtime : u64
  cgtime : u64
  later : List Int

namespace StatLine

variable (line : StatLine)

/-- The numbers after the state that the format has conversions for. -/
def numbers : List Int :=
  [line.ppid, line.pgrp, line.session, line.ttyNr, line.tpgid, line.flags,
    line.minflt.toNat, line.cminflt.toNat, line.majflt.toNat, line.cmajflt.toNat,
    line.utime.toNat, line.stime.toNat, line.cutime.toNat, line.cstime.toNat,
    line.priority, line.nice, line.numThreads, line.itrealvalue, line.starttime,
    line.vsize.toNat, line.rss.toNat] ++ line.limits.val ++
  [(line.processor.toNat : Int), line.rtPriority, line.policy, line.delayacct,
    line.gtime.toNat, line.cgtime.toNat]

/-- The text after the name. -/
def afterName : CString :=
  41 :: 32 :: line.state.val :: (fields (line.numbers ++ line.later) ++ [10])

/-- The line as the kernel writes it. -/
def text : CString := decimal line.pid ++ 32 :: 40 :: (line.name.val ++ line.afterName)

end StatLine

/-! ## The format -/

/-- Which of the integers after the state are stored. -/
def statStores : List Bool :=
  [false, false, false, false, false, false, true, true, true, true, true, true, true, true,
    false, false, true, false, false, true, true] ++ List.replicate 14 false ++
  [true, false, false, false, true, true]

theorem statFormat_eq : statFormat =
    .int false :: .blank :: .lit 40 :: .word (some 16) true :: .blank :: .word none false ::
      (spacedInts statStores ++ [.blank]) := by
  rw [statFormat, format]
  repeat rw [String.toList_append]
  repeat rw [String.toList_ofList]
  decide +kernel

/-- Up to the name the line and the format agree. -/
theorem scanf_statFormat (pid : ℕ) (s : CString) :
    scanf statFormat (decimal pid ++ 32 :: 40 :: s) =
      scanf (.word (some 16) true :: .word none false :: (statStores.map .int ++ [.blank])) s := by
  have hpid : scanInt (decimal pid ++ 32 :: 40 :: s) = some ((pid : Int), 32 :: 40 :: s) := by
    rw [scanInt_digits (decimal_ne_nil pid) (isDigit_of_mem_decimal pid)
      (endsSpan_cons _ (by decide)), digitsValue_decimal]
  have hblank : skipBlank (32 :: 40 :: s) = 40 :: s := by
    rw [skipBlank, List.dropWhile_cons_of_pos (by decide), List.dropWhile_cons_of_neg (by decide)]
  rw [statFormat_eq, scanf_int_some _ hpid, if_neg Bool.false_ne_true, scanf, hblank, scanf_lit]
  cases h : scanWord (some 16) s with
  | none => rw [scanf, scanf, h]
  | some q =>
      rw [scanf_word_some _ h, scanf_word_some _ h, scanf_blank_word]
      cases h' : scanWord none q.2 with
      | none => rw [scanf, scanf, h']
      | some r => rw [scanf_word_some _ h', scanf_word_some _ h', scanf_spacedInts]

/-! ## Stored numbers -/

theorem toUlong_toNat {w : ℕ} (hw : w ≤ 64) (x : BitVec w) :
    toUlong (x.toNat : Int) = x.setWidth 64 := by
  have hlt : (x.toNat : Int).natAbs < 2 ^ 64 :=
    x.isLt.trans_le (Nat.pow_le_pow_right (by decide) hw)
  rw [toUlong, if_pos hlt, BitVec.ofInt_natCast, BitVec.ofNat_toNat]

theorem toUlong_u32 (x : u32) : toUlong (x.toNat : Int) = x.setWidth 64 :=
  toUlong_toNat (by decide) x

theorem toUlong_u64 (x : u64) : toUlong (x.toNat : Int) = x := by
  rw [toUlong_toNat (le_refl 64), BitVec.setWidth_eq]

theorem toUint_u32 (x : u32) : toUint (x.toNat : Int) = x := by
  rw [toUint, toUlong_u32, BitVec.setWidth_setWidth_of_le x (by decide), BitVec.setWidth_eq]

/-! ## A name without inner white space -/

/-- No white space after the first byte that is none. -/
def SolidName (name : CString) : Prop := ∀ b ∈ skipBlank name, isSpace b = false

instance (name : CString) : Decidable (SolidName name) := inferInstanceAs (Decidable (∀ _ ∈ _, _))

namespace StatLine

variable (line : StatLine)

theorem state_isStop : isStop line.state.val = true := by
  have hall : ∀ b ∈ ascii "RSDTtXxKWPIZN", isStop b = true := by decide +kernel
  exact hall _ line.state.property

theorem state_isSpace : isSpace line.state.val = false := (isStop_iff.mp line.state_isStop).1

/-- What the conversions store after the name. -/
def stored : List Int :=
  [line.minflt.toNat, line.cminflt.toNat, line.majflt.toNat, line.cmajflt.toNat,
    line.utime.toNat, line.stime.toNat, line.cutime.toNat, line.cstime.toNat, line.numThreads,
    line.vsize.toNat, line.rss.toNat, line.processor.toNat, line.gtime.toNat, line.cgtime.toNat]

theorem zip_statStores :
    ((statStores.zip line.numbers).filter Prod.fst).map (fun p => Scanned.int p.2) =
      line.stored.map .int := by
  have hskipped : ((List.replicate 14 false).zip line.limits.val).filter Prod.fst = [] := by
    rw [List.filter_eq_nil_iff]
    intro p hp hstore
    exact Bool.false_ne_true
      ((List.eq_of_mem_replicate (List.of_mem_zip hp).1).symm.trans hstore)
  rw [statStores, numbers, List.zip_append (by simp [line.limits.property]),
    List.zip_append (by simp), List.filter_append, List.filter_append, hskipped, List.append_nil]
  rfl

/-- What the text of a line with a solid name scans to. -/
def scanned : StatScan where
  comm := skipBlank line.name.val ++ [41]
  minflt := line.minflt.setWidth 64
  cminflt := line.cminflt.setWidth 64
  majflt := line.majflt.setWidth 64
  cmajflt := line.cmajflt.setWidth 64
  utime := line.utime
  stime := line.stime
  cutime := line.cutime
  cstime := line.cstime
  vsz := line.vsize
  rss := line.rss
  processor := line.processor
  gtime := line.gtime
  cgtime := line.cgtime

/-- A name without inner white space is one word with its parenthesis. -/
theorem scanWord_solid (width : Option ℕ) {name : CString} (h : SolidName name)
    (hwidth : ∀ n ∈ width, name.length + 1 ≤ n) : scanWord width (name ++ line.afterName) =
      some (skipBlank name ++ [41],
        32 :: line.state.val :: (fields (line.numbers ++ line.later) ++ [10])) := by
  have hname : name ++ line.afterName = name.takeWhile isSpace ++ (skipBlank name ++ [41]) ++
      32 :: line.state.val :: (fields (line.numbers ++ line.later) ++ [10]) := by
    rw [afterName, ← List.append_assoc (name.takeWhile isSpace), skipBlank,
      List.takeWhile_append_dropWhile, List.append_assoc, List.singleton_append]
  have hlen : (skipBlank name).length ≤ name.length := List.length_dropWhile_le isSpace name
  rw [hname]
  apply scanWord_span
  · intro b hb
    exact List.mem_takeWhile_imp hb
  · simp
  · intro b hb
    rcases List.mem_append.mp hb with hb | hb
    · exact h b hb
    · rw [List.mem_singleton.mp hb]
      decide
  · intro n hn
    have hle := hwidth n hn
    rw [List.length_append, List.length_singleton]
    omega
  · intro b hb
    cases hb
    decide

theorem scanf_text (h : SolidName line.name.val) : scanf statFormat line.text =
    .word (skipBlank line.name.val ++ [41]) :: line.stored.map .int := by
  have hwidth : ∀ n ∈ some 16, line.name.val.length + 1 ≤ n := by
    intro n hn
    cases hn
    exact Nat.succ_le_succ line.name.property.2.1
  have hword := line.scanWord_solid (some 16) h hwidth
  have hstate : scanWord none
      (32 :: line.state.val :: (fields (line.numbers ++ line.later) ++ [10])) =
      some ([line.state.val], fields (line.numbers ++ line.later) ++ [10]) := by
    have hspace : ∀ b ∈ [(32 : UInt8)], isSpace b = true := List.forall_mem_singleton.mpr rfl
    apply scanWord_span (w := [line.state.val]) hspace
    · simp
    · intro b hb
      rw [List.mem_singleton.mp hb]
      exact line.state_isSpace
    · intro n hn
      cases hn
    · intro b hb
      cases hb
      decide
  have hfields : fields (line.numbers ++ line.later) ++ [10] =
      fields line.numbers ++ (fields line.later ++ [10]) := by
    rw [fields_append, List.append_assoc]
  have hend : EndsSpan isDigit (fields line.later ++ [10]) :=
    endsSpan_isDigit_fields (endsSpan_cons [] (by decide)) line.later
  have hlen : statStores.length = line.numbers.length := by
    simp [statStores, numbers, line.limits.property]
  rw [text, scanf_statFormat, scanf_word_some _ hword, if_pos rfl, scanf_word_some _ hstate,
    if_neg Bool.false_ne_true, hfields, scanf_fields hend _ hlen, zip_statStores]
  simp [scanf]

theorem scanStat_text (h : SolidName line.name.val) : scanStat line.text = line.scanned := by
  unfold scanStat
  rw [scanf_text line h]
  simp only [scanned, StatScan.mk.injEq]
  exact ⟨rfl, toUlong_u32 _, toUlong_u32 _, toUlong_u32 _, toUlong_u32 _, toUlong_u64 _,
    toUlong_u64 _, toUlong_u64 _, toUlong_u64 _, toUlong_u64 _, toUlong_u64 _, toUint_u32 _,
    toUlong_u64 _, toUlong_u64 _⟩

/-! ## A name with inner white space -/

/-- What the word after the name leaves of the text: little before a byte at which no
integer begins. -/
theorem exists_rest_of_inner {c : UInt8} (hc : isSpace c = true) {p : CString}
    (hp : p.length ≤ 13) : ∃ w q b s, scanWord none (c :: p ++ line.afterName) =
      some (w, q ++ b :: s) ∧ q.length < 14 ∧ EndsSpan isDigit q ∧ isStop b = true := by
  have hskip : skipBlank (c :: p) = skipBlank p := List.dropWhile_cons_of_pos hc
  have hlen : (skipBlank p).length ≤ p.length := List.length_dropWhile_le isSpace p
  by_cases hsolid : SolidName (c :: p)
  · -- the next word takes the rest of the name with the parenthesis
    refine ⟨skipBlank (c :: p) ++ [41], [32], line.state.val,
      fields (line.numbers ++ line.later) ++ [10], ?_, by decide, endsSpan_cons [] (by decide),
      line.state_isStop⟩
    exact line.scanWord_solid none hsolid (by simp)
  · obtain ⟨w, d, q, hscan, hd, hne, hwq⟩ :=
      scanWord_inner none line.afterName hsolid (by simp)
    rw [hskip] at hwq
    have hpos := List.length_pos_iff.mpr hne
    refine ⟨w, d :: q, 41, _, hscan, by omega, ?_, by decide⟩
    apply endsSpan_cons
    rw [← Bool.not_eq_true]
    intro hdigit
    rw [isSpace_eq_false_of_isDigit hdigit] at hd
    cases hd

/-- Only the first word of the name is stored. -/
theorem scanf_text_inner (h : ¬ SolidName line.name.val) :
    ∃ w, scanf statFormat line.text = [.word w] := by
  have hlen := line.name.property.2.1
  have hle : (skipBlank line.name.val).length ≤ line.name.val.length :=
    List.length_dropWhile_le isSpace line.name.val
  obtain ⟨w, c, p, hword, hc, hne, hwp⟩ := scanWord_inner (some 16) line.afterName h
    (by intro n hn; cases hn; omega)
  have hpos := List.length_pos_iff.mpr hne
  rw [List.length_cons] at hwp
  obtain ⟨w', q, b, s, hscan, hq, hdigit, hb⟩ := line.exists_rest_of_inner hc (p := p) (by omega)
  refine ⟨w, ?_⟩
  rw [text, scanf_statFormat, scanf_word_some _ hword, if_pos rfl, scanf_word_some _ hscan,
    if_neg Bool.false_ne_true]
  -- the first six integers are not stored, and there is no room for a seventh
  obtain ⟨k, hk, hcount⟩ := scanf_short hb s ((statStores.drop 7).map .int ++ [.blank])
    (statStores.take 7) hdigit hq
  have hzero : ((statStores.take 7).take k).count true = 0 := by
    have hall : ∀ k < 7, ((statStores.take 7).take k).count true = 0 := by decide
    exact hall k hk
  rw [hzero, ← List.append_assoc, ← List.map_append, List.take_append_drop] at hcount
  rw [List.length_eq_zero_iff.mp hcount]

end StatLine

end PTop
