import Mathlib.Algebra.Group.Nat.Defs
import Mathlib.Data.List.Basic
import Mathlib.Data.List.Induction
import Mathlib.Data.List.TakeWhile
import Mathlib.Data.Nat.Init

/-!
# Text as C reads it

Decimal numbers as `printf` writes them and as `scanf` reads them, `scanf` with
the conversions for integers and words, and the buffers that a loop over `fgets`
delivers. Text is a list of bytes.

Two rules carry the proofs about formats. Numbers rendered one after another are
read back whatever the format keeps of them. And integers read from a short text
use up at least two bytes each, so that only few of them can be read.
-/

namespace PTop.Framework

/-- The bytes of a text in ASCII. -/
def ascii (s : String) : List UInt8 := s.toList.map fun c => UInt8.ofNat c.toNat

/-- `isspace` in the C locale. -/
def isSpace (b : UInt8) : Bool := b == 32 || (9 ≤ b && b ≤ 13)

/-- `isdigit`. -/
def isDigit (b : UInt8) : Bool := 48 ≤ b && b ≤ 57

theorem isSpace_eq_false_of_isDigit {b : UInt8} (h : isDigit b = true) : isSpace b = false := by
  simp only [isDigit, Bool.and_eq_true, decide_eq_true_eq, UInt8.le_iff_toNat_le] at h
  simp only [isSpace, Bool.or_eq_false_iff, beq_eq_false_iff_ne, ne_eq, Bool.and_eq_false_iff,
    decide_eq_false_iff_not, UInt8.le_iff_toNat_le, ← UInt8.toNat_inj]
  have h1 := h.1
  simp at h1 ⊢
  omega

/-! ## Decimal numbers -/

/-- A natural number in decimal. -/
def decimal (n : ℕ) : List UInt8 := (Nat.toDigits 10 n).map fun c => UInt8.ofNat c.toNat

/-- An integer in decimal. -/
def integer (z : ℤ) : List UInt8 := if z < 0 then 45 :: decimal z.natAbs else decimal z.natAbs

/-- The value of a string of digits. -/
def digitsValue (ds : List UInt8) : ℕ := ds.foldl (fun v d => 10 * v + (d.toNat - 48)) 0

theorem digitByte {d : ℕ} (h : d < 10) :
    UInt8.ofNat d.digitChar.toNat = UInt8.ofNat (48 + d) := by
  rw [Nat.toNat_digitChar_of_lt_ten h]

theorem toNat_digitByte {d : ℕ} (h : d < 10) : (UInt8.ofNat (48 + d)).toNat = 48 + d :=
  UInt8.toNat_ofNat_of_lt (by simp [UInt8.size]; omega)

theorem isDigit_digitByte {d : ℕ} (h : d < 10) : isDigit (UInt8.ofNat (48 + d)) = true := by
  have hval := toNat_digitByte h
  simp only [isDigit, Bool.and_eq_true, decide_eq_true_eq, UInt8.le_iff_toNat_le, hval]
  exact ⟨by simp, by simp; omega⟩

/-- The last digit comes off the end. -/
theorem decimal_eq (n : ℕ) :
    decimal n = (if n < 10 then [] else decimal (n / 10)) ++ [UInt8.ofNat (48 + n % 10)] := by
  unfold decimal
  rw [Nat.toDigits_eq_if (by decide)]
  by_cases h : n < 10
  · rw [if_pos h, if_pos h, Nat.mod_eq_of_lt h, List.map_singleton, digitByte h, List.nil_append]
  · rw [if_neg h, if_neg h, List.map_append, List.map_singleton,
      digitByte (Nat.mod_lt _ (by decide))]

theorem decimal_ne_nil (n : ℕ) : decimal n ≠ [] := by
  rw [decimal_eq]
  simp

theorem isDigit_of_mem_decimal (n : ℕ) : ∀ b ∈ decimal n, isDigit b = true := by
  induction n using Nat.strong_induction_on with
  | _ n ih =>
      intro b hb
      rw [decimal_eq, List.mem_append, List.mem_singleton] at hb
      rcases hb with hb | rfl
      · by_cases h : n < 10
        · rw [if_pos h] at hb
          exact absurd hb List.not_mem_nil
        · rw [if_neg h] at hb
          exact ih (n / 10) (by omega) b hb
      · exact isDigit_digitByte (Nat.mod_lt _ (by decide))

theorem digitsValue_append_singleton (ds : List UInt8) (d : UInt8) :
    digitsValue (ds ++ [d]) = 10 * digitsValue ds + (d.toNat - 48) := by
  rw [digitsValue, List.foldl_append]
  rfl

theorem digitsValue_decimal (n : ℕ) : digitsValue (decimal n) = n := by
  induction n using Nat.strong_induction_on with
  | _ n ih =>
      have hd : n % 10 < 10 := Nat.mod_lt _ (by decide)
      rw [decimal_eq, digitsValue_append_singleton, toNat_digitByte hd]
      by_cases h : n < 10
      · rw [if_pos h]
        show 10 * 0 + _ = n
        omega
      · rw [if_neg h, ih (n / 10) (by omega)]
        omega

theorem length_decimal_le {n k : ℕ} (hk : 0 < k) (h : n < 10 ^ k) : (decimal n).length ≤ k := by
  rw [decimal, List.length_map]
  exact (Nat.length_toDigits_le_iff (by decide) hk).mpr h

/-- Digits that denote less than `10 ^ k` with `k` of them. -/
theorem digitsValue_lt : ∀ ds : List UInt8, (∀ d ∈ ds, isDigit d = true) →
    digitsValue ds < 10 ^ ds.length := by
  intro ds
  induction ds using List.reverseRecOn with
  | nil => intro _; exact Nat.one_pos
  | append_singleton ds d ih =>
      intro h
      have hd := h d (List.mem_append_right _ (List.mem_singleton_self d))
      have ih := ih fun e he => h e (List.mem_append_left _ he)
      simp only [isDigit, Bool.and_eq_true, decide_eq_true_eq, UInt8.le_iff_toNat_le] at hd
      have hd2 := hd.2
      simp at hd2
      rw [digitsValue_append_singleton, List.length_append, List.length_singleton, Nat.pow_succ]
      omega

/-! ## Where a span of bytes ends -/

/-- `p` does not go on at the head of `s`. -/
def EndsSpan (p : UInt8 → Bool) (s : List UInt8) : Prop := ∀ b ∈ s.head?, p b = false

theorem endsSpan_cons {p : UInt8 → Bool} {b : UInt8} (s : List UInt8) (h : p b = false) :
    EndsSpan p (b :: s) := by
  intro c hc
  cases hc
  exact h

/-- A word goes before it of which no byte goes on. -/
theorem endsSpan_append {p : UInt8 → Bool} {w : List UInt8} (hne : w ≠ [])
    (hw : ∀ b ∈ w, p b = false) (s : List UInt8) : EndsSpan p (w ++ s) := by
  cases w with
  | nil => exact absurd rfl hne
  | cons b w => exact endsSpan_cons _ (hw b List.mem_cons_self)

theorem endsSpan_append_cons {p : UInt8 → Bool} {t : List UInt8} {b : UInt8} (ht : EndsSpan p t)
    (hb : p b = false) (s : List UInt8) : EndsSpan p (t ++ b :: s) := by
  cases t with
  | nil => exact endsSpan_cons s hb
  | cons c t => exact endsSpan_cons _ (ht c rfl)

theorem endsSpan_dropWhile (p : UInt8 → Bool) (s : List UInt8) : EndsSpan p (s.dropWhile p) := by
  intro b hb
  have h := List.head?_dropWhile_not p s
  rw [Option.mem_def.mp hb] at h
  simpa using h

theorem takeWhile_append_span {p : UInt8 → Bool} {w s : List UInt8} (hw : ∀ b ∈ w, p b = true)
    (hs : EndsSpan p s) : (w ++ s).takeWhile p = w := by
  rw [List.takeWhile_append_of_pos hw]
  cases s with
  | nil => simp
  | cons b s => rw [List.takeWhile_cons_of_neg (by simp [hs b rfl]), List.append_nil]

theorem dropWhile_append_span {p : UInt8 → Bool} {w s : List UInt8} (hw : ∀ b ∈ w, p b = true)
    (hs : EndsSpan p s) : (w ++ s).dropWhile p = s := by
  rw [List.dropWhile_append_of_pos hw]
  cases s with
  | nil => rfl
  | cons b s => exact List.dropWhile_cons_of_neg (by simp [hs b rfl])

theorem dropWhile_of_endsSpan {p : UInt8 → Bool} {s : List UInt8} (hs : EndsSpan p s) :
    s.dropWhile p = s := dropWhile_append_span (w := []) (by simp) hs

/-- A byte that ends every span. -/
theorem takeWhile_append_cons {p : UInt8 → Bool} {b : UInt8} (hb : p b = false) (s : List UInt8) :
    ∀ q : List UInt8, (q ++ b :: s).takeWhile p = q.takeWhile p
  | [] => List.takeWhile_cons_of_neg (by simp [hb])
  | c :: q => by
      rw [List.cons_append, List.takeWhile_cons, List.takeWhile_cons, takeWhile_append_cons hb s q]

theorem dropWhile_append_cons {p : UInt8 → Bool} {b : UInt8} (hb : p b = false) (s : List UInt8) :
    ∀ q : List UInt8, (q ++ b :: s).dropWhile p = q.dropWhile p ++ b :: s
  | [] => List.dropWhile_cons_of_neg (by simp [hb])
  | c :: q => by
      rw [List.cons_append, List.dropWhile_cons, List.dropWhile_cons, dropWhile_append_cons hb s q]
      split <;> rfl

/-! ## Conversions -/

/-- Skip white space. -/
def skipBlank (s : List UInt8) : List UInt8 := s.dropWhile isSpace

theorem isSpace_of_mem_spaces {n : ℕ} :
    ∀ b ∈ List.replicate n (32 : UInt8), isSpace b = true := by
  intro b hb
  rw [List.eq_of_mem_replicate hb]
  decide

theorem skipBlank_spaces (n : ℕ) {s : List UInt8} (hs : EndsSpan isSpace s) :
    skipBlank (List.replicate n 32 ++ s) = s := dropWhile_append_span isSpace_of_mem_spaces hs

/-- White space before a word is skipped. -/
theorem skipBlank_word {sp w : List UInt8} (hsp : ∀ b ∈ sp, isSpace b = true) (hne : w ≠ [])
    (hw : ∀ b ∈ w, isSpace b = false) (s : List UInt8) : skipBlank (sp ++ w ++ s) = w ++ s := by
  rw [List.append_assoc]
  exact dropWhile_append_span hsp (endsSpan_append hne hw s)

/-- The conversion `%s`, with a width: the word and the text after it. -/
def scanWord (width : Option ℕ) (s : List UInt8) : Option (List UInt8 × List UInt8) :=
  let s := skipBlank s
  let span := s.takeWhile fun b => !isSpace b
  let w := match width with
    | none => span
    | some n => span.take n
  if w = [] then none else some (w, s.drop w.length)

/-- An optional sign; `true` is a minus. -/
def scanSign : List UInt8 → Bool × List UInt8
  | [] => (false, [])
  | b :: s => if b = 45 then (true, s) else if b = 43 then (false, s) else (false, b :: s)

/-- The conversions `%d` and `%u`, before the value is stored: the integer and the
text after it. -/
def scanInt (s : List UInt8) : Option (ℤ × List UInt8) :=
  let s := scanSign (skipBlank s)
  let ds := s.2.takeWhile isDigit
  if ds = [] then none
  else some (if s.1 then -digitsValue ds else digitsValue ds, s.2.dropWhile isDigit)

/-- A byte at which no integer begins or goes on. -/
def isStop (b : UInt8) : Bool := !isSpace b && !isDigit b && b != 45 && b != 43

theorem isStop_iff {b : UInt8} :
    isStop b = true ↔ isSpace b = false ∧ isDigit b = false ∧ b ≠ 45 ∧ b ≠ 43 := by
  simp [isStop, and_assoc]

theorem scanSign_append_cons {b : UInt8} (hb : isStop b = true) (s : List UInt8) :
    ∀ p : List UInt8, scanSign (p ++ b :: s) = ((scanSign p).1, (scanSign p).2 ++ b :: s)
  | [] => by
      obtain ⟨-, -, hm, hp⟩ := isStop_iff.mp hb
      simp only [List.nil_append, scanSign, if_neg hm, if_neg hp]
  | c :: p => by
      simp only [List.cons_append, scanSign]
      split
      · rfl
      · split <;> rfl

theorem skipBlank_append_cons {b : UInt8} (hb : isSpace b = false) (p s : List UInt8) :
    skipBlank (p ++ b :: s) = skipBlank p ++ b :: s := dropWhile_append_cons hb s p

/-- **No integer reaches past a stop byte.** -/
theorem scanInt_append_cons {b : UInt8} (hb : isStop b = true) (p s : List UInt8) :
    scanInt (p ++ b :: s) = (scanInt p).map fun q => (q.1, q.2 ++ b :: s) := by
  obtain ⟨hspace, hdigit, -, -⟩ := isStop_iff.mp hb
  unfold scanInt
  dsimp only
  rw [skipBlank_append_cons hspace, scanSign_append_cons hb, takeWhile_append_cons hdigit,
    dropWhile_append_cons hdigit]
  by_cases h : (scanSign (skipBlank p)).2.takeWhile isDigit = []
  · rw [if_pos h, if_pos h, Option.map_none]
  · rw [if_neg h, if_neg h, Option.map_some]

theorem length_scanSign_le : ∀ s : List UInt8, (scanSign s).2.length ≤ s.length
  | [] => le_refl _
  | b :: s => by
      rw [scanSign]
      split
      · exact Nat.le_succ _
      · split
        · exact Nat.le_succ _
        · exact le_refl _

/-- **What an integer takes from the text**: a byte at least, and two unless the text
begins with a digit; and the text after it does not begin with one. -/
theorem scanInt_length {s s' : List UInt8} {z : ℤ} (h : scanInt s = some (z, s')) :
    EndsSpan isDigit s' ∧ s'.length + 1 ≤ s.length ∧
      (EndsSpan isDigit s → s'.length + 2 ≤ s.length) := by
  unfold scanInt at h
  dsimp only at h
  split at h
  · cases h
  · rename_i hds
    cases h
    set t := (scanSign (skipBlank s)).2 with ht
    have hlen : (t.takeWhile isDigit).length + (t.dropWhile isDigit).length = t.length := by
      rw [← List.length_append, List.takeWhile_append_dropWhile]
    have hpos := List.length_pos_iff.mpr hds
    have hsign : t.length ≤ (skipBlank s).length := length_scanSign_le _
    have hblank : (skipBlank s).length ≤ s.length := List.length_dropWhile_le _ s
    refine ⟨endsSpan_dropWhile isDigit t, by omega, ?_⟩
    intro hs
    -- the first byte is skipped, or it is the sign
    suffices hlt : t.length + 1 ≤ s.length by omega
    cases s with
    | nil => simp [ht, skipBlank, scanSign] at hds
    | cons b s =>
        have hb := hs b rfl
        by_cases hspace : isSpace b = true
        · have hskip : skipBlank (b :: s) = skipBlank s := List.dropWhile_cons_of_pos hspace
          have hle : (skipBlank s).length ≤ s.length := List.length_dropWhile_le _ s
          rw [hskip] at hsign
          rw [List.length_cons]
          omega
        · have hskip : skipBlank (b :: s) = b :: s := List.dropWhile_cons_of_neg hspace
          rw [hskip, scanSign] at ht
          by_cases hm : b = 45
          · rw [ht, if_pos hm, List.length_cons]
          · by_cases hp : b = 43
            · rw [ht, if_neg hm, if_pos hp, List.length_cons]
            · rw [ht, if_neg hm, if_neg hp, List.takeWhile_cons_of_neg (by simp [hb])] at hds
              exact absurd rfl hds

theorem scanSign_digits {ds : List UInt8} (hne : ds ≠ []) (hds : ∀ b ∈ ds, isDigit b = true)
    (s : List UInt8) : scanSign (ds ++ s) = (false, ds ++ s) := by
  cases ds with
  | nil => exact absurd rfl hne
  | cons d ds =>
      have hdigit := hds d List.mem_cons_self
      have hm : d ≠ 45 := by rintro rfl; exact absurd hdigit (by decide)
      have hp : d ≠ 43 := by rintro rfl; exact absurd hdigit (by decide)
      rw [List.cons_append, scanSign, if_neg hm, if_neg hp]

/-- **Digits are read as their value.** -/
theorem scanInt_digits {ds s : List UInt8} (hne : ds ≠ []) (hds : ∀ b ∈ ds, isDigit b = true)
    (hs : EndsSpan isDigit s) : scanInt (ds ++ s) = some ((digitsValue ds : ℤ), s) := by
  have hskip : skipBlank (ds ++ s) = ds ++ s :=
    dropWhile_of_endsSpan
      (endsSpan_append hne (fun d hd => isSpace_eq_false_of_isDigit (hds d hd)) s)
  unfold scanInt
  dsimp only
  rw [hskip, scanSign_digits hne hds, takeWhile_append_span hds hs, dropWhile_append_span hds hs,
    if_neg hne, if_neg Bool.false_ne_true]

theorem scanInt_minus {ds s : List UInt8} (hne : ds ≠ []) (hds : ∀ b ∈ ds, isDigit b = true)
    (hs : EndsSpan isDigit s) : scanInt (45 :: (ds ++ s)) = some (-(digitsValue ds : ℤ), s) := by
  have hskip : skipBlank (45 :: (ds ++ s)) = 45 :: (ds ++ s) :=
    dropWhile_of_endsSpan (endsSpan_cons _ (by decide))
  unfold scanInt
  dsimp only
  rw [hskip, scanSign, if_pos rfl, takeWhile_append_span hds hs, dropWhile_append_span hds hs,
    if_neg hne, if_pos rfl]

/-- **An integer is read back.** -/
theorem scanInt_integer (z : ℤ) {s : List UInt8} (hs : EndsSpan isDigit s) :
    scanInt (integer z ++ s) = some (z, s) := by
  have hne := decimal_ne_nil z.natAbs
  have hds := isDigit_of_mem_decimal z.natAbs
  by_cases h : z < 0
  · rw [integer, if_pos h, List.cons_append, scanInt_minus hne hds hs, digitsValue_decimal]
    congr 2
    omega
  · rw [integer, if_neg h, scanInt_digits hne hds hs, digitsValue_decimal]
    congr 2
    omega

theorem scanInt_skipBlank (s : List UInt8) : scanInt (skipBlank s) = scanInt s := by
  have hidem : skipBlank (skipBlank s) = skipBlank s :=
    dropWhile_of_endsSpan (endsSpan_dropWhile isSpace s)
  unfold scanInt
  rw [hidem]

theorem scanInt_spaces (n : ℕ) (s : List UInt8) :
    scanInt (List.replicate n 32 ++ s) = scanInt s := by
  have hskip : skipBlank (List.replicate n 32 ++ s) = skipBlank s :=
    List.dropWhile_append_of_pos isSpace_of_mem_spaces
  rw [← scanInt_skipBlank, hskip, scanInt_skipBlank]

theorem scanWord_skipBlank (width : Option ℕ) (s : List UInt8) :
    scanWord width (skipBlank s) = scanWord width s := by
  have hidem : skipBlank (skipBlank s) = skipBlank s :=
    dropWhile_of_endsSpan (endsSpan_dropWhile isSpace s)
  unfold scanWord
  rw [hidem]

/-- White space, and a word that fits the width: the word is read, and the text after
it is what is left. -/
theorem scanWord_span {width : Option ℕ} {sp w s : List UInt8}
    (hsp : ∀ b ∈ sp, isSpace b = true) (hne : w ≠ []) (hw : ∀ b ∈ w, isSpace b = false)
    (hwidth : ∀ n ∈ width, w.length ≤ n) (hs : ∀ b ∈ s.head?, isSpace b = true) :
    scanWord width (sp ++ w ++ s) = some (w, s) := by
  have hspan : (w ++ s).takeWhile (fun b => !isSpace b) = w :=
    takeWhile_append_span (fun b hb => by simp [hw b hb]) fun b hb => by simp [hs b hb]
  unfold scanWord
  dsimp only
  rw [skipBlank_word hsp hne hw, hspan]
  cases width with
  | none => rw [if_neg hne, List.drop_left]
  | some n =>
      have htake : w.take n = w := List.take_of_length_le (hwidth n rfl)
      simp only [htake]
      rw [if_neg hne, List.drop_left]

/-- A text with white space after its first word: that word is read, whatever follows
the text. -/
theorem scanWord_inner (width : Option ℕ) {q : List UInt8} (s : List UInt8)
    (hq : ¬ ∀ b ∈ skipBlank q, isSpace b = false) (hwidth : ∀ n ∈ width, q.length ≤ n) :
    ∃ w c p, scanWord width (q ++ s) = some (w, c :: p ++ s) ∧ isSpace c = true ∧ w ≠ [] ∧
      (skipBlank q).length = w.length + (c :: p).length := by
  set r := skipBlank q with hr
  have hsplit : r.takeWhile (fun b => !isSpace b) ++ r.dropWhile (fun b => !isSpace b) = r :=
    List.takeWhile_append_dropWhile
  have hword : ∀ b ∈ r.takeWhile (fun b => !isSpace b), isSpace b = false := by
    intro b hb
    simpa using List.mem_takeWhile_imp hb
  cases hrest : r.dropWhile (fun b => !isSpace b) with
  | nil =>
      rw [hrest, List.append_nil] at hsplit
      rw [hsplit] at hword
      exact absurd hword hq
  | cons c p =>
      rw [hrest] at hsplit
      have hc : isSpace c = true := by
        have h := endsSpan_dropWhile (fun b => !isSpace b) r c (by rw [hrest]; rfl)
        simpa using h
      have hne : r.takeWhile (fun b => !isSpace b) ≠ [] := by
        intro hnil
        rw [hnil, List.nil_append] at hsplit
        have h := endsSpan_dropWhile isSpace q c (by rw [← skipBlank, ← hr, ← hsplit]; rfl)
        rw [hc] at h
        cases h
      have hlen : r.length = (r.takeWhile fun b => !isSpace b).length + (c :: p).length := by
        rw [← List.length_append, hsplit]
      have hle : r.length ≤ q.length := List.length_dropWhile_le isSpace q
      refine ⟨r.takeWhile fun b => !isSpace b, c, p, ?_, hc, hne, hlen⟩
      have hq : q ++ s = q.takeWhile isSpace ++ (r.takeWhile fun b => !isSpace b) ++
          (c :: p ++ s) := by
        rw [List.append_assoc, ← List.append_assoc (r.takeWhile _), hsplit, ← List.append_assoc,
          hr, skipBlank, List.takeWhile_append_dropWhile]
      rw [hq]
      apply scanWord_span
      · intro b hb
        exact List.mem_takeWhile_imp hb
      · exact hne
      · exact hword
      · intro n hn
        have h := hwidth n hn
        omega
      · intro b hb
        cases hb
        exact hc

/-! ## Formats -/

/-- A directive of a format. -/
inductive Directive where
  | blank
  | lit (b : UInt8)
  | word (width : Option ℕ) (store : Bool)
  | int (store : Bool)
deriving DecidableEq

/-- A value that a conversion stores. -/
inductive Scanned where
  | word (w : List UInt8)
  | int (z : ℤ)
deriving DecidableEq

/-- Read a format; the first argument is the conversion being read, with whether it
stores and its width (0 for none). -/
def parseFormat : Option (Bool × ℕ) → List Char → List Directive
  | _, [] => []
  | none, c :: cs =>
      if c = '%' then parseFormat (some (true, 0)) cs
      else if isSpace (UInt8.ofNat c.toNat) then .blank :: parseFormat none cs
      else .lit (UInt8.ofNat c.toNat) :: parseFormat none cs
  | some (store, width), c :: cs =>
      if c = '*' then parseFormat (some (false, width)) cs
      else if c.isDigit then parseFormat (some (store, 10 * width + (c.toNat - 48))) cs
      else if c = 'l' then parseFormat (some (store, width)) cs
      else if c = 's' then
        .word (if width = 0 then none else some width) store :: parseFormat none cs
      else .int store :: parseFormat none cs

/-- The directives of a format text. -/
def format (s : String) : List Directive := parseFormat none s.toList

/-- `scanf`: the values stored before the first directive that fails. -/
def scanf : List Directive → List UInt8 → List Scanned
  | [], _ => []
  | .blank :: ds, s => scanf ds (skipBlank s)
  | .lit c :: ds, s =>
      match s with
      | [] => []
      | b :: s => if b = c then scanf ds s else []
  | .word width store :: ds, s =>
      match scanWord width s with
      | none => []
      | some (w, s) => if store then .word w :: scanf ds s else scanf ds s
  | .int store :: ds, s =>
      match scanInt s with
      | none => []
      | some (z, s) => if store then .int z :: scanf ds s else scanf ds s

theorem scanf_lit (c : UInt8) (ds : List Directive) (s : List UInt8) :
    scanf (.lit c :: ds) (c :: s) = scanf ds s := by
  rw [scanf, if_pos rfl]

theorem scanf_blank_int (store : Bool) (ds : List Directive) (s : List UInt8) :
    scanf (.blank :: .int store :: ds) s = scanf (.int store :: ds) s := by
  rw [scanf, scanf, scanInt_skipBlank, scanf]

theorem scanf_blank_word (width : Option ℕ) (store : Bool) (ds : List Directive) (s : List UInt8) :
    scanf (.blank :: .word width store :: ds) s = scanf (.word width store :: ds) s := by
  rw [scanf, scanf, scanWord_skipBlank, scanf]

theorem scanf_int_some {store : Bool} {s s' : List UInt8} {z : ℤ} (ds : List Directive)
    (h : scanInt s = some (z, s')) : scanf (.int store :: ds) s =
      if store then .int z :: scanf ds s' else scanf ds s' := by
  rw [scanf, h]

theorem scanf_int_none {store : Bool} {s : List UInt8} (ds : List Directive)
    (h : scanInt s = none) : scanf (.int store :: ds) s = [] := by
  rw [scanf, h]

theorem scanf_word_some {width : Option ℕ} {store : Bool} {s s' w : List UInt8}
    (ds : List Directive) (h : scanWord width s = some (w, s')) :
    scanf (.word width store :: ds) s =
      if store then .word w :: scanf ds s' else scanf ds s' := by
  rw [scanf, h]

/-- Integers one after another, each after spaces, one at least. -/
def paddedFields (zs : List (ℕ × ℤ)) : List UInt8 :=
  zs.flatMap fun z => 32 :: (List.replicate z.1 32 ++ integer z.2)

/-- Integers one after another, each after a space. -/
def fields (zs : List ℤ) : List UInt8 := paddedFields (zs.map (0, ·))

theorem endsSpan_isDigit_paddedFields {s : List UInt8} (hs : EndsSpan isDigit s) :
    ∀ zs : List (ℕ × ℤ), EndsSpan isDigit (paddedFields zs ++ s)
  | [] => hs
  | _ :: _ => endsSpan_cons _ (by decide)

theorem endsSpan_isDigit_fields {s : List UInt8} (hs : EndsSpan isDigit s) (zs : List ℤ) :
    EndsSpan isDigit (fields zs ++ s) := endsSpan_isDigit_paddedFields hs _

theorem paddedFields_append (zs zs' : List (ℕ × ℤ)) :
    paddedFields (zs ++ zs') = paddedFields zs ++ paddedFields zs' := List.flatMap_append

theorem fields_append (zs zs' : List ℤ) : fields (zs ++ zs') = fields zs ++ fields zs' := by
  rw [fields, fields, fields, List.map_append, paddedFields_append]

theorem scanInt_paddedFields {s : List UInt8} (hs : EndsSpan isDigit s) (z : ℕ × ℤ)
    (zs : List (ℕ × ℤ)) :
    scanInt (paddedFields (z :: zs) ++ s) = some (z.2, paddedFields zs ++ s) := by
  have hpad : paddedFields (z :: zs) ++ s =
      List.replicate (z.1 + 1) 32 ++ (integer z.2 ++ (paddedFields zs ++ s)) := by
    rw [paddedFields, List.flatMap_cons, List.replicate_succ]
    simp [paddedFields]
  rw [hpad, scanInt_spaces]
  exact scanInt_integer z.2 (endsSpan_isDigit_paddedFields hs zs)

/-- **Integer fields are read back**: those the format stores, in order. -/
theorem scanf_paddedFields {s : List UInt8} (hs : EndsSpan isDigit s) (ds : List Directive) :
    ∀ {stores : List Bool} {zs : List (ℕ × ℤ)}, stores.length = zs.length →
      scanf (stores.map .int ++ ds) (paddedFields zs ++ s) =
        ((stores.zip zs).filter Prod.fst).map (fun p => .int p.2.2) ++ scanf ds s
  | [], [], _ => rfl
  | store :: stores, z :: zs, h => by
      have ih := scanf_paddedFields hs ds (Nat.succ.inj h)
      rw [List.map_cons, List.cons_append, scanf_int_some _ (scanInt_paddedFields hs z zs), ih,
        List.zip_cons_cons]
      cases store <;> rfl

/-- All of them are stored. -/
theorem scanf_paddedFields_all {s : List UInt8} (hs : EndsSpan isDigit s) (ds : List Directive) :
    ∀ zs : List (ℕ × ℤ),
      scanf ((List.replicate zs.length true).map .int ++ ds) (paddedFields zs ++ s) =
        zs.map (fun z => .int z.2) ++ scanf ds s := by
  intro zs
  have hzip : ∀ zs : List (ℕ × ℤ),
      (((List.replicate zs.length true).zip zs).filter Prod.fst).map Prod.snd = zs := by
    intro zs
    induction zs with
    | nil => rfl
    | cons z zs ih =>
        rw [List.length_cons, List.replicate_succ, List.zip_cons_cons,
          List.filter_cons_of_pos rfl, List.map_cons, ih]
  rw [scanf_paddedFields hs ds List.length_replicate]
  conv_rhs => rw [← hzip zs]
  rw [List.map_map]
  rfl

theorem scanf_fields {s : List UInt8} (hs : EndsSpan isDigit s) (ds : List Directive)
    {stores : List Bool} {zs : List ℤ} (h : stores.length = zs.length) :
    scanf (stores.map .int ++ ds) (fields zs ++ s) =
      ((stores.zip zs).filter Prod.fst).map (fun p => .int p.2) ++ scanf ds s := by
  rw [fields, scanf_paddedFields hs ds (by simpa using h), List.zip_map_right, List.filter_map,
    List.map_map]
  rfl

/-- Directives for integers with white space before each. -/
def spacedInts (stores : List Bool) : List Directive :=
  stores.flatMap fun store => [.blank, .int store]

/-- An integer skips white space by itself. -/
theorem scanf_spacedInts (ds : List Directive) : ∀ (stores : List Bool) (s : List UInt8),
    scanf (spacedInts stores ++ ds) s = scanf (stores.map .int ++ ds) s
  | [], _ => rfl
  | store :: stores, s => by
      rw [spacedInts, List.flatMap_cons, List.map_cons]
      show scanf (.blank :: .int store :: (spacedInts stores ++ ds)) s = _
      rw [scanf_blank_int, List.cons_append]
      cases h : scanInt s with
      | none => rw [scanf_int_none _ h, scanf_int_none _ h]
      | some q =>
          rw [scanf_int_some _ h, scanf_int_some _ h, scanf_spacedInts ds stores]

/-- **Integers from a short text.** Each takes two bytes at least, so one of the first
conversions fails; only those before it have stored anything. -/
theorem scanf_short {b : UInt8} (hb : isStop b = true) (s : List UInt8) (ds : List Directive) :
    ∀ (stores : List Bool) {p : List UInt8}, EndsSpan isDigit p → p.length < 2 * stores.length →
      ∃ k < stores.length,
        (scanf (stores.map .int ++ ds) (p ++ b :: s)).length = (stores.take k).count true
  | [], p, _, h => absurd h (Nat.not_lt_zero _)
  | store :: stores, p, hp, h => by
      have hscan := scanInt_append_cons hb p s
      rw [List.map_cons, List.cons_append]
      cases hz : scanInt p with
      | none =>
          rw [hz, Option.map_none] at hscan
          refine ⟨0, Nat.succ_pos _, ?_⟩
          rw [scanf_int_none _ hscan]
          rfl
      | some q =>
          rcases q with ⟨z, p'⟩
          obtain ⟨hp', -, hlen⟩ := scanInt_length hz
          have hlen := hlen hp
          rw [hz, Option.map_some] at hscan
          rw [List.length_cons] at h
          obtain ⟨k, hk, ih⟩ := scanf_short hb s ds stores hp' (by omega)
          refine ⟨k + 1, Nat.succ_lt_succ hk, ?_⟩
          rw [scanf_int_some _ hscan, List.take_succ_cons]
          cases store
          · simpa using ih
          · simpa using ih

/-- The same for a text that may begin with a digit. -/
theorem scanf_short_of_digit {b : UInt8} (hb : isStop b = true) (s : List UInt8)
    (ds : List Directive) (stores : List Bool) {p : List UInt8}
    (h : p.length + 1 < 2 * stores.length) : ∃ k < stores.length,
      (scanf (stores.map .int ++ ds) (p ++ b :: s)).length = (stores.take k).count true := by
  cases stores with
  | nil => exact absurd h (Nat.not_lt_zero _)
  | cons store stores =>
      have hscan := scanInt_append_cons hb p s
      rw [List.map_cons, List.cons_append]
      cases hz : scanInt p with
      | none =>
          rw [hz, Option.map_none] at hscan
          refine ⟨0, Nat.succ_pos _, ?_⟩
          rw [scanf_int_none _ hscan]
          rfl
      | some q =>
          rcases q with ⟨z, p'⟩
          obtain ⟨hp', hlen, -⟩ := scanInt_length hz
          rw [hz, Option.map_some] at hscan
          rw [List.length_cons] at h
          obtain ⟨k, hk, hcount⟩ := scanf_short hb s ds stores hp' (by omega)
          refine ⟨k + 1, Nat.succ_lt_succ hk, ?_⟩
          rw [scanf_int_some _ hscan, List.take_succ_cons]
          cases store
          · simpa using hcount
          · simpa using hcount

/-- The integer stored by conversion `i`, or 0. -/
def intAt (vs : List Scanned) (i : ℕ) : ℤ :=
  match vs[i]? with
  | some (.int z) => z
  | _ => 0

/-- The word stored by conversion `i`, or nothing. -/
def wordAt (vs : List Scanned) (i : ℕ) : List UInt8 :=
  match vs[i]? with
  | some (.word w) => w
  | _ => []

theorem intAt_of_length_le {vs : List Scanned} {i : ℕ} (h : vs.length ≤ i) : intAt vs i = 0 := by
  rw [intAt, List.getElem?_eq_none h]

/-! ## Lines -/

/-- The buffers a loop over `fgets` delivers: each ends after a newline, after `cap`
bytes, or at the end of the file. The first argument is the buffer being filled. -/
def fgetsLoop (cap : ℕ) : List UInt8 → List UInt8 → List (List UInt8)
  | [], [] => []
  | b :: buf, [] => [b :: buf]
  | buf, c :: s =>
      if c = 10 ∨ (buf ++ [c]).length = cap then (buf ++ [c]) :: fgetsLoop cap [] s
      else fgetsLoop cap (buf ++ [c]) s

theorem fgetsLoop_cons (cap : ℕ) (buf : List UInt8) (c : UInt8) (s : List UInt8) :
    fgetsLoop cap buf (c :: s) =
      if c = 10 ∨ (buf ++ [c]).length = cap then (buf ++ [c]) :: fgetsLoop cap [] s
      else fgetsLoop cap (buf ++ [c]) s := by
  cases buf <;> rw [fgetsLoop]

/-- A byte goes into a buffer that it does not end. -/
theorem fgetsLoop_cons_of_lt {cap : ℕ} {buf : List UInt8} {c : UInt8} {line : List UInt8}
    (hline : (10 : UInt8) ∉ c :: line) (h : buf.length + 1 < cap) (s : List UInt8) :
    fgetsLoop cap buf (c :: s) = fgetsLoop cap (buf ++ [c]) s := by
  rw [List.mem_cons, not_or] at hline
  have hnot : ¬ (c = 10 ∨ (buf ++ [c]).length = cap) := by
    rw [List.length_append, List.length_singleton, not_or]
    exact ⟨fun hc => hline.1 hc.symm, by omega⟩
  rw [fgetsLoop_cons, if_neg hnot]

/-- A line is delivered before the lines after it. -/
theorem fgetsLoop_line (cap : ℕ) (s : List UInt8) : ∀ (line buf : List UInt8),
    fgetsLoop cap buf (line ++ 10 :: s) = fgetsLoop cap buf (line ++ [10]) ++ fgetsLoop cap [] s
  | [], buf => by
      rw [List.nil_append, List.nil_append, fgetsLoop_cons, fgetsLoop_cons, if_pos (Or.inl rfl),
        if_pos (Or.inl rfl), fgetsLoop]
      rfl
  | c :: line, buf => by
      rw [List.cons_append, List.cons_append, fgetsLoop_cons, fgetsLoop_cons]
      split
      · rw [fgetsLoop_line cap s line [], List.cons_append]
      · rw [fgetsLoop_line cap s line (buf ++ [c])]

theorem fgetsLoop_lines (cap : ℕ) : ∀ lines : List (List UInt8),
    fgetsLoop cap [] (lines.flatMap (· ++ [10])) =
      lines.flatMap fun line => fgetsLoop cap [] (line ++ [10])
  | [] => by rw [List.flatMap_nil, List.flatMap_nil, fgetsLoop]
  | line :: lines => by
      rw [List.flatMap_cons, List.flatMap_cons, List.append_assoc, List.singleton_append,
        fgetsLoop_line, fgetsLoop_lines cap lines]

/-- A line that fits is delivered whole. -/
theorem fgetsLoop_short {cap : ℕ} : ∀ (line buf : List UInt8), (10 : UInt8) ∉ line →
    buf.length + line.length < cap → fgetsLoop cap buf (line ++ [10]) = [buf ++ line ++ [10]]
  | [], buf, _, _ => by
      rw [List.nil_append, fgetsLoop_cons, if_pos (Or.inl rfl), fgetsLoop, List.append_nil]
  | c :: line, buf, hline, h => by
      rw [List.length_cons] at h
      rw [List.cons_append, fgetsLoop_cons_of_lt hline (by omega),
        fgetsLoop_short line (buf ++ [c]) (fun hmem => hline (List.mem_cons_of_mem c hmem))
          (by simp; omega)]
      simp

/-- The first buffer of a line begins as the line does. -/
theorem fgetsLoop_head (cap : ℕ) : ∀ (line buf : List UInt8),
    ∃ chunk rest, fgetsLoop cap buf (line ++ [10]) = chunk :: rest ∧
      chunk.head? = (buf ++ line ++ [10]).head?
  | [], buf => by
      refine ⟨buf ++ [10], [], ?_, by simp⟩
      rw [List.nil_append, fgetsLoop_cons, if_pos (Or.inl rfl), fgetsLoop]
  | c :: line, buf => by
      rw [List.cons_append, fgetsLoop_cons]
      split
      · refine ⟨_, _, rfl, ?_⟩
        cases buf <;> rfl
      · obtain ⟨chunk, rest, hchunk, hhead⟩ := fgetsLoop_head cap line (buf ++ [c])
        exact ⟨chunk, rest, hchunk, by simpa using hhead⟩

/-- A line that fills the buffer is delivered without its newline, which comes next. -/
theorem fgetsLoop_exact {cap : ℕ} : ∀ (line buf : List UInt8), (10 : UInt8) ∉ line → line ≠ [] →
    buf.length + line.length = cap → fgetsLoop cap buf (line ++ [10]) = [buf ++ line, [10]]
  | [], _, _, hne, _ => absurd rfl hne
  | [c], buf, _, _, h => by
      have hfull : c = 10 ∨ (buf ++ [c]).length = cap := Or.inr (by simpa using h)
      rw [List.singleton_append, fgetsLoop_cons, if_pos hfull, fgetsLoop_cons, if_pos (Or.inl rfl),
        fgetsLoop]
      rfl
  | c :: d :: line, buf, hline, _, h => by
      rw [List.length_cons, List.length_cons] at h
      rw [List.cons_append, fgetsLoop_cons_of_lt hline (by omega),
        fgetsLoop_exact (d :: line) (buf ++ [c]) (fun hmem => hline (List.mem_cons_of_mem c hmem))
          (by simp) (by simp; omega)]
      simp

/-- The buffers of a line of at most `cap` bytes, newline apart: all of it first, with
the newline or before it. -/
theorem fgetsLoop_fits {cap : ℕ} {line : List UInt8} (hline : (10 : UInt8) ∉ line) (hne : line ≠ [])
    (h : line.length ≤ cap) : fgetsLoop cap [] (line ++ [10]) = [line ++ [10]] ∨
      fgetsLoop cap [] (line ++ [10]) = [line, [10]] := by
  rcases Nat.lt_or_eq_of_le h with hlt | heq
  · exact Or.inl (fgetsLoop_short line [] hline (by simpa using hlt))
  · exact Or.inr (fgetsLoop_exact line [] hline hne (by simpa using heq))

end PTop.Framework
