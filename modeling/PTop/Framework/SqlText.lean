import PTop.Framework.Printf

/-!
# Reading an SQL statement

The part of MySQL's grammar that an `INSERT` with numbers and one quoted string
needs. A quoted string ends at the first quote that is neither doubled nor after a
backslash.

`Verbatim` is the condition on bytes under which they may stand between quotes and
denote themselves.
-/

namespace PTop.Framework

/-! ## Quoted strings -/

/-- What a backslash and a byte denote. Before `%` and `_` the backslash stays. -/
def unescape (c : UInt8) : List UInt8 :=
  if c = 48 then [0]
  else if c = 98 then [8]
  else if c = 110 then [10]
  else if c = 114 then [13]
  else if c = 116 then [9]
  else if c = 90 then [26]
  else if c = 37 ∨ c = 95 then [92, c]
  else [c]

/-- The string after an opening quote, and the text after its closing quote. -/
def readLiteral : List UInt8 → Option (List UInt8 × List UInt8)
  | [] => none
  | [b] => if b = 39 then some ([], []) else none
  | b :: c :: s =>
      if b = 39 then
        if c = 39 then (readLiteral s).map fun p => (39 :: p.1, p.2) else some ([], c :: s)
      else if b = 92 then (readLiteral s).map fun p => (unescape c ++ p.1, p.2)
      else (readLiteral (c :: s)).map fun p => (b :: p.1, p.2)

/-- No quote, and no backslash but before `%` and `_`. -/
def Verbatim : List UInt8 → Prop
  | [] => True
  | b :: s => b ≠ 39 ∧ (b = 92 → s.head? = some 37 ∨ s.head? = some 95) ∧ Verbatim s

instance decidableVerbatim : ∀ s : List UInt8, Decidable (Verbatim s)
  | [] => isTrue trivial
  | _ :: s =>
      have := decidableVerbatim s
      inferInstanceAs (Decidable (_ ∧ _ ∧ _))

theorem unescape_kept {c : UInt8} (h : c = 37 ∨ c = 95) : unescape c = [92, c] := by
  rcases h with rfl | rfl <;> rfl

theorem length_unescape {c : UInt8} (h : ¬ (c = 37 ∨ c = 95)) : (unescape c).length = 1 := by
  unfold unescape
  rw [if_neg h]
  repeat' split
  all_goals rfl

theorem length_unescape_le (c : UInt8) : (unescape c).length ≤ 2 := by
  by_cases h : c = 37 ∨ c = 95
  · rw [unescape_kept h]
    rfl
  · rw [length_unescape h]
    decide

/-- What a literal was read as before bytes were put in front of it. -/
theorem exists_of_map_eq {f : List UInt8 → List UInt8} {o : Option (List UInt8 × List UInt8)}
    {v s : List UInt8} (h : o.map (fun p => (f p.1, p.2)) = some (v, s)) :
    ∃ v', o = some (v', s) ∧ f v' = v := by
  obtain ⟨⟨v', s'⟩, hread, heq⟩ := Option.map_eq_some_iff.mp h
  cases heq
  exact ⟨v', hread, rfl⟩

theorem map_eq_some_iff {f : List UInt8 → List UInt8} (hf : Function.Injective f)
    {o : Option (List UInt8 × List UInt8)} {v s : List UInt8} :
    o.map (fun p => (f p.1, p.2)) = some (f v, s) ↔ o = some (v, s) := by
  constructor
  · intro h
    obtain ⟨v', hread, heq⟩ := exists_of_map_eq h
    rw [hread, hf heq]
  · intro h
    rw [h]
    rfl

/-- A string is not longer than its text. -/
theorem length_readLiteral : ∀ {t v s : List UInt8}, readLiteral t = some (v, s) →
    v.length + s.length < t.length
  | [], _, _, h => by cases h
  | [b], v, s, h => by
      rw [readLiteral] at h
      split at h
      · cases h
        exact Nat.one_pos
      · cases h
  | b :: c :: t, v, s, h => by
      rw [readLiteral] at h
      split at h
      · split at h
        · obtain ⟨v', hread, rfl⟩ := exists_of_map_eq h
          have hlen := length_readLiteral hread
          simp only [List.length_cons]
          omega
        · cases h
          simp only [List.length_nil, List.length_cons]
          omega
      · split at h
        · obtain ⟨v', hread, rfl⟩ := exists_of_map_eq h
          have hlen := length_readLiteral hread
          have hescape := length_unescape_le c
          simp only [List.length_append, List.length_cons]
          omega
        · obtain ⟨v', hread, rfl⟩ := exists_of_map_eq h
          have hlen := length_readLiteral hread
          simp only [List.length_cons] at hlen ⊢
          omega

/-- A string that ends at a quote is not longer than the bytes before that quote. -/
theorem length_readLiteral_quote {n v s : List UInt8}
    (h : readLiteral (n ++ 39 :: s) = some (v, s)) : v.length ≤ n.length := by
  have hlen := length_readLiteral h
  rw [List.length_append, List.length_cons] at hlen
  omega

/-- **The bytes between quotes that denote themselves.** -/
theorem readLiteral_eq_self_iff {s : List UInt8} (hs : s.head? ≠ some 39) : ∀ n : List UInt8,
    readLiteral (n ++ 39 :: s) = some (n, s) ↔ Verbatim n
  | [] => by
      refine iff_of_true ?_ trivial
      cases s with
      | nil => rfl
      | cons c s =>
          have hc : c ≠ 39 := fun h => hs (congrArg some h)
          rw [List.nil_append, readLiteral, if_pos rfl, if_neg hc]
  | [b] => by
      have ih := (readLiteral_eq_self_iff hs []).mpr trivial
      rw [List.nil_append] at ih
      rw [List.singleton_append, readLiteral]
      by_cases hq : b = 39
      · refine iff_of_false ?_ fun h => h.1 hq
        rw [if_pos hq, if_pos rfl]
        intro h
        obtain ⟨v, hread, -⟩ := exists_of_map_eq h
        exact absurd (length_readLiteral hread) (by simp)
      · rw [if_neg hq]
        by_cases hb : b = 92
        · refine iff_of_false ?_ fun h => by simpa using h.2.1 hb
          rw [if_pos hb]
          intro h
          obtain ⟨v, hread, -⟩ := exists_of_map_eq h
          exact absurd (length_readLiteral hread) (by simp)
        · rw [if_neg hb, ih]
          exact iff_of_true rfl ⟨hq, fun h => absurd h hb, trivial⟩
  | b :: c :: n => by
      rw [List.cons_append, List.cons_append, readLiteral]
      by_cases hq : b = 39
      · refine iff_of_false ?_ fun h => h.1 hq
        rw [if_pos hq]
        by_cases hc : c = 39
        · rw [if_pos hc]
          intro h
          obtain ⟨v, hread, heq⟩ := exists_of_map_eq h
          -- two quotes are one byte of the string
          have hlen := length_readLiteral_quote hread
          have heq := congrArg List.length heq
          rw [List.length_cons, List.length_cons, List.length_cons] at heq
          omega
        · rw [if_neg hc]
          simp
      · rw [if_neg hq]
        by_cases hb : b = 92
        · rw [if_pos hb]
          by_cases hc : c = 37 ∨ c = 95
          · have hiff := readLiteral_eq_self_iff hs n
            have hverb : Verbatim (b :: c :: n) ↔ Verbatim n := by
              rcases hc with rfl | rfl <;> simp [Verbatim, hb]
            rw [hverb, ← hiff, hb, unescape_kept hc]
            exact map_eq_some_iff (List.append_right_injective [92, c])
          · refine iff_of_false ?_ fun h => hc (by simpa using h.2.1 hb)
            intro h
            obtain ⟨v, hread, heq⟩ := exists_of_map_eq h
            -- two bytes of the text are one byte of the string
            have hone := length_unescape hc
            have hlen := length_readLiteral_quote hread
            have heq := congrArg List.length heq
            rw [List.length_append, List.length_cons, List.length_cons] at heq
            omega
        · have hiff := readLiteral_eq_self_iff hs (c :: n)
          have hverb : Verbatim (b :: c :: n) ↔ Verbatim (c :: n) := by
            rw [Verbatim]
            exact ⟨fun h => h.2.2, fun h => ⟨hq, fun hb' => absurd hb' hb, h⟩⟩
          rw [if_neg hb, hverb, ← hiff, List.cons_append]
          exact map_eq_some_iff (List.cons_injective (a := b))

/-! ## Numbers -/

/-- Digits, and perhaps a point and more of them: the number and the text after it. -/
def readUnsigned (s : List UInt8) : Option (List UInt8 × List UInt8) :=
  let ds := s.takeWhile isDigit
  if ds = [] then none
  else
    match s.dropWhile isDigit with
    | [] => some (ds, [])
    | b :: t =>
        if b = 46 then some (ds ++ 46 :: t.takeWhile isDigit, t.dropWhile isDigit)
        else some (ds, b :: t)

/-- A number, perhaps with a minus. -/
def readNumber : List UInt8 → Option (List UInt8 × List UInt8)
  | [] => none
  | b :: s =>
      if b = 45 then (readUnsigned s).map fun p => (45 :: p.1, p.2) else readUnsigned (b :: s)

/-- Numbers, each before a comma. -/
def readNumbers : ℕ → List UInt8 → Option (List (List UInt8) × List UInt8)
  | 0, s => some ([], s)
  | n + 1, s =>
      match readNumber (skipBlank s) with
      | some (t, b :: s) =>
          if b = 44 then (readNumbers n s).map fun p => (t :: p.1, p.2) else none
      | _ => none

/-- A statement that begins with `head`, goes on with `n` numbers and a quoted string, and
ends with a bracket: the numbers, and the string. -/
def readInsert (head : List UInt8) (n : ℕ) (s : List UInt8) :
    Option (List (List UInt8) × List UInt8) :=
  if head.isPrefixOf s then
    match readNumbers n (s.drop head.length) with
    | none => none
    | some (ts, s) =>
        match skipBlank s with
        | [] => none
        | b :: s =>
            if b = 39 then
              match readLiteral s with
              | none => none
              | some (v, s) => if s = [41] then some (ts, v) else none
            else none
  else none

/-- A text is a number, whatever follows its comma. -/
def IsNumber (t : List UInt8) : Prop := ∀ s, readNumber (t ++ 44 :: s) = some (t, 44 :: s)

/-- A text does not begin with a number. -/
def NotNumber (t : List UInt8) : Prop := ∀ s, readNumber (t ++ 44 :: s) = none

/-- What may stand behind a number. -/
def EndsNumber (s : List UInt8) : Prop := ∀ b ∈ s.head?, isDigit b = false ∧ b ≠ 46

theorem endsNumber_cons {b : UInt8} (s : List UInt8) (h : isDigit b = false ∧ b ≠ 46) :
    EndsNumber (b :: s) := by
  intro c hc
  cases hc
  exact h

theorem EndsNumber.endsSpan {s : List UInt8} (h : EndsNumber s) : EndsSpan isDigit s :=
  fun b hb => (h b hb).1

theorem readUnsigned_decimal (n : ℕ) {s : List UInt8} (hs : EndsNumber s) :
    readUnsigned (decimal n ++ s) = some (decimal n, s) := by
  have hds := isDigit_of_mem_decimal n
  unfold readUnsigned
  dsimp only
  rw [takeWhile_append_span hds hs.endsSpan, dropWhile_append_span hds hs.endsSpan,
    if_neg (decimal_ne_nil n)]
  cases s with
  | nil => rfl
  | cons b s => exact if_neg (hs b rfl).2

/-- Digits after a point end there too. -/
theorem readUnsigned_point (n k m : ℕ) {s : List UInt8} (hs : EndsNumber s) :
    readUnsigned (decimal n ++ 46 :: lastDigits k m ++ s) =
      some (decimal n ++ 46 :: lastDigits k m, s) := by
  have hds := isDigit_of_mem_decimal n
  have hlast := isDigit_of_mem_lastDigits k m
  have hpoint : EndsSpan isDigit (46 :: (lastDigits k m ++ s)) := endsSpan_cons _ (by decide)
  rw [List.append_assoc, List.cons_append]
  unfold readUnsigned
  dsimp only
  rw [takeWhile_append_span hds hpoint, dropWhile_append_span hds hpoint,
    if_neg (decimal_ne_nil n)]
  dsimp only
  rw [if_pos rfl, takeWhile_append_span hlast hs.endsSpan, dropWhile_append_span hlast hs.endsSpan]

theorem readNumber_digit {b : UInt8} (hb : isDigit b = true) (s : List UInt8) :
    readNumber (b :: s) = readUnsigned (b :: s) := by
  have hne : b ≠ 45 := by
    rintro rfl
    exact absurd hb (by decide)
  rw [readNumber, if_neg hne]

theorem readNumber_decimal_append (n : ℕ) (s : List UInt8) :
    readNumber (decimal n ++ s) = readUnsigned (decimal n ++ s) := by
  cases h : decimal n with
  | nil => exact absurd h (decimal_ne_nil n)
  | cons d ds =>
      have hd := isDigit_of_mem_decimal n d (h ▸ List.mem_cons_self)
      rw [List.cons_append, readNumber_digit hd]

section Written

variable {s : List UInt8} (hs : EndsNumber s)

include hs

theorem readNumber_decimal (n : ℕ) : readNumber (decimal n ++ s) = some (decimal n, s) := by
  rw [readNumber_decimal_append, readUnsigned_decimal n hs]

theorem readNumber_integer (z : ℤ) : readNumber (integer z ++ s) = some (integer z, s) := by
  unfold integer
  split
  · rw [List.cons_append, readNumber, if_pos rfl, readUnsigned_decimal _ hs]
    rfl
  · exact readNumber_decimal hs _

theorem readNumber_fixed (k : ℕ) (q : ℚ) : readNumber (fixed k q ++ s) = some (fixed k q, s) := by
  unfold fixed
  dsimp only
  split
  · rw [List.singleton_append, List.cons_append, readNumber, if_pos rfl, readUnsigned_point _ _ _ hs]
    rfl
  · rw [List.nil_append, List.append_assoc, readNumber_decimal_append, ← List.append_assoc,
      readUnsigned_point _ _ _ hs]

end Written

theorem isNumber_decimal (n : ℕ) : IsNumber (decimal n) := fun s =>
  readNumber_decimal (endsNumber_cons s (by decide)) n

theorem isNumber_integer (z : ℤ) : IsNumber (integer z) := fun s =>
  readNumber_integer (endsNumber_cons s (by decide)) z

theorem isNumber_fixed (k : ℕ) (q : ℚ) : IsNumber (fixed k q) := fun s =>
  readNumber_fixed (endsNumber_cons s (by decide)) k q

/-- Infinities and NaN have no digits. -/
theorem readNumber_floatText {k : ℕ} {x : XFloat} (h : x.isFinite = false) (s : List UInt8) :
    readNumber (floatText k x ++ s) = none := by
  cases x with
  | fin q => cases h
  | inf neg => cases neg <;> rfl
  | nan => rfl

theorem notNumber_floatText {k : ℕ} {x : XFloat} (h : x.isFinite = false) :
    NotNumber (floatText k x) := fun s => readNumber_floatText h (44 :: s)

/-! ## Numbers one after another -/

/-- Texts with spaces before and a comma after each. -/
def commaFields (vs : List (ℕ × List UInt8)) : List UInt8 :=
  vs.flatMap fun v => List.replicate v.1 32 ++ (v.2 ++ [44])

theorem commaFields_cons (v : ℕ × List UInt8) (vs : List (ℕ × List UInt8)) (s : List UInt8) :
    commaFields (v :: vs) ++ s = List.replicate v.1 32 ++ (v.2 ++ 44 :: (commaFields vs ++ s)) := by
  simp [commaFields]

/-- A number does not begin with white space. -/
theorem IsNumber.endsSpan {t : List UInt8} (h : IsNumber t) : EndsSpan isSpace t := by
  intro b hb
  cases t with
  | nil => cases hb
  | cons c t =>
      cases hb
      by_contra hspace
      rw [Bool.not_eq_false] at hspace
      have hdigit : isDigit b = false := by
        by_contra hdigit
        rw [Bool.not_eq_false] at hdigit
        rw [isSpace_eq_false_of_isDigit hdigit] at hspace
        cases hspace
      have hminus : b ≠ 45 := by
        rintro rfl
        exact absurd hspace (by decide)
      have hread := h []
      rw [List.cons_append, readNumber, if_neg hminus, readUnsigned,
        List.takeWhile_cons_of_neg (by simp [hdigit]), if_pos rfl] at hread
      cases hread

theorem readNumbers_commaFields (s : List UInt8) : ∀ {vs : List (ℕ × List UInt8)},
    (∀ v ∈ vs, IsNumber v.2) →
      readNumbers vs.length (commaFields vs ++ s) = some (vs.map Prod.snd, s)
  | [], _ => rfl
  | v :: vs, h => by
      have hv := h v List.mem_cons_self
      have ih := readNumbers_commaFields s fun u hu => h u (List.mem_cons_of_mem v hu)
      have hspan := endsSpan_append_cons hv.endsSpan (by decide : isSpace 44 = false)
        (commaFields vs ++ s)
      rw [List.length_cons, commaFields_cons, readNumbers, skipBlank_spaces _ hspan, hv]
      dsimp only
      rw [if_pos rfl, ih]
      rfl

/-- One text that is no number is enough to fail. -/
theorem readNumbers_commaFields_none (s : List UInt8) : ∀ {vs : List (ℕ × List UInt8)},
    (∀ v ∈ vs, IsNumber v.2 ∨ EndsSpan isSpace v.2 ∧ NotNumber v.2) →
      (∃ v ∈ vs, ¬ IsNumber v.2) → readNumbers vs.length (commaFields vs ++ s) = none
  | [], _, h => absurd h.choose_spec.1 List.not_mem_nil
  | v :: vs, h, hbad => by
      rw [List.length_cons, commaFields_cons, readNumbers]
      rcases h v List.mem_cons_self with hv | ⟨hspan, hv⟩
      · rcases hbad with ⟨u, hu, hnot⟩
        rcases List.mem_cons.mp hu with rfl | hu
        · exact absurd hv hnot
        · have ih := readNumbers_commaFields_none s
            (fun u hu => h u (List.mem_cons_of_mem v hu)) ⟨u, hu, hnot⟩
          rw [skipBlank_spaces _ (endsSpan_append_cons hv.endsSpan (by decide) _), hv]
          dsimp only
          rw [if_pos rfl, ih]
          rfl
      · rw [skipBlank_spaces _ (endsSpan_append_cons hspan (by decide) _), hv]

section Statement

variable {vs : List (ℕ × List UInt8)} (head : List UInt8) (pad : ℕ) (s : List UInt8)

/-- The statement with the numbers `vs` and what follows the opening quote. -/
def insertText (head : List UInt8) (vs : List (ℕ × List UInt8)) (pad : ℕ) (s : List UInt8) :
    List UInt8 :=
  head ++ (commaFields vs ++ (List.replicate pad 32 ++ 39 :: s))

theorem isPrefixOf_insertText : head.isPrefixOf (insertText head vs pad s) = true :=
  List.isPrefixOf_iff_prefix.mpr (List.prefix_append head _)

theorem readInsert_eq_none (h : ∀ v ∈ vs, IsNumber v.2 ∨ EndsSpan isSpace v.2 ∧ NotNumber v.2)
    (hbad : ∃ v ∈ vs, ¬ IsNumber v.2) :
    readInsert head vs.length (insertText head vs pad s) = none := by
  rw [readInsert, if_pos (isPrefixOf_insertText head pad s), insertText, List.drop_left,
    readNumbers_commaFields_none _ h hbad]

/-- **A statement is read as its numbers and its string**, if the string ends at the last
quote. -/
theorem readInsert_eq_some_iff (h : ∀ v ∈ vs, IsNumber v.2) {ts : List (List UInt8)}
    {v : List UInt8} :
    readInsert head vs.length (insertText head vs pad s) = some (ts, v) ↔
      ts = vs.map Prod.snd ∧ readLiteral s = some (v, [41]) := by
  have hquote : EndsSpan isSpace (39 :: s) := endsSpan_cons s (by decide)
  rw [readInsert, if_pos (isPrefixOf_insertText head pad s), insertText, List.drop_left,
    readNumbers_commaFields _ h]
  dsimp only
  rw [skipBlank_spaces pad hquote]
  dsimp only
  rw [if_pos rfl]
  cases readLiteral s with
  | none => simp
  | some p =>
      rcases p with ⟨v', s'⟩
      dsimp only
      by_cases hs : s' = [41]
      · rw [if_pos hs, hs, Option.some.injEq, Prod.mk.injEq, Option.some.injEq, Prod.mk.injEq,
          eq_comm]
        simp
      · rw [if_neg hs]
        simp [hs]

end Statement

end PTop.Framework
