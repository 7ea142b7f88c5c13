import PTop.Framework.Scanf

/-!
# Files of keyed lines

A reader goes through the buffers of a file and compares each with some keys.
Where a key begins the buffer, it scans a number some way behind it and stores it.
A line says one thing to such a reader: nothing, or one number. What the reader
makes of a file is what its lines say, one after the other.
-/

namespace PTop.Framework

variable {σ : Type*}

/-- One test of a reader: the key, where the number begins, and where it goes. -/
structure Branch (σ : Type*) where
  key : List UInt8
  skip : ℕ
  store : ℤ → σ → σ

/-- Without a number nothing is stored. -/
def Branch.scan (b : Branch σ) (buff : List UInt8) (s : σ) : σ :=
  match scanInt (buff.drop b.skip) with
  | none => s
  | some (z, _) => b.store z s

/-- The branch whose key begins the buffer. -/
def chosen (bs : List (Branch σ)) (buff : List UInt8) : Option (Branch σ) :=
  bs.find? fun b => b.key.isPrefixOf buff

def readBuff (bs : List (Branch σ)) (s : σ) (buff : List UInt8) : σ :=
  match chosen bs buff with
  | none => s
  | some b => b.scan buff s

/-- Every buffer is compared. -/
def readKeyed (cap : ℕ) (bs : List (Branch σ)) (text : List UInt8) (s : σ) : σ :=
  (fgetsLoop cap [] text).foldl (readBuff bs) s

/-- The reader stops at the first buffer that has its key. -/
def readFirst (cap : ℕ) (b : Branch σ) (text : List UInt8) (s : σ) : σ :=
  match (fgetsLoop cap [] text).find? fun buff => b.key.isPrefixOf buff with
  | none => s
  | some buff => b.scan buff s

theorem scanInt_blank {blank : List UInt8} (h : ∀ c ∈ blank, isSpace c = true) (s : List UInt8) :
    scanInt (blank ++ s) = scanInt s := by
  have hskip : skipBlank (blank ++ s) = skipBlank s := List.dropWhile_append_of_pos h
  rw [← scanInt_skipBlank, hskip, scanInt_skipBlank]

/-! ## Keys -/

/-- No key begins another. -/
def Apart (keys : List (List UInt8)) : Prop :=
  keys.Pairwise fun k k' => k.isPrefixOf k' = false ∧ k'.isPrefixOf k = false

instance (keys : List (List UInt8)) : Decidable (Apart keys) :=
  inferInstanceAs (Decidable (keys.Pairwise _))

/-- **A text that begins with a key is given to its branch.** -/
theorem chosen_eq {bs : List (Branch σ)} (h : Apart (bs.map Branch.key)) {b : Branch σ}
    (hb : b ∈ bs) {buff : List UInt8} (hkey : b.key <+: buff) : chosen bs buff = some b := by
  induction bs with
  | nil => exact absurd hb List.not_mem_nil
  | cons c bs ih =>
      rw [List.map_cons, Apart, List.pairwise_cons] at h
      rw [chosen, List.find?_cons]
      rcases List.mem_cons.mp hb with rfl | hb
      · rw [List.isPrefixOf_iff_prefix.mpr hkey]
      · -- the key of `c` does not begin the buffer: one of the two would begin the other
        have hc : c.key.isPrefixOf buff = false := by
          rw [← Bool.not_eq_true, List.isPrefixOf_iff_prefix]
          intro hpre
          obtain ⟨h₁, h₂⟩ := h.1 b.key (List.mem_map_of_mem hb)
          rcases List.prefix_or_prefix_of_prefix hpre hkey with hle | hle
          · rw [List.isPrefixOf_iff_prefix.mpr hle] at h₁
            cases h₁
          · rw [List.isPrefixOf_iff_prefix.mpr hle] at h₂
            cases h₂
        rw [hc]
        exact ih h.2 hb

theorem chosen_eq_none {bs : List (Branch σ)} {buff : List UInt8}
    (h : ∀ b ∈ bs, ¬ b.key <+: buff) : chosen bs buff = none := by
  rw [chosen, List.find?_eq_none]
  intro b hb hkey
  exact h b hb (List.isPrefixOf_iff_prefix.mp hkey)

/-! ## The buffers of a line -/

/-- A buffer is a part of the text. -/
theorem infix_of_mem_fgetsLoop (cap : ℕ) : ∀ (s buf : List UInt8), ∀ b ∈ fgetsLoop cap buf s,
    b <:+: buf ++ s
  | [], buf => by
      intro b hb
      cases buf with
      | nil =>
          have hnil : fgetsLoop cap [] [] = [] := rfl
          exact absurd (hnil ▸ hb) List.not_mem_nil
      | cons c buf =>
          rw [fgetsLoop, List.mem_singleton] at hb
          exact hb ▸ (List.prefix_append (c :: buf) []).isInfix
  | c :: s, buf => by
      intro b hb
      have hassoc : buf ++ c :: s = buf ++ [c] ++ s := by simp
      rw [fgetsLoop_cons] at hb
      split at hb
      · rcases List.mem_cons.mp hb with rfl | hb
        · exact hassoc ▸ (List.prefix_append _ s).isInfix
        · have ih := infix_of_mem_fgetsLoop cap s [] b hb
          rw [List.nil_append] at ih
          exact ih.trans (hassoc ▸ (List.suffix_append _ s).isInfix)
      · exact hassoc ▸ infix_of_mem_fgetsLoop cap s (buf ++ [c]) b hb

/-- A text without a newline that is part of a line with its newline is part of the line. -/
theorem infix_line {k line : List UInt8} (hk : (10 : UInt8) ∉ k) (h : k <:+: line ++ [10]) :
    k <:+: line := by
  rcases List.infix_concat_iff.mp h with hsuf | hin
  · obtain ⟨t, ht⟩ := hsuf
    rcases List.eq_nil_or_concat k with rfl | ⟨k', c, rfl⟩
    · exact List.nil_infix
    · have hc : c = 10 := by
        rw [List.concat_eq_append, ← List.append_assoc] at ht
        exact (List.append_inj' ht rfl).2 |> List.singleton_inj.mp
      exact absurd (by simp [hc]) hk
  · exact hin

/-! ## What a line says -/

/-- No buffer of the line begins with a key. -/
def Unread (cap : ℕ) (bs : List (Branch σ)) (line : List UInt8) : Prop :=
  ∀ buff ∈ fgetsLoop cap [] (line ++ [10]), ∀ b ∈ bs, ¬ b.key <+: buff

/-- A line of any length in which no key occurs. -/
theorem Unread.of_foreign {cap : ℕ} {bs : List (Branch σ)} {line : List UInt8}
    (hbs : ∀ b ∈ bs, (10 : UInt8) ∉ b.key) (h : ∀ b ∈ bs, ¬ b.key <:+: line) :
    Unread cap bs line := by
  intro buff hbuff b hb hpre
  have hin := infix_of_mem_fgetsLoop cap (line ++ [10]) [] buff hbuff
  rw [List.nil_append] at hin
  exact h b hb (infix_line (hbs b hb) (hpre.isInfix.trans hin))

/-- What a line says to a reader: nothing, or a number for one of the branches, read from
the one buffer that the line fits. -/
inductive Says (cap : ℕ) (bs : List (Branch σ)) : List UInt8 → (σ → σ) → Prop where
  | nothing {line} (h : Unread cap bs line) : Says cap bs line id
  | number {line rest b z} (h : fgetsLoop cap [] (line ++ [10]) = [line ++ [10]])
      (hb : chosen bs (line ++ [10]) = some b)
      (hz : scanInt ((line ++ [10]).drop b.skip) = some (z, rest)) : Says cap bs line (b.store z)

section Lines

variable {cap : ℕ} {bs : List (Branch σ)}

/-- A key, white space at least as far as the number is looked for, and the number. -/
theorem Says.field (hbs : Apart (bs.map Branch.key)) {b : Branch σ} (hb : b ∈ bs)
    {blank tail : List UInt8} (hblank : ∀ c ∈ blank, isSpace c = true)
    (hkey : b.key.length ≤ b.skip) (hskip : b.skip ≤ b.key.length + blank.length) (z : ℤ)
    (htail : EndsSpan isDigit (tail ++ [10]))
    (hline : (10 : UInt8) ∉ b.key ++ (blank ++ (integer z ++ tail)))
    (hlen : (b.key ++ (blank ++ (integer z ++ tail))).length < cap) :
    Says cap bs (b.key ++ (blank ++ (integer z ++ tail))) (b.store z) := by
  have hdrop : (b.key ++ (blank ++ (integer z ++ tail)) ++ [10]).drop b.skip =
      blank.drop (b.skip - b.key.length) ++ (integer z ++ (tail ++ [10])) := by
    rw [List.append_assoc, List.drop_append, List.drop_of_length_le hkey, List.nil_append,
      List.append_assoc, List.drop_append_of_le_length (by omega), List.append_assoc]
  have hz : scanInt ((b.key ++ (blank ++ (integer z ++ tail)) ++ [10]).drop b.skip) =
      some (z, tail ++ [10]) := by
    rw [hdrop, scanInt_blank fun c hc => hblank c (List.mem_of_mem_drop hc)]
    exact scanInt_integer z htail
  refine .number ?_ (chosen_eq hbs hb ?_) hz
  · rw [fgetsLoop_short _ [] hline (by simpa using hlen), List.nil_append]
  · rw [List.append_assoc]
    exact List.prefix_append _ _

/-- Buffers without a key change nothing. -/
theorem foldl_readBuff_unread : ∀ {buffs : List (List UInt8)} (s : σ),
    (∀ buff ∈ buffs, ∀ b ∈ bs, ¬ b.key <+: buff) → buffs.foldl (readBuff bs) s = s
  | [], _, _ => rfl
  | buff :: buffs, s, h => by
      rw [List.foldl_cons, readBuff, chosen_eq_none (h buff List.mem_cons_self)]
      exact foldl_readBuff_unread s fun c hc => h c (List.mem_cons_of_mem buff hc)

/-- **One line.** -/
theorem Says.read {line : List UInt8} {f : σ → σ} (h : Says cap bs line f) (s : σ) :
    (fgetsLoop cap [] (line ++ [10])).foldl (readBuff bs) s = f s := by
  cases h with
  | nothing h => exact foldl_readBuff_unread s h
  | number h hb hz =>
      rw [h, List.foldl_cons, List.foldl_nil, readBuff, hb]
      dsimp only
      rw [Branch.scan, hz]

/-- **What a reader makes of a file.** -/
theorem readKeyed_lines : ∀ {ls : List (List UInt8 × (σ → σ))},
    (∀ l ∈ ls, Says cap bs l.1 l.2) → ∀ s : σ,
      readKeyed cap bs (ls.flatMap fun l => l.1 ++ [10]) s = ls.foldl (fun s l => l.2 s) s
  | [], _, s => by
      rw [List.flatMap_nil, readKeyed, fgetsLoop]
      rfl
  | l :: ls, h, s => by
      have ih := readKeyed_lines (fun m hm => h m (List.mem_cons_of_mem l hm)) (l.2 s)
      rw [List.flatMap_cons, List.append_assoc, List.singleton_append, readKeyed, fgetsLoop_line,
        List.foldl_append, (h l List.mem_cons_self).read, List.foldl_cons, ← ih]
      rfl

/-- **A reader that stops** does not get to what follows its line. -/
theorem readFirst_lines {b : Branch σ} {line after : List UInt8} {z : ℤ}
    (h : fgetsLoop cap [] (line ++ [10]) = [line ++ [10]]) (hkey : b.key <+: line)
    (hz : scanInt ((line ++ [10]).drop b.skip) = some (z, after)) (rest : List UInt8) (s : σ) :
    ∀ {before : List (List UInt8)}, (∀ l ∈ before, Unread cap [b] l) →
      readFirst cap b (before.flatMap (· ++ [10]) ++ (line ++ 10 :: rest)) s = b.store z s
  | [], _ => by
      have hpre : b.key.isPrefixOf (line ++ [10]) = true :=
        List.isPrefixOf_iff_prefix.mpr (hkey.trans (List.prefix_append line [10]))
      rw [List.flatMap_nil, List.nil_append, readFirst, fgetsLoop_line, h, List.singleton_append,
        List.find?_cons, hpre]
      dsimp only
      rw [Branch.scan, hz]
  | l :: before, hunread => by
      have ih := readFirst_lines h hkey hz rest s fun m hm => hunread m (List.mem_cons_of_mem l hm)
      have hnone : (fgetsLoop cap [] (l ++ [10])).find? (fun buff => b.key.isPrefixOf buff) =
          none := by
        rw [List.find?_eq_none]
        intro buff hbuff hpre
        exact hunread l List.mem_cons_self buff hbuff b (List.mem_singleton_self b)
          (List.isPrefixOf_iff_prefix.mp hpre)
      rw [List.flatMap_cons, List.append_assoc, List.append_assoc, List.singleton_append, readFirst,
        fgetsLoop_line, List.find?_append, hnone, Option.none_or, ← readFirst]
      exact ih

end Lines

/-! ## Files with one line for each number -/

/-- A line with a key and a number. -/
structure FieldLine (σ : Type*) where
  branch : Branch σ
  blank : List UInt8
  value : ℕ
  tail : List UInt8

def FieldLine.text (f : FieldLine σ) : List UInt8 :=
  f.branch.key ++ (f.blank ++ (decimal f.value ++ f.tail))

/-- The number is where the reader looks for it, and the line is one. -/
structure FieldLine.Ok (cap : ℕ) (bs : List (Branch σ)) (f : FieldLine σ) : Prop where
  branch : f.branch ∈ bs
  blank : ∀ c ∈ f.blank, isSpace c = true
  key_le : f.branch.key.length ≤ f.branch.skip
  skip_le : f.branch.skip ≤ f.branch.key.length + f.blank.length
  tail : EndsSpan isDigit (f.tail ++ [10])
  newline : (10 : UInt8) ∉ f.text
  fits : f.text.length < cap

/-- A line that says nothing. -/
abbrev UnreadLine (cap : ℕ) (bs : List (Branch σ)) := { l : List UInt8 // Unread cap bs l }

section Files

variable {cap : ℕ} {bs : List (Branch σ)}

theorem FieldLine.Ok.read_as (hbs : Apart (bs.map Branch.key)) {f : FieldLine σ} (h : f.Ok cap bs) :
    Says cap bs f.text (f.branch.store f.value) := by
  have hdecimal : decimal f.value = integer f.value := by
    rw [integer, if_neg (by omega), Int.natAbs_natCast]
  have hnewline := h.newline
  have hfits := h.fits
  unfold FieldLine.text at hnewline hfits ⊢
  rw [hdecimal] at hnewline hfits ⊢
  exact .field hbs h.branch h.blank h.key_le h.skip_le f.value h.tail hnewline hfits

/-- No newline in the parts of a line, and room for a number of `k` digits. -/
theorem FieldLine.text_ok (cap : ℕ) (f : FieldLine σ) {k : ℕ} (hk : 0 < k) (hvalue : f.value < 10 ^ k)
    (hparts : (10 : UInt8) ∉ f.branch.key ++ (f.blank ++ f.tail))
    (hlen : f.branch.key.length + f.blank.length + f.tail.length + k < cap) :
    (10 : UInt8) ∉ f.text ∧ f.text.length < cap := by
  have hdigits := length_decimal_le hk hvalue
  have hnewline : (10 : UInt8) ∉ decimal f.value := by
    intro h
    exact absurd (isDigit_of_mem_decimal f.value 10 h) (by decide)
  constructor
  · simp only [FieldLine.text, List.mem_append, not_or] at hparts ⊢
    exact ⟨hparts.1, hparts.2.1, hnewline, hparts.2.2⟩
  · simp only [FieldLine.text, List.length_append]
    omega

/-- Lines that say nothing, and after each number such lines again. -/
def keyedLines (before : List (UnreadLine cap bs)) (fs : List (FieldLine σ × List (UnreadLine cap bs))) :
    List (List UInt8 × (σ → σ)) :=
  (before.map fun l => (l.val, id)) ++ fs.flatMap fun f =>
    (f.1.text, f.1.branch.store f.1.value) :: f.2.map fun l => (l.val, id)

def keyedText (before : List (UnreadLine cap bs)) (fs : List (FieldLine σ × List (UnreadLine cap bs))) :
    List UInt8 :=
  (keyedLines before fs).flatMap fun l => l.1 ++ [10]

theorem foldl_unreadLines (ls : List (UnreadLine cap bs)) (s : σ) :
    (ls.map fun l => (l.val, (id : σ → σ))).foldl (fun s l => l.2 s) s = s := by
  induction ls with
  | nil => rfl
  | cons l ls ih => exact ih

theorem foldl_keyedLines (before : List (UnreadLine cap bs)) (s : σ) :
    ∀ fs : List (FieldLine σ × List (UnreadLine cap bs)),
      (keyedLines before fs).foldl (fun s l => l.2 s) s =
        fs.foldl (fun s f => f.1.branch.store f.1.value s) s := by
  intro fs
  rw [keyedLines, List.foldl_append, foldl_unreadLines]
  induction fs generalizing s with
  | nil => rfl
  | cons f fs ih =>
      rw [List.flatMap_cons, List.cons_append, List.foldl_cons, List.foldl_append,
        foldl_unreadLines, List.foldl_cons]
      exact ih _

/-- **The numbers of a file are stored in their order.** -/
theorem readKeyed_keyedText (hbs : Apart (bs.map Branch.key)) (before : List (UnreadLine cap bs))
    {fs : List (FieldLine σ × List (UnreadLine cap bs))} (hfs : ∀ f ∈ fs, f.1.Ok cap bs) (s : σ) :
    readKeyed cap bs (keyedText before fs) s =
      fs.foldl (fun s f => f.1.branch.store f.1.value s) s := by
  have hsays : ∀ l ∈ keyedLines before fs, Says cap bs l.1 l.2 := by
    intro l hl
    rcases List.mem_append.mp hl with hl | hl
    · obtain ⟨q, -, rfl⟩ := List.mem_map.mp hl
      exact .nothing q.property
    · obtain ⟨f, hf, hl⟩ := List.mem_flatMap.mp hl
      rcases List.mem_cons.mp hl with rfl | hl
      · exact (hfs f hf).read_as hbs
      · obtain ⟨q, -, rfl⟩ := List.mem_map.mp hl
        exact .nothing q.property
  rw [keyedText, readKeyed_lines hsays, foldl_keyedLines]

end Files

end PTop.Framework
