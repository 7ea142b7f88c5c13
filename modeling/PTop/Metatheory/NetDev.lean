import PTop.Metatheory.StatLine

/-!
# The counters of the wireless interface

`stat_sysnet_stats` takes the first interface of `/proc/net/wireless` whose name
begins with `eth`, and compares its name with the beginning of each line of
`/proc/net/dev`. So it stops at the first interface whose name begins with that
name. If this is another one, the numbers are looked for inside its name.
-/

namespace PTop

open Framework

/-! ## Words of a buffer -/

/-- The first word of a text. -/
def firstWord (s : CString) : CString := (skipBlank s).takeWhile fun b => !isSpace b

theorem readWord_eq (width : Option ℕ) (old s : CString) : readWord width old s =
    let w := match width with
      | none => firstWord s
      | some n => (firstWord s).take n
    if w = [] then old else w := by
  unfold readWord scanWord firstWord
  cases width with
  | none =>
      dsimp only
      by_cases h : ((skipBlank s).takeWhile fun b => !isSpace b) = []
      · rw [if_pos h, if_pos h]
      · rw [if_neg h, if_neg h]
  | some n =>
      dsimp only
      by_cases h : (((skipBlank s).takeWhile fun b => !isSpace b).take n) = []
      · rw [if_pos h, if_pos h]
      · rw [if_neg h, if_neg h]

theorem firstWord_span {sp w s : CString} (hsp : ∀ b ∈ sp, isSpace b = true) (hne : w ≠ [])
    (hw : ∀ b ∈ w, isSpace b = false) (hs : ∀ b ∈ s.head?, isSpace b = true) :
    firstWord (sp ++ w ++ s) = w := by
  rw [firstWord, skipBlank_word hsp hne hw]
  exact takeWhile_append_span (fun b hb => by simp [hw b hb]) fun b hb => by simp [hs b hb]

/-- White space after a text leaves its first word alone. -/
theorem firstWord_append {s t : CString} (hs : firstWord s ≠ []) (ht : ∀ b ∈ t, isSpace b = true) :
    firstWord (s ++ t) = firstWord s := by
  have hsplit : s = s.takeWhile isSpace ++ firstWord s ++
      (skipBlank s).dropWhile (fun b => !isSpace b) := by
    rw [List.append_assoc, firstWord, List.takeWhile_append_dropWhile, skipBlank,
      List.takeWhile_append_dropWhile]
  conv_lhs => rw [hsplit, List.append_assoc]
  apply firstWord_span
  · intro b hb
    exact List.mem_takeWhile_imp hb
  · exact hs
  · intro b hb
    simpa using List.mem_takeWhile_imp hb
  · intro b hb
    rw [List.head?_append] at hb
    cases hd : ((skipBlank s).dropWhile fun b => !isSpace b).head? with
    | none =>
        rw [hd, Option.none_or] at hb
        exact ht b (List.mem_of_mem_head? hb)
    | some c =>
        rw [hd, Option.some_or] at hb
        cases hb
        have h := endsSpan_dropWhile (fun b => !isSpace b) (skipBlank s) b hd
        simpa using h

/-- A line whose first word is its own and that fits the buffer but for its newline. -/
structure LineOk (line : CString) : Prop where
  newline : (10 : UInt8) ∉ line
  length : line.length < BUFFER_SIZE
  word : firstWord line ≠ []

instance (line : CString) : Decidable (LineOk line) :=
  decidable_of_iff ((10 : UInt8) ∉ line ∧ line.length < BUFFER_SIZE ∧ firstWord line ≠ [])
    ⟨fun h => ⟨h.1, h.2.1, h.2.2⟩, fun h => ⟨h.newline, h.length, h.word⟩⟩

/-- The buffers of a line: a first one with all of it, and perhaps its newline. -/
theorem LineOk.buffs {line : CString} (h : LineOk line) :
    ∃ t, (t = [] ∨ t = [10]) ∧
      (fgetsLoop (BUFFER_SIZE - 1) [] (line ++ [10]) = [line ++ t] ∨
        fgetsLoop (BUFFER_SIZE - 1) [] (line ++ [10]) = [line ++ t, [10]]) := by
  have hne : line ≠ [] := by
    rintro rfl
    exact h.word rfl
  rcases fgetsLoop_fits h.newline hne (Nat.le_pred_of_lt h.length) with hall | hrest
  · exact ⟨[10], Or.inr rfl, Or.inl hall⟩
  · refine ⟨[], Or.inl rfl, Or.inr ?_⟩
    rw [List.append_nil]
    exact hrest

theorem isSpace_of_tail {t : CString} (h : t = [] ∨ t = [10]) : ∀ b ∈ t, isSpace b = true := by
  rcases h with rfl | rfl
  · simp
  · exact List.forall_mem_singleton.mpr rfl

theorem readWord_newline (width : Option ℕ) (old : CString) : readWord width old [10] = old := by
  rw [readWord_eq]
  cases width with
  | none => rfl
  | some n => exact if_pos List.take_nil

/-! ## The first loop -/

/-- The word found does not fit `wireless`, is the interface, or is passed over. -/
theorem findWireless_line {line : CString} (h : LineOk line) (old : CString)
    (buffs : List CString) :
    findWireless old (fgetsLoop (BUFFER_SIZE - 1) [] (line ++ [10]) ++ buffs) =
      if (firstWord line).length + 1 > 10 then none
      else if strncmpEq 3 (firstWord line) (ascii "eth") then some (some (firstWord line))
      else findWireless (firstWord line) buffs := by
  obtain ⟨t, ht, hbuffs⟩ := h.buffs
  have hword : readWord none old (line ++ t) = firstWord line := by
    rw [readWord_eq, firstWord_append h.word (isSpace_of_tail ht)]
    exact if_neg h.word
  rcases hbuffs with hone | htwo
  · rw [hone, List.singleton_append, findWireless, hword]
  · rw [htwo, List.cons_append, List.singleton_append, findWireless, hword]
    by_cases hlong : (firstWord line).length + 1 > 10
    · rw [if_pos hlong, if_pos hlong]
    · rw [if_neg hlong, if_neg hlong]
      by_cases heth : strncmpEq 3 (firstWord line) (ascii "eth") = true
      · rw [if_pos heth, if_pos heth]
      · -- the newline is read as no word at all
        rw [if_neg heth, if_neg heth, findWireless, readWord_newline, if_neg hlong, if_neg heth]

/-! ## The second loop -/

/-- The two numbers that the format keeps. -/
def countersAt (text : CString) : u64 × u64 :=
  let v := scanf ((List.replicate 9 true).map .int ++ [.int true]) text
  (toUlong (intAt v 0), toUlong (intAt v 8))

/-- A line matches if its first word begins with the name of the interface. -/
theorem findCounters_line {line : CString} (h : LineOk line) (name old : CString)
    (buffs : List CString) :
    ∃ t old', (t = [] ∨ t = [10]) ∧ findCounters (name ++ [58]) old
      (fgetsLoop (BUFFER_SIZE - 1) [] (line ++ [10]) ++ buffs) =
        if name.isPrefixOf (firstWord line) then
          some (countersAt ((line ++ t).drop
            (name.length + 1 + ((line ++ t).takeWhile (· == 32)).length)))
        else findCounters (name ++ [58]) old' buffs := by
  obtain ⟨t, ht, hbuffs⟩ := h.buffs
  have hne : (firstWord line).take (name.length + 1) ≠ [] := by
    intro hnil
    rw [List.take_eq_nil_iff] at hnil
    rcases hnil with hzero | hnil
    · cases hzero
    · exact h.word hnil
  have hword : readWord (some (name ++ [58]).length) old (line ++ t) =
      (firstWord line).take (name.length + 1) := by
    rw [readWord_eq, firstWord_append h.word (isSpace_of_tail ht), List.length_append]
    exact if_neg hne
  have hmatch : strncmpEq ((name ++ [58]).length - 1) ((firstWord line).take (name.length + 1))
      (name ++ [58]) = name.isPrefixOf (firstWord line) := by
    rw [Bool.eq_iff_iff, List.isPrefixOf_iff_prefix, List.prefix_iff_eq_take, strncmpEq,
      beq_iff_eq, List.length_append, List.length_singleton, Nat.add_sub_cancel, List.take_take,
      Nat.min_eq_left (Nat.le_succ _), List.take_left, eq_comm]
  have hformat : format "%llu%u%u%u%u%u%u%u%llu%u" =
      (List.replicate 9 true).map .int ++ [.int true] := by decide +kernel
  refine ⟨t, (firstWord line).take (name.length + 1), ht, ?_⟩
  by_cases hpre : name.isPrefixOf (firstWord line) = true
  · rw [if_pos hpre]
    rcases hbuffs with hone | htwo
    · rw [hone, List.singleton_append, findCounters, hword, hmatch, if_pos hpre, hformat,
        List.length_append, List.length_singleton]
      rfl
    · rw [htwo, List.cons_append, findCounters, hword, hmatch, if_pos hpre, hformat,
        List.length_append, List.length_singleton]
      rfl
  · rw [if_neg hpre]
    rcases hbuffs with hone | htwo
    · rw [hone, List.singleton_append, findCounters, hword, hmatch, if_neg hpre]
    · rw [htwo, List.cons_append, List.singleton_append, findCounters, hword, hmatch, if_neg hpre,
        findCounters, readWord_newline, hmatch, if_neg hpre]

/-! ## The files -/

/-- The name of an interface. -/
abbrev IfName :=
  { n : CString // 0 < n.length ∧ n.length ≤ 15 ∧ ∀ b ∈ n, isSpace b = false ∧ b ≠ 58 ∧ b ≠ 0 }

/-- A line above the table of one of the two files. -/
abbrev Heading :=
  { line : CString // LineOk line ∧ (firstWord line).length < 10 ∧
    strncmpEq 3 (firstWord line) (ascii "eth") = false }

/-- A line of `/proc/net/wireless`. -/
structure WirelessLine where
  pad : ℕ
  name : IfName
  rest : CString

def WirelessLine.text (l : WirelessLine) : CString :=
  List.replicate l.pad 32 ++ l.name.val ++ 58 :: 32 :: l.rest

abbrev WirelessIface :=
  { l : WirelessLine // (10 : UInt8) ∉ l.rest ∧ l.text.length < BUFFER_SIZE }

/-- A line of `/proc/net/dev`: spaces, the name, and the numbers with spaces before all
but the first. `received` are the seven between the two that count. -/
structure DevLine where
  pad : ℕ
  name : IfName
  gap : ℕ
  rcv : u64
  received : { l : List (ℕ × ℕ) // l.length = 7 }
  sndPad : ℕ
  snd : u64
  transmitted : List (ℕ × ℕ)

def DevLine.numbers (l : DevLine) : CString :=
  List.replicate l.gap 32 ++ (decimal l.rcv.toNat ++
    paddedFields ((l.received.val ++ (l.sndPad, l.snd.toNat) :: l.transmitted).map
      fun z => (z.1, (z.2 : Int))))

def DevLine.text (l : DevLine) : CString :=
  List.replicate l.pad 32 ++ l.name.val ++ 58 :: l.numbers

abbrev DevIface := { l : DevLine // l.text.length < BUFFER_SIZE }

/-- The name begins with `eth`. -/
def IfName.Eth (n : IfName) : Prop := (ascii "eth").isPrefixOf n.val = true

instance (n : IfName) : Decidable n.Eth := inferInstanceAs (Decidable (_ = true))

/-- A file `/proc/net/wireless` with an interface whose name begins with `eth`; `first`
is the first of them. -/
structure WirelessFile where
  headings : List Heading
  before : List { w : WirelessIface // ¬ w.val.name.Eth }
  first : { w : WirelessIface // w.val.name.Eth }
  after : List WirelessIface

def WirelessFile.lines (wl : WirelessFile) : List CString :=
  wl.headings.map Subtype.val ++ wl.before.map (fun w => w.val.val.text) ++
    wl.first.val.val.text :: wl.after.map fun w => w.val.text

def WirelessFile.text (wl : WirelessFile) : CString := wl.lines.flatMap (· ++ [10])

/-- A file `/proc/net/dev`; names are distinct. -/
structure DevFile where
  headings : List Heading
  ifaces : List DevIface
  distinct : (ifaces.map fun l => l.val.name).Nodup

def DevFile.lines (dev : DevFile) : List CString :=
  dev.headings.map Subtype.val ++ dev.ifaces.map fun l => l.val.text

def DevFile.text (dev : DevFile) : CString := dev.lines.flatMap (· ++ [10])

/-! ## Their lines -/

theorem newline_notMem_decimal (n : ℕ) : (10 : UInt8) ∉ decimal n := by
  intro h
  exact absurd (isDigit_of_mem_decimal n 10 h) (by decide)

theorem newline_notMem_paddedFields (zs : List (ℕ × ℕ)) :
    (10 : UInt8) ∉ paddedFields (zs.map fun z => (z.1, (z.2 : Int))) := by
  intro h
  rw [paddedFields, List.mem_flatMap] at h
  rcases h with ⟨p, hp, hmem⟩
  obtain ⟨z, -, rfl⟩ := List.mem_map.mp hp
  rw [List.mem_cons, List.mem_append] at hmem
  rcases hmem with h | h | h
  · exact absurd h (by decide)
  · exact absurd (List.eq_of_mem_replicate h) (by decide)
  · rw [integer, if_neg (by omega)] at h
    exact newline_notMem_decimal _ h

theorem IfName.ne_nil (n : IfName) : n.val ≠ [] := List.length_pos_iff.mp n.property.1

theorem IfName.isSpace_eq_false (n : IfName) {b : UInt8} (hb : b ∈ n.val) : isSpace b = false :=
  (n.property.2.2 b hb).1

theorem IfName.colon_notMem (n : IfName) : (58 : UInt8) ∉ n.val := fun h =>
  (n.property.2.2 58 h).2.1 rfl

theorem IfName.newline_notMem (n : IfName) : (10 : UInt8) ∉ n.val := fun h =>
  absurd (n.isSpace_eq_false h) (by decide)

theorem firstWord_wireless (l : WirelessLine) : firstWord l.text = l.name.val ++ [58] := by
  have htext : l.text = List.replicate l.pad 32 ++ (l.name.val ++ [58]) ++ 32 :: l.rest := by
    simp [WirelessLine.text]
  rw [htext]
  apply firstWord_span isSpace_of_mem_spaces (by simp)
  · intro b hb
    rcases List.mem_append.mp hb with hb | hb
    · exact l.name.isSpace_eq_false hb
    · rw [List.mem_singleton.mp hb]
      decide
  · intro b hb
    cases hb
    decide

theorem lineOk_wireless (w : WirelessIface) : LineOk w.val.text where
  newline := by
    rcases w with ⟨l, hrest, -⟩
    intro h
    rw [WirelessLine.text, List.mem_append, List.mem_append, List.mem_cons, List.mem_cons] at h
    rcases h with (h | h) | h | h | h
    · exact absurd (List.eq_of_mem_replicate h) (by decide)
    · exact l.name.newline_notMem h
    · exact absurd h (by decide)
    · exact absurd h (by decide)
    · exact hrest h
  length := w.property.2
  word := by
    rw [firstWord_wireless]
    simp

/-- The first word goes on after the colon if no space follows it. -/
theorem firstWord_dev (l : DevLine) : ∃ x, firstWord l.text = l.name.val ++ 58 :: x := by
  have hskip : skipBlank l.text = l.name.val ++ 58 :: l.numbers := by
    rw [DevLine.text, List.append_assoc]
    exact skipBlank_spaces _ (endsSpan_append l.name.ne_nil (fun b => l.name.isSpace_eq_false) _)
  refine ⟨l.numbers.takeWhile fun b => !isSpace b, ?_⟩
  rw [firstWord, hskip, List.takeWhile_append_of_pos fun b hb => by
    simp [l.name.isSpace_eq_false hb]]
  rw [List.takeWhile_cons_of_pos (by decide)]

theorem lineOk_dev (l : DevIface) : LineOk l.val.text where
  newline := by
    rcases l with ⟨l, -⟩
    intro h
    rw [DevLine.text, List.mem_append, List.mem_append, List.mem_cons, DevLine.numbers,
      List.mem_append, List.mem_append] at h
    rcases h with (h | h) | h | h | h | h
    · exact absurd (List.eq_of_mem_replicate h) (by decide)
    · exact l.name.newline_notMem h
    · exact absurd h (by decide)
    · exact absurd (List.eq_of_mem_replicate h) (by decide)
    · exact newline_notMem_decimal _ h
    · exact newline_notMem_paddedFields _ h
  length := l.property
  word := by
    obtain ⟨x, hx⟩ := firstWord_dev l.val
    rw [hx]
    simp

/-- A text without a colon is compared with what stands before the first one. -/
theorem prefix_append_colon {w n : CString} (hw : (58 : UInt8) ∉ w) (x : CString) :
    w <+: n ++ 58 :: x ↔ w <+: n := by
  constructor
  · intro h
    rcases List.prefix_or_prefix_of_prefix h (List.prefix_append n (58 :: x)) with hp | hp
    · exact hp
    · rcases hp with ⟨r, rfl⟩
      cases r with
      | nil => rw [List.append_nil]
      | cons c r =>
          rw [List.prefix_append_right_inj, List.cons_prefix_cons] at h
          rcases h with ⟨rfl, -⟩
          exact absurd (List.mem_append_right _ List.mem_cons_self) hw
  · intro h
    exact h.trans (List.prefix_append _ _)

/-- The comparison is about the names. -/
theorem prefix_firstWord_dev (n : IfName) (l : DevLine) :
    n.val.isPrefixOf (firstWord l.text) = n.val.isPrefixOf l.name.val := by
  obtain ⟨x, hx⟩ := firstWord_dev l
  rw [hx, Bool.eq_iff_iff, List.isPrefixOf_iff_prefix, List.isPrefixOf_iff_prefix,
    prefix_append_colon n.colon_notMem]

theorem strncmpEq_eth (s : CString) :
    strncmpEq 3 s (ascii "eth") = (ascii "eth").isPrefixOf s := by
  have hlen : (ascii "eth").length = 3 := rfl
  rw [Bool.eq_iff_iff, List.isPrefixOf_iff_prefix, List.prefix_iff_eq_take, strncmpEq, beq_iff_eq,
    ← hlen, List.take_length, eq_comm]

theorem strncmpEq_wireless (l : WirelessLine) :
    strncmpEq 3 (firstWord l.text) (ascii "eth") = true ↔ l.name.Eth := by
  rw [firstWord_wireless, strncmpEq_eth, IfName.Eth, List.isPrefixOf_iff_prefix,
    List.isPrefixOf_iff_prefix, prefix_append_colon (by decide)]

/-! ## The interface found -/

/-- The names that the first loop reads. -/
def WirelessFile.read (wl : WirelessFile) : List IfName :=
  wl.before.map (fun w => w.val.val.name) ++ [wl.first.val.val.name]

/-- The interface looked for. -/
def WirelessFile.iface (wl : WirelessFile) : IfName := wl.first.val.val.name

/-- Lines whose first word fits and does not begin with `eth` are passed over. -/
theorem findWireless_headings (buffs : List CString) : ∀ (hs : List Heading) (old : CString),
    ∃ old', findWireless old
      ((hs.map Subtype.val).flatMap (fun line => fgetsLoop (BUFFER_SIZE - 1) [] (line ++ [10])) ++
        buffs) = findWireless old' buffs
  | [], old => ⟨old, rfl⟩
  | h :: hs, old => by
      obtain ⟨hok, hlen, heth⟩ := h.property
      obtain ⟨old', ih⟩ := findWireless_headings buffs hs (firstWord h.val)
      refine ⟨old', ?_⟩
      rw [List.map_cons, List.flatMap_cons, List.append_assoc, findWireless_line hok,
        if_neg (by omega), heth, if_neg Bool.false_ne_true]
      exact ih

/-- The first loop ends at the first name with `eth`, or at a name that does not fit. -/
theorem findWireless_ifaces (first : { w : WirelessIface // w.val.name.Eth })
    (buffs : List CString) :
    ∀ (ws : List { w : WirelessIface // ¬ w.val.name.Eth }) (old : CString),
      findWireless old
        ((ws.map fun w => w.val.val.text).flatMap
            (fun line => fgetsLoop (BUFFER_SIZE - 1) [] (line ++ [10])) ++
          (fgetsLoop (BUFFER_SIZE - 1) [] (first.val.val.text ++ [10]) ++ buffs)) =
        if ∀ n ∈ ws.map (fun w => w.val.val.name) ++ [first.val.val.name], n.val.length ≤ 8 then
          some (some (first.val.val.name.val ++ [58]))
        else none
  | [], old => by
      rw [List.map_nil, List.flatMap_nil, List.nil_append, findWireless_line (lineOk_wireless _),
        if_pos ((strncmpEq_wireless _).mpr first.property), firstWord_wireless, List.length_append,
        List.length_singleton]
      by_cases h : first.val.val.name.val.length ≤ 8
      · rw [if_neg (by omega), if_pos (by simpa using h)]
      · rw [if_pos (by omega), if_neg (by simpa using h)]
  | w :: ws, old => by
      have ih := findWireless_ifaces first buffs ws (firstWord w.val.val.text)
      have hnot : ¬ strncmpEq 3 (firstWord w.val.val.text) (ascii "eth") = true := fun h =>
        w.property ((strncmpEq_wireless _).mp h)
      rw [List.map_cons, List.flatMap_cons, List.append_assoc,
        findWireless_line (lineOk_wireless _), if_neg hnot, ih, firstWord_wireless,
        List.length_append, List.length_singleton]
      by_cases h : w.val.val.name.val.length ≤ 8
      · rw [if_neg (by omega)]
        refine if_congr ?_ rfl rfl
        rw [List.map_cons, List.cons_append, List.forall_mem_cons]
        exact (and_iff_right h).symm
      · rw [if_pos (by omega), if_neg]
        intro hall
        exact h (hall _ (by simp))

theorem findWireless_text (wl : WirelessFile) (old : CString) :
    findWireless old (fgetsLoop (BUFFER_SIZE - 1) [] wl.text) =
      if ∀ n ∈ wl.read, n.val.length ≤ 8 then some (some (wl.iface.val ++ [58])) else none := by
  rw [WirelessFile.text, fgetsLoop_lines, WirelessFile.lines, List.flatMap_append,
    List.flatMap_append, List.flatMap_cons, List.append_assoc]
  obtain ⟨old', hold⟩ := findWireless_headings _ wl.headings old
  rw [hold, findWireless_ifaces]
  rfl

/-! ## Its counters -/

/-- The number found in what is left of a name, or the zero stored before. -/
def numberIn (s : CString) : u64 :=
  match scanInt s with
  | none => 0
  | some (z, _) => toUlong z

/-- What is read of a line that matches: the numbers of the interface that is looked
for, or what the rest of a longer name looks like as a number. -/
def DevLine.countersFor (n : IfName) (l : DevLine) : u64 × u64 :=
  if l.name = n then (l.rcv, l.snd) else (numberIn (l.name.val.drop (n.val.length + 1)), 0)

theorem countersAt_numbers (l : DevLine) {t : CString} (ht : t = [] ∨ t = [10]) :
    countersAt (l.numbers ++ t) = (l.rcv, l.snd) := by
  have hspan : EndsSpan isDigit t := by
    rcases ht with rfl | rfl
    · simp [EndsSpan]
    · exact endsSpan_cons _ (by decide)
  set zs := (l.received.val ++ [(l.sndPad, l.snd.toNat)]).map fun z => (z.1, (z.2 : Int)) with hzs
  set s := paddedFields (l.transmitted.map fun z => (z.1, (z.2 : Int))) ++ t with hs
  have hends : EndsSpan isDigit s := endsSpan_isDigit_paddedFields hspan _
  have htext : l.numbers ++ t =
      List.replicate l.gap 32 ++ (decimal l.rcv.toNat ++ (paddedFields zs ++ s)) := by
    rw [DevLine.numbers, hzs, hs, ← List.append_assoc (paddedFields _), ← paddedFields_append,
      ← List.map_append]
    simp
  have hlen : zs.length = 8 := by simp [hzs, l.received.property]
  have hfirst : scanInt (l.numbers ++ t) = some ((l.rcv.toNat : Int), paddedFields zs ++ s) := by
    rw [htext, scanInt_spaces, scanInt_digits (decimal_ne_nil _) (isDigit_of_mem_decimal _)
      (endsSpan_isDigit_paddedFields hends _), digitsValue_decimal]
  have hscan : scanf ((List.replicate 9 true).map .int ++ [.int true]) (l.numbers ++ t) =
      .int l.rcv.toNat :: (zs.map (fun z => .int z.2) ++ scanf [.int true] s) := by
    have hrest := scanf_paddedFields_all hends [.int true] zs
    rw [hlen] at hrest
    rw [List.replicate_succ, List.map_cons, List.cons_append, scanf_int_some _ hfirst, if_pos rfl,
      hrest]
  have hsnd : intAt (.int l.rcv.toNat :: (zs.map (fun z => .int z.2) ++ scanf [.int true] s)) 8 =
      l.snd.toNat := by
    have hat : zs[7]? = some (l.sndPad, (l.snd.toNat : Int)) := by
      simp [hzs, l.received.property]
    rw [intAt, List.getElem?_cons_succ, List.getElem?_append_left (by simp [hlen]),
      List.getElem?_map, hat]
    rfl
  unfold countersAt
  dsimp only
  rw [hscan, hsnd, toUlong_u64]
  show (toUlong (l.rcv.toNat : Int), _) = _
  rw [toUlong_u64]

theorem countersAt_name {x : CString} (hx : x.length ≤ 14) (s : CString) :
    countersAt (x ++ 58 :: s) = (numberIn x, 0) := by
  have hstop : isStop 58 = true := by decide
  set v := scanf ((List.replicate 9 true).map .int ++ [.int true]) (x ++ 58 :: s) with hv
  have hfirst : toUlong (intAt v 0) = numberIn x := by
    have hscan := scanInt_append_cons hstop x s
    rw [numberIn, hv, List.replicate_succ, List.map_cons, List.cons_append]
    cases h : scanInt x with
    | none =>
        rw [h, Option.map_none] at hscan
        rw [scanf_int_none _ hscan]
        rfl
    | some q =>
        rw [h, Option.map_some] at hscan
        rw [scanf_int_some _ hscan]
        rfl
  have hsnd : intAt v 8 = 0 := by
    obtain ⟨k, hk, hlen⟩ := scanf_short_of_digit (p := x) hstop s [.int true]
      (List.replicate 9 true) (by rw [List.length_replicate]; omega)
    rw [List.length_replicate] at hk
    apply intAt_of_length_le
    rw [hv, hlen]
    calc ((List.replicate 9 true).take k).count true
        ≤ ((List.replicate 9 true).take k).length := List.count_le_length
      _ ≤ k := List.length_take_le _ _
      _ ≤ 8 := by omega
  show (toUlong (intAt v 0), toUlong (intAt v 8)) = _
  rw [hfirst, hsnd]
  rfl

/-- What the second loop reads of a line whose name begins with the name it looks for. -/
theorem countersAt_dev {n : IfName} {l : DevLine} (h : n.val.isPrefixOf l.name.val = true)
    {t : CString} (ht : t = [] ∨ t = [10]) :
    countersAt ((l.text ++ t).drop
      (n.val.length + 1 + ((l.text ++ t).takeWhile (· == 32)).length)) = l.countersFor n := by
  obtain ⟨r, hr⟩ := List.isPrefixOf_iff_prefix.mp h
  have htext : l.text ++ t =
      List.replicate l.pad 32 ++ (n.val ++ (r ++ 58 :: (l.numbers ++ t))) := by
    rw [DevLine.text, ← hr]
    simp
  have hspaces : ((l.text ++ t).takeWhile (· == 32)).length = l.pad := by
    have hspaces : ∀ b ∈ List.replicate l.pad (32 : UInt8), (b == 32) = true := by
      intro b hb
      rw [List.eq_of_mem_replicate hb]
      rfl
    have hname : ∀ b ∈ n.val, (b == 32) = false := by
      intro b hb
      rw [beq_eq_false_iff_ne]
      rintro rfl
      exact absurd (n.isSpace_eq_false hb) (by decide)
    rw [htext, takeWhile_append_span hspaces (endsSpan_append n.ne_nil hname _),
      List.length_replicate]
  have hdrop : (l.text ++ t).drop (n.val.length + 1 + l.pad) =
      (r ++ 58 :: (l.numbers ++ t)).drop 1 := by
    rw [htext, Nat.add_comm, ← List.drop_drop, List.drop_left' (List.length_replicate),
      ← List.drop_drop, List.drop_left]
  rw [hspaces, hdrop, DevLine.countersFor]
  cases r with
  | nil =>
      have hname : l.name = n := Subtype.ext (by rw [← hr, List.append_nil])
      rw [if_pos hname]
      exact countersAt_numbers l ht
  | cons c x =>
      have hne : l.name ≠ n := by
        intro heq
        rw [heq] at hr
        simpa using congrArg List.length hr
      have hlen : x.length ≤ 14 := by
        have hle := l.name.property.2.1
        rw [← hr, List.length_append, List.length_cons] at hle
        omega
      have hx : l.name.val.drop (n.val.length + 1) = x := by
        rw [← hr, ← List.drop_drop, List.drop_left]
        rfl
      rw [if_neg hne, hx]
      exact countersAt_name hlen _

/-- No heading begins with a name that begins with `eth`. -/
theorem heading_not_begins (h : Heading) {n : IfName} (heth : n.Eth) :
    ¬ n.val.isPrefixOf (firstWord h.val) = true := by
  intro hpre
  have hword : (ascii "eth").isPrefixOf (firstWord h.val) = true :=
    List.isPrefixOf_iff_prefix.mpr
      ((List.isPrefixOf_iff_prefix.mp heth).trans (List.isPrefixOf_iff_prefix.mp hpre))
  rw [← strncmpEq_eth, h.property.2.2] at hword
  cases hword

theorem findCounters_headings {n : IfName} (heth : n.Eth) (buffs : List CString) :
    ∀ (hs : List Heading) (old : CString), ∃ old', findCounters (n.val ++ [58]) old
      ((hs.map Subtype.val).flatMap (fun line => fgetsLoop (BUFFER_SIZE - 1) [] (line ++ [10])) ++
        buffs) = findCounters (n.val ++ [58]) old' buffs
  | [], old => ⟨old, rfl⟩
  | h :: hs, old => by
      obtain ⟨t, old₁, -, hline⟩ := findCounters_line h.property.1 n.val old
        ((hs.map Subtype.val).flatMap (fun line => fgetsLoop (BUFFER_SIZE - 1) [] (line ++ [10])) ++
          buffs)
      obtain ⟨old', ih⟩ := findCounters_headings heth buffs hs old₁
      refine ⟨old', ?_⟩
      rw [List.map_cons, List.flatMap_cons, List.append_assoc, hline,
        if_neg (heading_not_begins h heth)]
      exact ih

/-- The second loop ends at the first name that begins with the one looked for. -/
theorem findCounters_ifaces (n : IfName) : ∀ (ls : List DevIface) (old : CString),
    findCounters (n.val ++ [58]) old
      ((ls.map fun l => l.val.text).flatMap
        fun line => fgetsLoop (BUFFER_SIZE - 1) [] (line ++ [10])) =
      (ls.find? fun l => n.val.isPrefixOf l.val.name.val).map fun l => l.val.countersFor n
  | [], _ => rfl
  | l :: ls, old => by
      obtain ⟨t, old', ht, hline⟩ := findCounters_line (lineOk_dev l) n.val old
        ((ls.map fun l => l.val.text).flatMap
          fun line => fgetsLoop (BUFFER_SIZE - 1) [] (line ++ [10]))
      rw [List.map_cons, List.flatMap_cons, hline, prefix_firstWord_dev]
      by_cases h : n.val.isPrefixOf l.val.name.val = true
      · rw [if_pos h, countersAt_dev h ht, List.find?_cons, h]
        rfl
      · rw [if_neg h, findCounters_ifaces n ls old', List.find?_cons, Bool.eq_false_iff.mpr h]

/-- The interface whose line the second loop stops at. -/
def DevFile.found (dev : DevFile) (n : IfName) : Option DevIface :=
  dev.ifaces.find? fun l => n.val.isPrefixOf l.val.name.val

theorem findCounters_text (dev : DevFile) {n : IfName} (heth : n.Eth) (old : CString) :
    findCounters (n.val ++ [58]) old (fgetsLoop (BUFFER_SIZE - 1) [] dev.text) =
      (dev.found n).map fun l => l.val.countersFor n := by
  rw [DevFile.text, fgetsLoop_lines, DevFile.lines, List.flatMap_append]
  obtain ⟨old', hold⟩ := findCounters_headings heth
    ((dev.ifaces.map fun l => l.val.text).flatMap
      fun line => fgetsLoop (BUFFER_SIZE - 1) [] (line ++ [10])) dev.headings old
  rw [hold, findCounters_ifaces]
  rfl

/-- **What is read of the two files.** -/
theorem readSysnet_text (wl : WirelessFile) (dev : DevFile) (wireless name : CString) :
    readSysnet wireless name (some wl.text) (some dev.text) =
      if ∀ n ∈ wl.read, n.val.length ≤ 8 then
        some ((dev.found wl.iface).map fun l => l.val.countersFor wl.iface)
      else none := by
  unfold readSysnet
  dsimp only
  rw [findWireless_text]
  by_cases h : ∀ n ∈ wl.read, n.val.length ≤ 8
  · rw [if_pos h, if_pos h]
    exact congrArg some (findCounters_text dev wl.first.property name)
  · rw [if_neg h, if_neg h]

/-! ## Its exactness -/

/-- The counters of an interface are those stored, whatever the buffers held. -/
def NetExact (wl : WirelessFile) (dev : DevFile) (target : DevIface) (wireless name : CString)
    (sy : SysInfo) : Prop :=
  ∃ net, readSysnet wireless name (some wl.text) (some dev.text) = some net ∧
    (statSysnetStats net sy).totalnetrcv = target.val.rcv ∧
    (statSysnetStats net sy).totalnetsnd = target.val.snd

theorem exists_found {dev : DevFile} {target : DevIface} (h : target ∈ dev.ifaces) :
    ∃ l ∈ dev.ifaces, dev.found target.val.name = some l := by
  have hsome : (dev.found target.val.name).isSome = true := by
    rw [DevFile.found, List.find?_isSome]
    exact ⟨target, h, List.isPrefixOf_iff_prefix.mpr (List.prefix_refl _)⟩
  obtain ⟨l, hl⟩ := Option.isSome_iff_exists.mp hsome
  exact ⟨l, List.mem_of_find?_eq_some hl, hl⟩

/-- **When the counters are those of the interface.** The names up to its own fit ten
bytes with colon and terminator; and no interface before it begins with its name, unless
its counters happen to be the number in that one's name and zero. -/
theorem net_exact_iff {wl : WirelessFile} {dev : DevFile} {target : DevIface}
    (hmem : target ∈ dev.ifaces) (hname : target.val.name = wl.iface) (wireless name : CString)
    (sy : SysInfo) : NetExact wl dev target wireless name sy ↔
      (∀ n ∈ wl.read, n.val.length ≤ 8) ∧
      ∀ l, dev.found wl.iface = some l → l = target ∨
        (target.val.rcv = numberIn (l.val.name.val.drop (wl.iface.val.length + 1)) ∧
          target.val.snd = 0) := by
  obtain ⟨l, hl, hfound⟩ := exists_found hmem
  rw [hname] at hfound
  have hself : l.val.name = wl.iface ↔ l = target := by
    rw [← hname]
    constructor
    · intro h
      exact List.inj_on_of_nodup_map dev.distinct hl hmem h
    · rintro rfl
      rfl
  rw [NetExact, readSysnet_text, hfound, Option.map_some, DevLine.countersFor]
  constructor
  · rintro ⟨net, hnet, hrcv, hsnd⟩
    by_cases hfit : ∀ n ∈ wl.read, n.val.length ≤ 8
    · refine ⟨hfit, ?_⟩
      rintro m hm
      cases hm
      rw [if_pos hfit] at hnet
      cases hnet
      by_cases h : l.val.name = wl.iface
      · exact Or.inl (hself.mp h)
      · rw [if_neg h] at hrcv hsnd
        exact Or.inr ⟨hrcv.symm, hsnd.symm⟩
    · rw [if_neg hfit] at hnet
      cases hnet
  · rintro ⟨hfit, hfirst⟩
    refine ⟨_, if_pos hfit, ?_⟩
    by_cases h : l.val.name = wl.iface
    · rw [if_pos h, ← hself.mp h]
      exact ⟨rfl, rfl⟩
    · rw [if_neg h]
      rcases hfirst l rfl with heq | ⟨hrcv, hsnd⟩
      · exact absurd (hself.mpr heq) h
      · exact ⟨hrcv.symm, hsnd.symm⟩

/-! ## A name that begins another -/

def eth1 : IfName := ⟨ascii "eth1", by decide +kernel⟩

def eth10 : IfName := ⟨ascii "eth10", by decide +kernel⟩

/-- `/proc/net/wireless` with `eth1`. -/
def wirelessFile : WirelessFile where
  headings := [⟨ascii "Inter-| sta-|   Quality        |   Discarded packets", by decide +kernel⟩,
    ⟨ascii " face | tus | link level noise |  nwid  crypt   frag  retry   misc", by decide +kernel⟩]
  before := []
  first := ⟨⟨⟨2, eth1, ascii "0000   58.  -52.  -256        0      0      0      0      0"⟩,
    by decide +kernel⟩, by decide⟩
  after := []

def devHeadings : List Heading :=
  [⟨ascii "Inter-|   Receive                              |  Transmit", by decide +kernel⟩,
    ⟨ascii " face |bytes    packets errs drop fifo frame compressed multicast", by decide +kernel⟩]

def devLine (n : IfName) (rcv snd : u64) : DevLine where
  pad := 2
  name := n
  gap := 0
  rcv := rcv
  received := ⟨List.replicate 7 (4, 0), rfl⟩
  sndPad := 2
  snd := snd
  transmitted := List.replicate 7 (4, 0)

def eth1Line : DevIface := ⟨devLine eth1 5000 700, by decide +kernel⟩

def eth10Line : DevIface := ⟨devLine eth10 90 20, by decide +kernel⟩

/-- The wireless interface stands before the longer name. -/
theorem net_exact_iff_first :
    NetExact wirelessFile ⟨devHeadings, [eth1Line, eth10Line], by decide +kernel⟩ eth1Line [] []
      {} := by
  refine (net_exact_iff (by simp) rfl [] [] {}).mpr ⟨?_, ?_⟩
  · decide
  · intro l hl
    cases hl
    exact Or.inl rfl

/-- It stands after the longer name: nothing is counted. -/
theorem longer_name_read :
    ¬ NetExact wirelessFile ⟨devHeadings, [eth10Line, eth1Line], by decide +kernel⟩ eth1Line [] []
      {} := by
  rintro ⟨net, hnet, hrcv, -⟩
  rw [readSysnet_text, if_pos (by decide)] at hnet
  cases hnet
  exact absurd hrcv (by decide +kernel)

end PTop
