import PTop.Metatheory.Runs
import PTop.Model.Files

/-!
# The sums over the memory mappings

`read_smaps` adds up the amounts of the lines that start with the name of a field.
A line that fits the buffer arrives whole. The first line of a mapping ends in a
path of any length, so it may arrive in pieces, and the pieces after the first are
compared with the names of the fields like lines of their own.
-/

namespace PTop

open Framework

/-! ## One field at a time -/

/-- The amount read from a buffer about the field: the number after the key, or the
amount read before. -/
def amountRead (k : SmapsField) (last : u32) (buff : CString) : u32 :=
  match scanInt (buff.drop k.key.length) with
  | none => last
  | some (z, _) => toInt z

@[simp] theorem get_set_self (s : StatSmaps) (v : u32) (k : SmapsField) :
    (s.set v k).get k = v := by
  cases k <;> rfl

theorem get_set_of_ne (s : StatSmaps) (v : u32) {k k' : SmapsField} (h : k ≠ k') :
    (s.set v k).get k' = s.get k' := by
  cases k <;> cases k' <;> first | rfl | exact absurd rfl h

/-- No key is the beginning of another. -/
theorem key_injective {k k' : SmapsField} {buff : CString} (h : k.key.isPrefixOf buff = true)
    (h' : k'.key.isPrefixOf buff = true) : k = k' := by
  have hprefix := List.prefix_or_prefix_of_prefix (List.isPrefixOf_iff_prefix.mp h)
    (List.isPrefixOf_iff_prefix.mp h')
  have hall : ∀ k ∈ SmapsField.all, ∀ k' ∈ SmapsField.all,
      (k.key.isPrefixOf k'.key = true ∨ k'.key.isPrefixOf k.key = true) → k = k' := by
    decide +kernel
  have hmem : ∀ k : SmapsField, k ∈ SmapsField.all := by
    intro k
    cases k <;> decide
  apply hall k (hmem k) k' (hmem k')
  rw [List.isPrefixOf_iff_prefix, List.isPrefixOf_iff_prefix]
  exact hprefix

/-- The branch of a field works on that field alone. -/
theorem addField_get (k k' : SmapsField) (buff : CString) (s : SmapsState) :
    ((addField k buff s).stats.get k', (addField k buff s).stmaps.get k') =
      if k = k' then
        (s.stats.get k + amountRead k (s.stmaps.get k) buff, amountRead k (s.stmaps.get k) buff)
      else (s.stats.get k', s.stmaps.get k') := by
  unfold addField amountRead
  by_cases h : k = k'
  · subst h
    rw [if_pos rfl]
    cases scanInt (buff.drop k.key.length) <;> simp
  · rw [if_neg h]
    cases scanInt (buff.drop k.key.length) <;> simp [get_set_of_ne _ _ h]

/-- One pass, seen from one field. -/
theorem readSmapsBuff_get (k : SmapsField) (s : SmapsState) (buff : CString) :
    ((readSmapsBuff s buff).stats.get k, (readSmapsBuff s buff).stmaps.get k) =
      if k.key.isPrefixOf buff = true then
        (s.stats.get k + amountRead k (s.stmaps.get k) buff, amountRead k (s.stmaps.get k) buff)
      else (s.stats.get k, s.stmaps.get k) := by
  unfold readSmapsBuff
  cases hf : SmapsField.all.find? fun k => k.key.isPrefixOf buff with
  | none =>
      have hnone := List.find?_eq_none.mp hf k (by cases k <;> decide)
      rw [if_neg hnone]
  | some k' =>
      have hk' : k'.key.isPrefixOf buff = true := by simpa using List.find?_some hf
      dsimp only
      rw [addField_get]
      by_cases h : k.key.isPrefixOf buff = true
      · obtain rfl := key_injective h hk'
        rw [if_pos rfl, if_pos h]
      · have hne : k' ≠ k := by
          rintro rfl
          exact h hk'
        rw [if_neg hne, if_neg h]

/-! ## The amounts read from lines and from pieces of lines -/

/-- A buffer, and whether it is a piece of a line after the first one. -/
abbrev Buff := Bool × CString

/-- What the buffers with the given mark add to a field, from what `stmaps` holds. -/
def amountIn (mark : Bool) (k : SmapsField) : u32 → List Buff → u32
  | _, [] => 0#32
  | last, (piece, buff) :: rest =>
      if k.key.isPrefixOf buff = true then
        let v := amountRead k last buff
        (if piece = mark then v else 0#32) + amountIn mark k v rest
      else amountIn mark k last rest

theorem amountIn_cons (mark piece : Bool) (k : SmapsField) (last : u32) (buff : CString)
    (rest : List Buff) : amountIn mark k last ((piece, buff) :: rest) =
      if k.key.isPrefixOf buff = true then
        (if piece = mark then amountRead k last buff else 0#32) +
          amountIn mark k (amountRead k last buff) rest
      else amountIn mark k last rest := by
  rw [amountIn]

/-- **A field of the result** is what the lines add, and what the pieces add. -/
theorem foldl_readSmapsBuff_get (k : SmapsField) : ∀ (buffs : List Buff) (s : SmapsState),
    ((buffs.map Prod.snd).foldl readSmapsBuff s).stats.get k =
      s.stats.get k + amountIn false k (s.stmaps.get k) buffs +
        amountIn true k (s.stmaps.get k) buffs
  | [], s => by simp [amountIn]
  | (piece, buff) :: rest, s => by
      have hstep := readSmapsBuff_get k s buff
      have ih := foldl_readSmapsBuff_get k rest (readSmapsBuff s buff)
      rw [List.map_cons, List.foldl_cons, ih, amountIn_cons, amountIn_cons]
      by_cases h : k.key.isPrefixOf buff = true
      · rw [if_pos h] at hstep
        obtain ⟨hstats, hstmaps⟩ := Prod.mk.inj hstep
        rw [hstats, hstmaps, if_pos h, if_pos h]
        cases piece
        · rw [if_pos rfl, if_neg (by decide), BitVec.zero_add, ← BitVec.add_assoc]
        · rw [if_neg (by decide), if_pos rfl, BitVec.zero_add]
          ac_rfl
      · rw [if_neg h] at hstep
        obtain ⟨hstats, hstmaps⟩ := Prod.mk.inj hstep
        rw [hstats, hstmaps, if_neg h, if_neg h]

/-- Pieces add nothing to what the lines add. -/
theorem amountIn_false_pieces (k : SmapsField) (rest : List Buff) :
    ∀ (buffs : List CString) (last : u32), ∃ last',
      amountIn false k last (buffs.map (true, ·) ++ rest) = amountIn false k last' rest
  | [], last => ⟨last, rfl⟩
  | buff :: buffs, last => by
      rw [List.map_cons, List.cons_append, amountIn_cons]
      split
      · obtain ⟨last', h⟩ := amountIn_false_pieces k rest buffs (amountRead k last buff)
        exact ⟨last', by rw [h, if_neg (by decide), BitVec.zero_add]⟩
      · exact amountIn_false_pieces k rest buffs last

/-- Nothing is added where no piece begins with the key. -/
theorem amountIn_true_eq_zero (k : SmapsField) : ∀ (buffs : List Buff) (last : u32),
    (∀ b ∈ buffs, b.1 = true → k.key.isPrefixOf b.2 = false) → amountIn true k last buffs = 0#32
  | [], _, _ => rfl
  | (piece, buff) :: buffs, last, h => by
      have htail := fun b hb => h b (List.mem_cons_of_mem _ hb)
      rw [amountIn_cons]
      cases piece
      · split
        · rw [if_neg (by decide), amountIn_true_eq_zero k buffs _ htail, BitVec.add_zero]
        · exact amountIn_true_eq_zero k buffs last htail
      · rw [if_neg (by rw [h _ List.mem_cons_self rfl]; decide)]
        exact amountIn_true_eq_zero k buffs last htail

/-! ## The file -/

/-- A line of a mapping after the first. -/
inductive BodyLine where
  | field (k : SmapsField) (pad value : ℕ)
  | other (text : CString)

def BodyLine.text : BodyLine → CString
  | .field k pad value => k.key ++ List.replicate pad 32 ++ decimal value ++ ascii " kB"
  | .other text => text

/-- The line fits the buffer, its amount fits its field, and it is about a field only if
it is written so. -/
def BodyLine.Ok (l : BodyLine) : Prop :=
  (10 : UInt8) ∉ l.text ∧ l.text.length + 1 < BUFFER_SIZE ∧
    match l with
    | .field _ _ value => value < 2 ^ 32
    | .other text => ∀ k : SmapsField, k.key.isPrefixOf text = false

/-- A mapping: its first line, which begins with an address, and the lines after it. -/
structure Mapping where
  header : { h : CString // (10 : UInt8) ∉ h ∧ ∃ b ∈ h.head?, b ∈ ascii "0123456789abcdef" }
  body : List { l : BodyLine // l.Ok }

/-- The amount a line gives for a field. -/
def BodyLine.amount (k : SmapsField) : BodyLine → ℕ
  | .field k' _ value => if k' = k then value else 0
  | .other _ => 0

namespace Mapping

variable (m : Mapping)

def lines : List CString := m.header.val :: m.body.map fun l => l.val.text

def amount (k : SmapsField) : ℕ := (m.body.map fun l => l.val.amount k).sum

/-- The buffers of a mapping, those of its first line after the first being pieces. -/
def buffs : List Buff :=
  (match fgetsLoop (BUFFER_SIZE - 1) [] (m.header.val ++ [10]) with
    | [] => []
    | buff :: rest => (false, buff) :: rest.map (true, ·)) ++
  m.body.map fun l => (false, l.val.text ++ [10])

end Mapping

/-- The text of a smaps file. -/
def smapsText (ms : List Mapping) : CString := (ms.flatMap Mapping.lines).flatMap (· ++ [10])

def smapsBuffs (ms : List Mapping) : List Buff := ms.flatMap Mapping.buffs

/-- The sum of a field over all mappings. -/
def smapsTotal (ms : List Mapping) (k : SmapsField) : ℕ := (ms.map fun m => m.amount k).sum

/-- The buffers that `fgets` delivers. -/
theorem fgetsLoop_smapsText (ms : List Mapping) :
    fgetsLoop (BUFFER_SIZE - 1) [] (smapsText ms) = (smapsBuffs ms).map Prod.snd := by
  have hmapping : ∀ m : Mapping,
      (m.lines.flatMap fun line => fgetsLoop (BUFFER_SIZE - 1) [] (line ++ [10])) =
        m.buffs.map Prod.snd := by
    intro m
    obtain ⟨buff, rest, hhead, -⟩ := fgetsLoop_head (BUFFER_SIZE - 1) m.header.val []
    have hbody : ((m.body.map fun l => l.val.text).flatMap fun line =>
        fgetsLoop (BUFFER_SIZE - 1) [] (line ++ [10])) =
        m.body.map fun l => l.val.text ++ [10] := by
      rw [List.flatMap_map]
      refine (List.flatMap_congr fun l _ => ?_).trans List.map_eq_flatMap.symm
      obtain ⟨hline, hlen, -⟩ := l.property
      exact fgetsLoop_short l.val.text [] hline (by simp [BUFFER_SIZE] at hlen ⊢; omega)
    rw [Mapping.lines, List.flatMap_cons, hbody, Mapping.buffs, hhead]
    simp [Function.comp_def]
  rw [smapsText, fgetsLoop_lines, List.flatMap_assoc, smapsBuffs, List.map_flatMap]
  exact List.flatMap_congr fun m _ => hmapping m

/-! ## What the lines add -/

/-- A key in front of a line is in front of it without its newline. -/
theorem key_prefix_of_line {k : SmapsField} {text : CString}
    (h : k.key.isPrefixOf (text ++ [10]) = true) : k.key.isPrefixOf text = true := by
  rw [List.isPrefixOf_iff_prefix] at h ⊢
  rcases List.prefix_concat_iff.mp h with heq | hpre
  · have hnl : (10 : UInt8) ∉ k.key := by cases k <;> decide +kernel
    exact absurd (heq ▸ List.mem_append_right text (List.mem_singleton_self _)) hnl
  · exact hpre

theorem amountRead_field (k : SmapsField) (last : u32) (pad : ℕ) {value : ℕ} (h : value < 2 ^ 32) :
    amountRead k last ((BodyLine.field k pad value).text ++ [10]) = BitVec.ofNat 32 value := by
  have hdrop : ((BodyLine.field k pad value).text ++ [10]).drop k.key.length =
      List.replicate pad 32 ++ (decimal value ++ (ascii " kB" ++ [10])) := by
    rw [BodyLine.text, List.append_assoc, List.append_assoc, List.append_assoc, List.drop_left]
  have hend : EndsSpan isDigit (ascii " kB" ++ [10]) := endsSpan_cons _ (by decide)
  have hscan := scanInt_digits (decimal_ne_nil value) (isDigit_of_mem_decimal value) hend
  rw [digitsValue_decimal] at hscan
  rw [amountRead, hdrop, scanInt_spaces, hscan]
  show toInt (value : Int) = _
  rw [toInt, min_eq_left (by omega), max_eq_right (by omega), BitVec.ofInt_natCast]

/-- One line. -/
theorem amountIn_false_line (k : SmapsField) (l : { l : BodyLine // l.Ok }) (last : u32)
    (rest : List Buff) : ∃ last', amountIn false k last ((false, l.val.text ++ [10]) :: rest) =
      BitVec.ofNat 32 (l.val.amount k) + amountIn false k last' rest := by
  rcases l with ⟨l, hl⟩
  rw [amountIn_cons]
  cases l with
  | other text =>
      have hnot : ¬ k.key.isPrefixOf (text ++ [10]) = true := by
        intro h
        have hno : k.key.isPrefixOf text = false := hl.2.2 k
        rw [key_prefix_of_line h] at hno
        cases hno
      exact ⟨last, by rw [BodyLine.text, if_neg hnot, BodyLine.amount, BitVec.zero_add]⟩
  | field k' pad value =>
      have hkey : k'.key.isPrefixOf ((BodyLine.field k' pad value).text ++ [10]) = true := by
        rw [List.isPrefixOf_iff_prefix, BodyLine.text, List.append_assoc, List.append_assoc,
          List.append_assoc]
        exact List.prefix_append _ _
      by_cases hk : k' = k
      · subst hk
        rw [if_pos hkey, if_pos rfl, amountRead_field k' last pad hl.2.2, BodyLine.amount,
          if_pos rfl]
        exact ⟨_, rfl⟩
      · have hnot : ¬ k.key.isPrefixOf ((BodyLine.field k' pad value).text ++ [10]) = true := by
          intro h
          exact hk (key_injective hkey h)
        exact ⟨last, by rw [if_neg hnot, BodyLine.amount, if_neg hk, BitVec.zero_add]⟩

theorem amountIn_false_body (k : SmapsField) (rest : List Buff) :
    ∀ (body : List { l : BodyLine // l.Ok }) (last : u32), ∃ last',
      amountIn false k last ((body.map fun l => (false, l.val.text ++ [10])) ++ rest) =
        BitVec.ofNat 32 (body.map fun l => l.val.amount k).sum + amountIn false k last' rest
  | [], last => ⟨last, (BitVec.zero_add _).symm⟩
  | l :: body, last => by
      obtain ⟨last₁, h₁⟩ := amountIn_false_line k l last
        ((body.map fun l => (false, l.val.text ++ [10])) ++ rest)
      obtain ⟨last', h'⟩ := amountIn_false_body k rest body last₁
      refine ⟨last', ?_⟩
      rw [List.map_cons, List.cons_append, h₁, h', List.map_cons, List.sum_cons, BitVec.ofNat_add,
        BitVec.add_assoc]

/-- The first line of a mapping adds nothing. -/
theorem amountIn_false_header (k : SmapsField) (m : Mapping) (last : u32) (rest : List Buff) :
    ∃ last', amountIn false k last (m.buffs ++ rest) =
      amountIn false k last' ((m.body.map fun l => (false, l.val.text ++ [10])) ++ rest) := by
  obtain ⟨buff, pieces, hhead, hbyte⟩ := fgetsLoop_head (BUFFER_SIZE - 1) m.header.val []
  have hnot : ¬ k.key.isPrefixOf buff = true := by
    obtain ⟨-, b, hb, hhex⟩ := m.header.property
    have hb' : buff.head? = some b := by
      rw [hbyte, List.nil_append, List.head?_append, Option.mem_def.mp hb, Option.some_or]
    have hfirst : ∀ c ∈ k.key.head?, c ∉ ascii "0123456789abcdef" := by
      cases k <;> decide +kernel
    intro h
    obtain ⟨text, rfl⟩ := List.isPrefixOf_iff_prefix.mp h
    cases hkey : k.key with
    | nil => exact absurd hkey (by cases k <;> decide)
    | cons c key =>
        rw [hkey, List.cons_append, List.head?_cons, Option.some.injEq] at hb'
        exact hfirst c (by rw [hkey]; rfl) (hb' ▸ hhex)
  obtain ⟨last', h⟩ := amountIn_false_pieces k
    ((m.body.map fun l => (false, l.val.text ++ [10])) ++ rest) pieces last
  refine ⟨last', ?_⟩
  rw [Mapping.buffs, hhead, List.cons_append, List.cons_append, amountIn_cons, if_neg hnot,
    List.append_assoc, h]

/-- **The lines add the totals.** -/
theorem amountIn_false_smapsBuffs (k : SmapsField) : ∀ (ms : List Mapping) (last : u32),
    amountIn false k last (smapsBuffs ms) = BitVec.ofNat 32 (smapsTotal ms k)
  | [], _ => rfl
  | m :: ms, last => by
      obtain ⟨last₁, h₁⟩ := amountIn_false_header k m last (smapsBuffs ms)
      obtain ⟨last₂, h₂⟩ := amountIn_false_body k (smapsBuffs ms) m.body last₁
      rw [smapsBuffs, List.flatMap_cons, ← smapsBuffs, h₁, h₂, amountIn_false_smapsBuffs k ms,
        smapsTotal, smapsTotal, List.map_cons, List.sum_cons, BitVec.ofNat_add]
      rfl

/-- **What `read_smaps` returns**: the totals, and what the pieces of first lines add. -/
theorem readSmaps_get (ms : List Mapping) (stmaps : StatSmaps) (k : SmapsField) :
    (readSmaps stmaps (smapsText ms)).get k = BitVec.ofNat 32 (smapsTotal ms k) +
      amountIn true k (stmaps.get k) (smapsBuffs ms) := by
  rw [readSmaps, fgetsLoop_smapsText, foldl_readSmapsBuff_get, amountIn_false_smapsBuffs]
  have hzero : StatSmaps.get {} k = 0#32 := by cases k <;> rfl
  rw [hzero, BitVec.zero_add]

/-! ## When the sums are right -/

/-- The result holds the total of each field, and the memory figure that a sample gets
from it is the sum of the three totals. -/
structure SmapsExact (ms : List Mapping) (stats : StatSmaps) : Prop where
  fields : ∀ k, (stats.get k).toNat = smapsTotal ms k
  memoryUsed : ∀ f pst fd active pst' opened, f.smaps = some stats →
    readProcPidMem f pst fd active = .ok (pst', opened) →
    pst'.mem.memoryUsed.toNat =
      smapsTotal ms .pss + smapsTotal ms .privateClean + smapsTotal ms .privateDirty

theorem readProcPidMem_memoryUsed {f : ProcFiles} {pst pst' : PidStats} {fd : PCFile} {active : Int}
    {opened : PCFile × List FdEvent} {stats : StatSmaps} (hs : f.smaps = some stats)
    (h : readProcPidMem f pst fd active = .ok (pst', opened)) : pst'.mem.memoryUsed =
      (stats.pss + stats.privateClean + stats.privateDirty).setWidth 64 := by
  rw [readProcPidMem, hs] at h
  cases hm : f.meminfo with
  | none =>
      rw [hm] at h
      cases h
  | some active' =>
      rw [hm] at h
      cases h
      rfl

theorem smapsExact_iff_fields {ms : List Mapping} {stats : StatSmaps} : SmapsExact ms stats ↔
    (∀ k, (stats.get k).toNat = smapsTotal ms k) ∧
      smapsTotal ms .pss + smapsTotal ms .privateClean + smapsTotal ms .privateDirty < 2 ^ 32 := by
  have hsum : (∀ k, (stats.get k).toNat = smapsTotal ms k) →
      ((stats.pss + stats.privateClean + stats.privateDirty).setWidth 64).toNat =
        (smapsTotal ms .pss + smapsTotal ms .privateClean + smapsTotal ms .privateDirty) %
          2 ^ 32 := by
    intro h
    rw [← h .pss, ← h .privateClean, ← h .privateDirty, BitVec.toNat_setWidth_of_le (by decide),
      BitVec.toNat_add, BitVec.toNat_add, Nat.mod_add_mod]
    rfl
  constructor
  · rintro ⟨hfields, hmem⟩
    refine ⟨hfields, ?_⟩
    -- a process whose counter cannot be opened answers too
    have h := hmem { plainFiles {} {} with smaps := some stats } {} 1 0 _ _ rfl rfl
    rw [hsum hfields] at h
    have hlt := Nat.mod_lt (smapsTotal ms .pss + smapsTotal ms .privateClean +
      smapsTotal ms .privateDirty) (Nat.two_pow_pos 32)
    omega
  · rintro ⟨hfields, hlt⟩
    refine ⟨hfields, ?_⟩
    intro f pst fd active pst' opened hs h
    rw [readProcPidMem_memoryUsed hs h, hsum hfields, Nat.mod_eq_of_lt hlt]

/-- **The sums of a file are right iff the pieces of its long first lines add nothing**,
and the memory figure if the three sums also fit together. -/
theorem smaps_exact_iff {ms : List Mapping} (stmaps : StatSmaps)
    (htotal : ∀ k, smapsTotal ms k < 2 ^ 32) :
    SmapsExact ms (readSmaps stmaps (smapsText ms)) ↔
      (∀ k, amountIn true k (stmaps.get k) (smapsBuffs ms) = 0#32) ∧
        smapsTotal ms .pss + smapsTotal ms .privateClean + smapsTotal ms .privateDirty <
          2 ^ 32 := by
  have hfield : ∀ k, ((readSmaps stmaps (smapsText ms)).get k).toNat = smapsTotal ms k ↔
      amountIn true k (stmaps.get k) (smapsBuffs ms) = 0#32 := by
    intro k
    have hk := readSmaps_get ms stmaps k
    have htot : (BitVec.ofNat 32 (smapsTotal ms k)).toNat = smapsTotal ms k := by
      rw [BitVec.toNat_ofNat, Nat.mod_eq_of_lt (htotal k)]
    constructor
    · intro h
      have heq : (readSmaps stmaps (smapsText ms)).get k = BitVec.ofNat 32 (smapsTotal ms k) :=
        BitVec.eq_of_toNat_eq (h.trans htot.symm)
      rw [hk] at heq
      exact (BitVec.add_right_eq_self).mp heq
    · intro h
      rw [hk, h, BitVec.add_zero, htot]
  rw [smapsExact_iff_fields, forall_congr' hfield]

/-- Where no piece of a first line begins with the name of a field, nothing is added. -/
theorem pieces_add_nothing {ms : List Mapping}
    (h : ∀ b ∈ smapsBuffs ms, b.1 = true → ∀ k : SmapsField, k.key.isPrefixOf b.2 = false)
    (stmaps : StatSmaps) (k : SmapsField) :
    amountIn true k (stmaps.get k) (smapsBuffs ms) = 0#32 :=
  amountIn_true_eq_zero k _ _ fun b hb hpiece => h b hb hpiece k

/-- One page of a library. -/
def libraryMapping : Mapping where
  header := ⟨ascii "7f00a000-7f00b000 r-xp 00000000 08:01 42 /lib/libc.so", by decide +kernel⟩
  body := [⟨.field .rss 11 4, by decide +kernel, by decide +kernel, by decide⟩,
    ⟨.field .pss 11 2, by decide +kernel, by decide +kernel, by decide⟩]

/-- The heap, with a line about no field. -/
def heapMapping : Mapping where
  header := ⟨ascii "00601000-00622000 rw-p 00000000 00:00 0 [heap]", by decide +kernel⟩
  body := [⟨.field .pss 9 132, by decide +kernel, by decide +kernel, by decide⟩,
    ⟨.field .privateDirty 2 128, by decide +kernel, by decide +kernel, by decide⟩,
    ⟨.other (ascii "VmFlags: rd wr mr mw me ac"), by decide +kernel, by decide +kernel,
      fun k => by cases k <;> decide +kernel⟩]

/-- A path that does not fit the buffer, and no piece of which looks like a field. -/
def deepMapping : Mapping where
  header := ⟨ascii "7f00c000-7f00d000 r--p 00000000 08:01 43 /" ++ List.replicate 200 97,
    by decide +kernel⟩
  body := [⟨.field .privateClean 2 4, by decide +kernel, by decide +kernel, by decide⟩,
    ⟨.field .rss 11 4, by decide +kernel, by decide +kernel, by decide⟩]

/-- The mappings of one process. -/
def processMappings : List Mapping := [libraryMapping, deepMapping, heapMapping]

theorem smaps_exact_iff_library : BUFFER_SIZE < deepMapping.header.val.length ∧
    smapsTotal processMappings .rss = 8 ∧ smapsTotal processMappings .pss = 134 ∧
    (SmapsExact processMappings (readSmaps { rss := 7 } (smapsText processMappings)) ↔
      (∀ k, amountIn true k (StatSmaps.get { rss := 7 } k) (smapsBuffs processMappings) = 0#32) ∧
        smapsTotal processMappings .pss + smapsTotal processMappings .privateClean +
          smapsTotal processMappings .privateDirty < 2 ^ 32) :=
  ⟨by decide +kernel, by decide +kernel, by decide +kernel,
    smaps_exact_iff { rss := 7 } fun k => by cases k <;> decide +kernel⟩

/-- A path so long that a piece of it begins with the name of a field. -/
def longPath : Mapping where
  header := ⟨ascii "7f00a000-7f00b000 /" ++ List.replicate 108 97 ++ ascii "Rss:7",
    by decide +kernel⟩
  body := []

theorem path_counted : (readSmaps {} (smapsText [longPath])).rss = 7 ∧
    ¬ SmapsExact [longPath] (readSmaps {} (smapsText [longPath])) := by
  have hrss : (readSmaps {} (smapsText [longPath])).rss = 7 := by decide +kernel
  refine ⟨hrss, ?_⟩
  intro h
  have h := h.fields .rss
  rw [StatSmaps.get, hrss] at h
  exact absurd h (by decide)

end PTop
