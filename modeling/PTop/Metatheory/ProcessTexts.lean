import PTop.Metatheory.NetDev
import PTop.Metatheory.Smaps
import PTop.Metatheory.StatLine
import PTop.Model.Texts

/-!
# The files of a process, written and read back

What the kernel writes about a process is six texts. For each of them there is a record
of the numbers it was written from, and the reader returns these numbers: whatever lines
stand between the ones it looks for, and whatever its variables held before.
-/

namespace PTop

open Framework

/-! ## The stat file -/

theorem newline_notMem_fields (zs : List Int) : (10 : UInt8) ∉ fields zs := by
  intro h
  rw [fields, paddedFields, List.mem_flatMap] at h
  obtain ⟨p, hp, hmem⟩ := h
  obtain ⟨z, -, rfl⟩ := List.mem_map.mp hp
  rw [List.mem_cons, List.replicate_zero, List.nil_append] at hmem
  rcases hmem with h | h
  · exact absurd h (by decide)
  · unfold integer at h
    split at h
    · rcases List.mem_cons.mp h with h | h
      · exact absurd h (by decide)
      · exact newline_notMem_decimal _ h
    · exact newline_notMem_decimal _ h

/-- The second line of the stat file of a patched kernel: what the disk and the network
have moved. The figures that are read as signed have 63 bits. -/
structure NetLine where
  dsk : Dsk
  net : Net
  signed : ∀ x ∈ [dsk.rio, dsk.wio, net.tcpsnd, net.tcprcv, net.udpsnd, net.udprcv, net.rawsnd,
    net.rawrcv], x.toNat < 2 ^ 63

namespace NetLine

variable (l : NetLine)

/-- The numbers after the first. -/
def numbers : List u64 :=
  [l.dsk.rsz, l.dsk.wio, l.dsk.wsz, l.net.tcpsnd, l.net.tcpssz, l.net.tcprcv, l.net.tcprsz,
    l.net.udpsnd, l.net.udpssz, l.net.udprcv, l.net.udprsz, l.net.rawsnd, l.net.rawrcv]

def text : CString :=
  integer l.dsk.rio.toNat ++ (fields (l.numbers.map fun x => (x.toNat : Int)) ++ [10])

/-- What is read of it; the totals are not in the file. -/
def scanned : NetScan where
  dsk := l.dsk
  net := { l.net with totalnetsnd := 0, totalnetrcv := 0 }

end NetLine

theorem secondFormat_eq :
    secondFormat = .int true :: (spacedInts (List.replicate 13 true) ++ []) := by
  rw [secondFormat, format, String.toList_ofList]
  decide +kernel

theorem toLlong_of_lt {x : u64} (h : x.toNat < 2 ^ 63) : toLlong (x.toNat : Int) = x := by
  rw [toLlong, min_eq_left (by omega), max_eq_right (by omega), BitVec.ofInt_natCast,
    BitVec.ofNat_toNat, BitVec.setWidth_eq]

/-- **The fourteen figures are read back.** -/
theorem NetLine.scanf_text (l : NetLine) :
    scanf secondFormat l.text = (l.dsk.rio :: l.numbers).map fun x => .int (x.toNat : Int) := by
  have hend : EndsSpan isDigit [(10 : UInt8)] := endsSpan_cons [] (by decide)
  have hfirst := scanInt_integer (l.dsk.rio.toNat : Int)
    (endsSpan_isDigit_fields hend (l.numbers.map fun x => (x.toNat : Int)))
  have hall : ∀ zs : List Int, ((List.replicate zs.length true).zip zs).filter Prod.fst =
      zs.map (true, ·) := by
    intro zs
    induction zs with
    | nil => rfl
    | cons z zs ih =>
        rw [List.length_cons, List.replicate_succ, List.zip_cons_cons,
          List.filter_cons_of_pos rfl, ih, List.map_cons]
  have hlen : 13 = (l.numbers.map fun x => (x.toNat : Int)).length := rfl
  rw [text, secondFormat_eq, scanf_int_some _ hfirst, if_pos rfl, scanf_spacedInts,
    scanf_fields hend [] (by rw [List.length_replicate]; rfl), hlen, hall]
  simp [Function.comp_def, scanf]

/-- The stat file as it is at one of the two times it is opened. Its first line fits the
buffer of the second reading. -/
structure StatFile where
  line : StatLine
  second : Option NetLine
  solid : SolidName line.name.val
  newline : (10 : UInt8) ∉ line.name.val
  fits : line.text.length ≤ 4095

namespace StatFile

variable (f : StatFile)

def text : CString := f.line.text ++ (f.second.elim [] NetLine.text)

/-- What follows the first line does not matter to the first reading. -/
theorem scanf_line_append (line : StatLine) (h : SolidName line.name.val) (s : CString) :
    scanf statFormat (line.text ++ s) =
      .word (skipBlank line.name.val ++ [41]) :: line.stored.map .int := by
  have hword : scanWord (some 16) (line.name.val ++ (line.afterName ++ s)) =
      some (skipBlank line.name.val ++ [41],
        32 :: line.state.val :: (fields (line.numbers ++ line.later) ++ 10 :: s)) := by
    have hname : line.name.val ++ (line.afterName ++ s) =
        line.name.val.takeWhile isSpace ++ (skipBlank line.name.val ++ [41]) ++
          32 :: line.state.val :: (fields (line.numbers ++ line.later) ++ 10 :: s) := by
      rw [StatLine.afterName, ← List.append_assoc (line.name.val.takeWhile isSpace), skipBlank,
        List.takeWhile_append_dropWhile, List.append_assoc]
      simp
    have hlen : (skipBlank line.name.val).length ≤ line.name.val.length :=
      List.length_dropWhile_le isSpace line.name.val
    have hname15 := line.name.property.2.1
    rw [hname]
    apply scanWord_span (fun b hb => List.mem_takeWhile_imp hb) (by simp)
    · intro b hb
      rcases List.mem_append.mp hb with hb | hb
      · exact h b hb
      · rw [List.mem_singleton.mp hb]
        decide
    · intro n hn
      cases hn
      rw [List.length_append, List.length_singleton]
      omega
    · intro b hb
      cases hb
      decide
  have hstate : scanWord none
      (32 :: line.state.val :: (fields (line.numbers ++ line.later) ++ 10 :: s)) =
      some ([line.state.val], fields (line.numbers ++ line.later) ++ 10 :: s) := by
    have hspace : ∀ b ∈ [(32 : UInt8)], isSpace b = true := List.forall_mem_singleton.mpr rfl
    apply scanWord_span (w := [line.state.val]) hspace (by simp)
    · intro b hb
      rw [List.mem_singleton.mp hb]
      exact line.state_isSpace
    · intro n hn
      cases hn
    · intro b hb
      cases hb
      decide
  have hend : EndsSpan isDigit (fields line.later ++ 10 :: s) :=
    endsSpan_isDigit_fields (endsSpan_cons s (by decide)) line.later
  have hlen : statStores.length = line.numbers.length := by
    simp [statStores, StatLine.numbers, line.limits.property]
  have htext : line.text ++ s =
      decimal line.pid ++ 32 :: 40 :: (line.name.val ++ (line.afterName ++ s)) := by
    simp [StatLine.text]
  have hfields : fields (line.numbers ++ line.later) ++ 10 :: s =
      fields line.numbers ++ (fields line.later ++ 10 :: s) := by
    rw [fields_append, List.append_assoc]
  rw [htext, scanf_statFormat, scanf_word_some _ hword, if_pos rfl, scanf_word_some _ hstate,
    if_neg Bool.false_ne_true, hfields, scanf_fields hend _ hlen, line.zip_statStores]
  simp [scanf]

/-- **The first reading.** -/
theorem scanStat_text : scanStat f.text = f.line.scanned := by
  have hscan := scanf_line_append f.line f.solid (f.second.elim [] NetLine.text)
  rw [← StatLine.scanf_text f.line f.solid] at hscan
  rw [← StatLine.scanStat_text f.line f.solid]
  unfold scanStat
  rw [text, hscan]

/-- The first line without its newline. -/
theorem exists_line : ∃ l : CString, f.line.text = l ++ [10] ∧ (10 : UInt8) ∉ l := by
  refine ⟨decimal f.line.pid ++ 32 :: 40 :: (f.line.name.val ++ 41 :: 32 :: f.line.state.val ::
    fields (f.line.numbers ++ f.line.later)), by simp [StatLine.text, StatLine.afterName], ?_⟩
  have hstate : ∀ b ∈ ascii "RSDTtXxKWPIZN", b ≠ 10 := by decide +kernel
  have hs := hstate _ f.line.state.property
  simp only [List.mem_append, List.mem_cons, not_or]
  exact ⟨newline_notMem_decimal _, by decide, by decide, f.newline, by decide, by decide,
    fun h => hs h.symm, newline_notMem_fields _⟩

/-- **The second reading.** -/
theorem scanSecond_text : scanSecond f.text = f.second.map NetLine.scanned := by
  obtain ⟨l, hl, hnewline⟩ := f.exists_line
  have hlen := f.fits
  rw [hl, List.length_append, List.length_singleton] at hlen
  have hbuffs : fgetsLoop 4095 [] f.text =
      (l ++ [10]) :: fgetsLoop 4095 [] (f.second.elim [] NetLine.text) := by
    rw [text, hl, List.append_assoc, List.singleton_append, fgetsLoop_line,
      fgetsLoop_short l [] hnewline (by rw [List.length_nil]; omega)]
    rfl
  unfold scanSecond
  rw [hbuffs]
  cases hsecond : f.second with
  | none => rw [Option.elim_none, fgetsLoop, Option.map_none]
  | some n =>
      have hfits : (integer n.dsk.rio.toNat ++
          fields (n.numbers.map fun x => (x.toNat : Int))).length < 4095 := by
        have hdigits : ∀ x : u64, (integer (x.toNat : Int)).length ≤ 21 := fun x =>
          length_integer_le (k := 20) (by decide) (by
            rw [Int.natAbs_natCast]
            exact x.isLt.trans (by decide))
        have hfields : ∀ xs : List u64,
            (fields (xs.map fun x => (x.toNat : Int))).length ≤ 22 * xs.length := by
          intro xs
          induction xs with
          | nil => decide
          | cons x xs ih =>
              have hx := hdigits x
              have happ := fields_append [(x.toNat : Int)] (xs.map fun x => (x.toNat : Int))
              rw [List.singleton_append] at happ
              rw [List.map_cons, happ, List.length_append, List.length_cons]
              simp only [fields, paddedFields, List.map_cons, List.map_nil, List.flatMap_cons,
                List.flatMap_nil, List.append_nil, List.length_cons, List.replicate_zero,
                List.nil_append] at ih ⊢
              omega
        have h1 := hdigits n.dsk.rio
        have h2 := hfields n.numbers
        have h3 : n.numbers.length = 13 := rfl
        rw [List.length_append]
        omega
      have hline : (10 : UInt8) ∉ integer (n.dsk.rio.toNat : Int) ++
          fields (n.numbers.map fun x => (x.toNat : Int)) := by
        rw [List.mem_append, not_or]
        refine ⟨?_, newline_notMem_fields _⟩
        rw [integer, if_neg (by omega)]
        exact newline_notMem_decimal _
      have hone : fgetsLoop 4095 [] n.text = [n.text] := by
        rw [NetLine.text, ← List.append_assoc, fgetsLoop_short _ [] hline (by simpa using hfits)]
        rfl
      rw [Option.elim_some, hone, Option.map_some]
      dsimp only
      rw [n.scanf_text]
      have hsigned := n.signed
      simp only [List.forall_mem_cons] at hsigned
      obtain ⟨h1, h2, h3, h4, h5, h6, h7, h8, -⟩ := hsigned
      simp only [NetLine.numbers, List.map_cons, List.map_nil, intAt, List.getElem?_cons_zero,
        List.getElem?_cons_succ, toUlong_u64, toLlong_of_lt h1, toLlong_of_lt h2,
        toLlong_of_lt h3, toLlong_of_lt h4, toLlong_of_lt h5, toLlong_of_lt h6, toLlong_of_lt h7,
        toLlong_of_lt h8]
      rfl

end StatFile

/-! ## Files of keyed lines -/

theorem apart_statusBranches : Apart (statusBranches.map Branch.key) := by decide +kernel

theorem apart_ioBranches : Apart (ioBranches.map Branch.key) := by decide +kernel

/-- A number of 64 bits after its key and one byte of white space. -/
def numberLine {σ : Type} (b : Branch σ) (c : UInt8) (x : u64) : FieldLine σ := ⟨b, [c], x.toNat, []⟩

/-- The number is looked for one byte behind the key. -/
theorem numberLine_ok {σ : Type} {cap : ℕ} {bs : List (Branch σ)} {b : Branch σ} (hb : b ∈ bs)
    (hskip : b.skip = b.key.length + 1) {c : UInt8} (hc : isSpace c = true)
    (hparts : (10 : UInt8) ∉ b.key ++ [c]) (hlen : b.key.length + 21 < cap) (x : u64) :
    (numberLine b c x).Ok cap bs := by
  have hvalue : x.toNat < 10 ^ 20 := x.isLt.trans (by decide)
  obtain ⟨hnewline, hfits⟩ := FieldLine.text_ok cap (numberLine b c x) (by decide)
    hvalue (by simpa [numberLine] using hparts) (by simp [numberLine]; omega)
  exact
    { branch := hb
      blank := List.forall_mem_singleton.mpr hc
      key_le := by simp [numberLine, hskip]
      skip_le := by simp [numberLine, hskip]
      tail := endsSpan_cons [] (by decide)
      newline := hnewline
      fits := hfits }

/-- `/proc/<pid>/status`: the two counters of context switches, and any other lines. -/
structure StatusFile where
  before : List (UnreadLine 255 statusBranches)
  nvcsw : u64
  between : List (UnreadLine 255 statusBranches)
  nivcsw : u64
  after : List (UnreadLine 255 statusBranches)

example : Unread 255 statusBranches (ascii "Cpus_allowed:\tffffffff,ffffffff") :=
  .of_foreign (by decide +kernel) (by decide +kernel)

namespace StatusFile

variable (f : StatusFile)

def text : CString := keyedText f.before
  [(numberLine voluntaryBranch 9 f.nvcsw, f.between),
    (numberLine nonvoluntaryBranch 9 f.nivcsw, f.after)]

/-- The fields have 32 bits. -/
def scanned : StatusScan := ⟨f.nvcsw.setWidth 32, f.nivcsw.setWidth 32⟩

theorem scanStatus_text : scanStatus f.text = f.scanned := by
  have htab : isSpace 9 = true := by decide
  have hvol : (numberLine voluntaryBranch 9 f.nvcsw).Ok 255 statusBranches :=
    numberLine_ok (by simp [statusBranches]) (by decide +kernel) htab (by decide +kernel)
      (by decide +kernel) _
  have hnonvol : (numberLine nonvoluntaryBranch 9 f.nivcsw).Ok 255 statusBranches :=
    numberLine_ok (by simp [statusBranches]) (by decide +kernel) htab (by decide +kernel)
      (by decide +kernel) _
  rw [scanStatus, text, readKeyed_keyedText apart_statusBranches]
  · show StatusScan.mk (toUint (f.nvcsw.toNat : Int)) (toUint (f.nivcsw.toNat : Int)) = _
    rw [toUint, toUint, toUlong_u64, toUlong_u64, scanned]
  · intro l hl
    simp only [List.mem_cons, List.not_mem_nil, or_false] at hl
    rcases hl with rfl | rfl
    · exact hvol
    · exact hnonvol

end StatusFile

/-- `/proc/<pid>/io`: the three counters of bytes, and any other lines. -/
structure IoFile where
  before : List (UnreadLine 255 ioBranches)
  readBytes : u64
  writeBytes : u64
  cancelledWriteBytes : u64
  after : List (UnreadLine 255 ioBranches)

namespace IoFile

variable (f : IoFile)

def text : CString := keyedText f.before
  [(numberLine readBranch 32 f.readBytes, []), (numberLine writeBranch 32 f.writeBytes, []),
    (numberLine cancelledBranch 32 f.cancelledWriteBytes, f.after)]

def scanned : IoScan := ⟨f.readBytes, f.writeBytes, f.cancelledWriteBytes⟩

theorem scanIo_text : scanIo f.text = f.scanned := by
  have hspace : isSpace 32 = true := by decide
  rw [scanIo, text, readKeyed_keyedText apart_ioBranches]
  · show IoScan.mk (toUlong (f.readBytes.toNat : Int)) (toUlong (f.writeBytes.toNat : Int))
      (toUlong (f.cancelledWriteBytes.toNat : Int)) = _
    rw [toUlong_u64, toUlong_u64, toUlong_u64, scanned]
  · intro l hl
    simp only [List.mem_cons, List.not_mem_nil, or_false] at hl
    rcases hl with rfl | rfl | rfl
    · exact numberLine_ok (by simp [ioBranches]) (by decide +kernel) hspace (by decide +kernel)
        (by decide +kernel) _
    · exact numberLine_ok (by simp [ioBranches]) (by decide +kernel) hspace (by decide +kernel)
        (by decide +kernel) _
    · exact numberLine_ok (by simp [ioBranches]) (by decide +kernel) hspace (by decide +kernel)
        (by decide +kernel) _

end IoFile

/-- `/proc/meminfo`: the active memory in kB, below 1 TB, some lines before it, and
anything after it. -/
structure MeminfoFile where
  before : List (UnreadLine 127 [activeBranch])
  pad : { n : ℕ // n ≤ 40 }
  active : { n : ℕ // n < 10 ^ 9 }
  rest : CString

namespace MeminfoFile

variable (f : MeminfoFile)

def activeLine : FieldLine u32 :=
  ⟨activeBranch, List.replicate f.pad.val 32, f.active.val, ascii " kB"⟩

def text : CString :=
  (f.before.map Subtype.val).flatMap (· ++ [10]) ++ (f.activeLine.text ++ 10 :: f.rest)

def scanned : u32 := BitVec.ofNat 32 f.active.val

theorem totalActiveMemory_text (active : u32) : totalActiveMemory active f.text = f.scanned := by
  have hkey : activeBranch.key.length = 7 := by decide +kernel
  have htail : (ascii " kB").length = 3 := by decide +kernel
  have hpad := f.pad.property
  have hparts : (10 : UInt8) ∉
      f.activeLine.branch.key ++ (f.activeLine.blank ++ f.activeLine.tail) := by
    have hk : (10 : UInt8) ∉ activeBranch.key := by decide +kernel
    have ht : (10 : UInt8) ∉ ascii " kB" := by decide +kernel
    simp only [activeLine, List.mem_append, not_or]
    exact ⟨hk, fun h => absurd (List.eq_of_mem_replicate h) (by decide), ht⟩
  obtain ⟨hnewline, hfits⟩ := FieldLine.text_ok (BUFFER_SIZE - 1) f.activeLine
    (by decide) f.active.property hparts (by
      simp only [activeLine, List.length_replicate, hkey, htail, BUFFER_SIZE]
      omega)
  have hend : EndsSpan isDigit (ascii " kB" ++ [10]) := endsSpan_cons _ (by decide)
  have hscan : scanInt ((f.activeLine.text ++ [10]).drop activeBranch.skip) =
      some ((f.active.val : Int), ascii " kB" ++ [10]) := by
    have hskip : activeBranch.skip = activeBranch.key.length := hkey.symm
    have hdigits := scanInt_digits (decimal_ne_nil f.active.val) (isDigit_of_mem_decimal _) hend
    rw [digitsValue_decimal] at hdigits
    rw [hskip, FieldLine.text, activeLine, List.append_assoc, List.drop_left, List.append_assoc,
      scanInt_spaces, List.append_assoc, hdigits]
  have hone : fgetsLoop (BUFFER_SIZE - 1) [] (f.activeLine.text ++ [10]) =
      [f.activeLine.text ++ [10]] := by
    rw [fgetsLoop_short _ [] hnewline (by simpa using hfits), List.nil_append]
  have hunread : ∀ l ∈ f.before.map Subtype.val, Unread (BUFFER_SIZE - 1) [activeBranch] l := by
    intro l hl
    obtain ⟨q, -, rfl⟩ := List.mem_map.mp hl
    exact q.property
  have hactive := f.active.property
  have hread := readFirst_lines (b := activeBranch) hone (List.prefix_append _ _) hscan f.rest
    active hunread
  rw [totalActiveMemory, text, hread]
  show toInt (f.active.val : Int) = _
  rw [toInt, min_eq_left (by omega), max_eq_right (by omega), BitVec.ofInt_natCast, scanned]

end MeminfoFile

/-- `/proc/<pid>/smaps`, whose paths have no piece that reads like a field. -/
abbrev SmapsFile := { ms : List Mapping // ∀ b ∈ smapsBuffs ms, b.1 = true →
  ∀ k : SmapsField, k.key.isPrefixOf b.2 = false }

/-- The sums of the file. -/
def SmapsFile.scanned (f : SmapsFile) : StatSmaps where
  size := BitVec.ofNat 32 (smapsTotal f.val .size)
  rss := BitVec.ofNat 32 (smapsTotal f.val .rss)
  pss := BitVec.ofNat 32 (smapsTotal f.val .pss)
  sharedClean := BitVec.ofNat 32 (smapsTotal f.val .sharedClean)
  sharedDirty := BitVec.ofNat 32 (smapsTotal f.val .sharedDirty)
  privateClean := BitVec.ofNat 32 (smapsTotal f.val .privateClean)
  privateDirty := BitVec.ofNat 32 (smapsTotal f.val .privateDirty)
  referenced := BitVec.ofNat 32 (smapsTotal f.val .referenced)
  swap := BitVec.ofNat 32 (smapsTotal f.val .swap)

theorem StatSmaps.ext_get {s t : StatSmaps} (h : ∀ k, s.get k = t.get k) : s = t := by
  cases s
  cases t
  simp only [StatSmaps.mk.injEq]
  exact ⟨h .size, h .rss, h .pss, h .sharedClean, h .sharedDirty, h .privateClean,
    h .privateDirty, h .referenced, h .swap⟩

theorem SmapsFile.readSmaps_text (f : SmapsFile) (stmaps : StatSmaps) :
    readSmaps stmaps (smapsText f.val) = f.scanned := by
  apply StatSmaps.ext_get
  intro k
  rw [readSmaps_get, pieces_add_nothing f.property, BitVec.add_zero]
  cases k <;> rfl

/-! ## A process -/

/-- What the kernel answers about one process in one cycle: each file as it is at the time
it is opened, if it can be. -/
structure KernelProcess where
  stat : Option StatFile
  statAgain : Option StatFile
  status : Option StatusFile
  io : Option IoFile
  smaps : Option SmapsFile
  meminfo : Option MeminfoFile
  perfOpen : PCFile
  counter : Option u64

namespace KernelProcess

variable (k : KernelProcess)

/-- The texts, read with these values in the variables. -/
def texts (stmaps : StatSmaps) (active : u32) : PidTexts where
  stat := k.stat.map StatFile.text
  statAgain := k.statAgain.map StatFile.text
  status := k.status.map StatusFile.text
  io := k.io.map IoFile.text
  smaps := k.smaps.map fun f => smapsText f.val
  meminfo := k.meminfo.map MeminfoFile.text
  perfOpen := k.perfOpen
  counter := k.counter
  stmaps := stmaps
  active := active

/-- The numbers. -/
def files : ProcFiles where
  stat := k.stat.map fun f => f.line.scanned
  statAgain := k.statAgain.map fun f => f.second.map NetLine.scanned
  status := k.status.map StatusFile.scanned
  io := k.io.map IoFile.scanned
  smaps := k.smaps.map SmapsFile.scanned
  meminfo := k.meminfo.map MeminfoFile.scanned
  perfOpen := k.perfOpen
  counter := k.counter

/-- **The numbers are read back from the texts**, whatever the variables held. -/
theorem scan_texts (stmaps : StatSmaps) (active : u32) : (k.texts stmaps active).scan = k.files := by
  simp only [PidTexts.scan, texts, files, Option.map_map, Function.comp_def,
    StatFile.scanStat_text, StatFile.scanSecond_text, StatusFile.scanStatus_text,
    IoFile.scanIo_text, SmapsFile.readSmaps_text, MeminfoFile.totalActiveMemory_text]

end KernelProcess

end PTop
