import PTop.Metatheory.ProcessTexts

/-!
# A cycle on texts

The files of the machine, written and read back like those of a process, and with them
everything that a pass of the main loop reads. A pass on the texts is a pass on the
numbers, so the runs on texts are the runs on numbers.
-/

namespace PTop

open Framework

/-! ## `/proc/stat` -/

/-- `/proc/stat`: the numbers of its first line, those that newer kernels append to it,
and anything after it. -/
structure CpuStatFile where
  cpu : StatsCpu
  later : { l : List ℕ // l.length ≤ 8 ∧ ∀ n ∈ l, n < 10 ^ 20 }
  rest : CString

namespace CpuStatFile

variable (f : CpuStatFile)

/-- The numbers after the first, in the order of the file. -/
def numbers : List u64 :=
  [f.cpu.cpuNice, f.cpu.cpuSys, f.cpu.cpuIdle, f.cpu.cpuIowait, f.cpu.cpuHardirq,
    f.cpu.cpuSoftirq, f.cpu.cpuSteal, f.cpu.cpuGuest]

def values : List Int :=
  (f.cpu.cpuUser :: f.numbers).map (fun x => (x.toNat : Int)) ++ f.later.val.map fun n : ℕ => (n : Int)

def line : CString := ascii "cpu " ++ fields f.values

def text : CString := f.line ++ 10 :: f.rest

end CpuStatFile

theorem statCpuFormat_eq :
    statCpuFormat = .int true :: (spacedInts (List.replicate 8 true) ++ []) := by
  rw [statCpuFormat, format, String.toList_ofList]
  decide +kernel

/-- Fields of up to 20 digits. -/
theorem length_fields_le : ∀ {zs : List Int}, (∀ z ∈ zs, z.natAbs < 10 ^ 20) →
    (fields zs).length ≤ 22 * zs.length
  | [], _ => Nat.zero_le _
  | z :: zs, h => by
      have hz := length_integer_le (by decide) (h z List.mem_cons_self)
      have ih := length_fields_le fun y hy => h y (List.mem_cons_of_mem z hy)
      have happ := fields_append [z] zs
      have hone : (fields [z]).length = (integer z).length + 1 := by
        simp [fields, paddedFields]
      rw [List.singleton_append] at happ
      rw [happ, List.length_append, hone, List.length_cons]
      omega

namespace CpuStatFile

variable (f : CpuStatFile)

theorem line_ok : (10 : UInt8) ∉ f.line ∧ f.line.length < 1023 := by
  have hcpu : (10 : UInt8) ∉ ascii "cpu " := by decide +kernel
  have hlen : (ascii "cpu ").length = 4 := by decide +kernel
  have hvalues : ∀ z ∈ f.values, z.natAbs < 10 ^ 20 := by
    intro z hz
    rcases List.mem_append.mp hz with hz | hz
    · obtain ⟨x, -, rfl⟩ := List.mem_map.mp hz
      exact x.isLt.trans (by decide)
    · obtain ⟨n, hn, rfl⟩ := List.mem_map.mp hz
      exact f.later.property.2 n hn
  have hfields := length_fields_le hvalues
  have hcount : f.values.length = 9 + f.later.val.length := by
    simp [values, numbers]
    omega
  have hlater := f.later.property.1
  refine ⟨?_, ?_⟩
  · rw [line, List.mem_append, not_or]
    exact ⟨hcpu, newline_notMem_fields _⟩
  · rw [line, List.length_append, hlen]
    omega

/-- **The nine numbers are read back**, whatever follows them. -/
theorem scanStatCpu_text : scanStatCpu f.text = some f.cpu := by
  obtain ⟨hnewline, hlen⟩ := f.line_ok
  have hhead : (fgetsLoop 1023 [] f.text).head? = some (f.line ++ [10]) := by
    rw [text, fgetsLoop_line, fgetsLoop_short f.line [] hnewline (by simpa using hlen)]
    rfl
  have hend : EndsSpan isDigit ((fields (f.later.val.map fun n : ℕ => (n : Int))) ++ [10]) :=
    endsSpan_isDigit_fields (endsSpan_cons [] (by decide)) _
  have hdrop : (f.line ++ [10]).drop 5 = integer f.cpu.cpuUser.toNat ++
      (fields (f.numbers.map fun x => (x.toNat : Int)) ++
        (fields (f.later.val.map fun n : ℕ => (n : Int)) ++ [10])) := by
    have hsplit : f.line ++ [10] = (ascii "cpu " ++ [32]) ++ (integer f.cpu.cpuUser.toNat ++
        (fields (f.numbers.map fun x => (x.toNat : Int)) ++
          (fields (f.later.val.map fun n : ℕ => (n : Int)) ++ [10]))) := by
      have hcons := fields_append [(f.cpu.cpuUser.toNat : Int)]
        (f.numbers.map (fun x => (x.toNat : Int)) ++ f.later.val.map fun n : ℕ => (n : Int))
      rw [List.singleton_append, fields_append] at hcons
      rw [line, values, List.map_cons, List.cons_append, hcons]
      simp [fields, paddedFields]
    have hfive : (ascii "cpu " ++ [(32 : UInt8)]).length = 5 := by decide +kernel
    rw [hsplit, ← hfive, List.drop_left]
  have hfirst := scanInt_integer (f.cpu.cpuUser.toNat : Int)
    (endsSpan_isDigit_fields hend (f.numbers.map fun x => (x.toNat : Int)))
  have hzip : ((List.replicate 8 true).zip (f.numbers.map fun x => (x.toNat : Int))).filter
      Prod.fst = (f.numbers.map fun x => (x.toNat : Int)).map (true, ·) := rfl
  have hscan : scanf statCpuFormat ((f.line ++ [10]).drop 5) =
      (f.cpu.cpuUser :: f.numbers).map fun x => .int (x.toNat : Int) := by
    rw [hdrop, statCpuFormat_eq, scanf_int_some _ hfirst, if_pos rfl, scanf_spacedInts,
      scanf_fields hend [] rfl, hzip]
    simp [Function.comp_def, scanf]
  rw [scanStatCpu, hhead, Option.map_some]
  dsimp only
  rw [hscan]
  simp only [numbers, List.map_cons, List.map_nil, intAt, List.getElem?_cons_zero,
    List.getElem?_cons_succ, toUlong_u64]

end CpuStatFile

/-! ## The listing of `/proc` -/

/-- An entry of `/proc`: a process, or a name that does not begin with a digit. -/
inductive ProcEntry where
  | process (pid : Pid)
  | other (name : { n : CString // n.head?.any isDigit = false })

namespace ProcEntry

def name : ProcEntry → CString
  | process pid => decimal pid.val.toNat
  | other name => name.val

def pid : ProcEntry → Option Pid
  | process pid => some pid
  | other _ => none

end ProcEntry

theorem atoiPid_decimal (x : u32) : atoiPid (decimal x.toNat) = x := by
  have hnil : EndsSpan isDigit [] := fun b hb => absurd hb (by simp)
  have hscan := scanInt_digits (decimal_ne_nil x.toNat) (isDigit_of_mem_decimal x.toNat) hnil
  have hlt := x.isLt
  rw [List.append_nil, digitsValue_decimal] at hscan
  rw [atoiPid, hscan]
  show toInt (x.toNat : Int) = x
  rw [toInt, min_eq_left (by omega), max_eq_right (by omega), BitVec.ofInt_natCast,
    BitVec.ofNat_toNat, BitVec.setWidth_eq]

/-- **The processes are listed**, in their order, and nothing else is. -/
theorem listPids_names (es : List ProcEntry) :
    listPids (es.map ProcEntry.name) = es.filterMap ProcEntry.pid := by
  rw [listPids, List.filterMap_map]
  apply List.filterMap_congr
  intro e _
  cases e with
  | process pid =>
      have hdigit : (decimal pid.val.toNat).head?.any isDigit = true := by
        cases h : decimal pid.val.toNat with
        | nil => exact absurd h (decimal_ne_nil _)
        | cons d ds =>
            rw [List.head?_cons, Option.any_some]
            exact isDigit_of_mem_decimal pid.val.toNat d (h ▸ List.mem_cons_self)
      simp only [Function.comp_def, ProcEntry.name, ProcEntry.pid, hdigit, if_true, atoiPid_decimal]
      exact dif_pos pid.property
  | other name =>
      simp only [Function.comp_def, ProcEntry.name, ProcEntry.pid, name.property]
      rfl

/-! ## The frequency tables -/

/-- A line of a `time_in_state` file. A longer count would not fit the buffer. -/
structure FreqLine where
  frequency : u32
  count : { c : u64 // c.toNat < 10 ^ 19 }

namespace FreqLine

variable (l : FreqLine)

def text : CString := decimal l.frequency.toNat ++ 32 :: decimal l.count.val.toNat

def pair : u64 × u64 := (l.frequency.setWidth 64, l.count.val)

theorem text_ok : (10 : UInt8) ∉ l.text ∧ l.text.length < 31 := by
  have hf := length_decimal_le (k := 10) (by decide) (l.frequency.isLt.trans (by decide))
  have hc := length_decimal_le (k := 19) (by decide) l.count.property
  refine ⟨?_, ?_⟩
  · rw [text, List.mem_append, List.mem_cons, not_or, not_or]
    exact ⟨newline_notMem_decimal _, by decide, newline_notMem_decimal _⟩
  · rw [text, List.length_append, List.length_cons]
    omega

/-- **A line is read as its pair**, whatever the entry held. -/
theorem scanFreqLine_text (old : CpuFreqData) : scanFreqLine old (l.text ++ [10]) = l.pair := by
  have hformat : format "%llu %llu" = [.int true, .blank, .int true] := by
    rw [format, String.toList_ofList]
    decide +kernel
  have hfirst : scanInt (l.text ++ [10]) =
      some ((l.frequency.toNat : Int), 32 :: (decimal l.count.val.toNat ++ [10])) := by
    have hscan := scanInt_digits (decimal_ne_nil l.frequency.toNat) (isDigit_of_mem_decimal _)
      (endsSpan_cons (decimal l.count.val.toNat ++ [10]) (by decide : isDigit 32 = false))
    rw [digitsValue_decimal] at hscan
    rw [text, List.append_assoc, List.cons_append]
    exact hscan
  have hsecond : scanInt (32 :: (decimal l.count.val.toNat ++ [10])) =
      some ((l.count.val.toNat : Int), [10]) := by
    have hscan := scanInt_digits (decimal_ne_nil l.count.val.toNat) (isDigit_of_mem_decimal _)
      (endsSpan_cons [] (by decide : isDigit 10 = false))
    have hblank := scanInt_spaces 1 (decimal l.count.val.toNat ++ [10])
    rw [digitsValue_decimal] at hscan
    rw [← hscan]
    exact hblank
  rw [scanFreqLine, hformat, scanf_int_some _ hfirst, if_pos rfl, scanf_blank_int,
    scanf_int_some _ hsecond, if_pos rfl, scanf]
  dsimp only
  rw [toUlong_u32, toUlong_u64, pair]

end FreqLine

/-- The text of a `time_in_state` file. -/
def freqText (ls : List FreqLine) : CString := ls.flatMap fun l => l.text ++ [10]

/-- The entries of a file that have a place. -/
def freqTable (ls : List FreqLine) : FreqTable := (ls.take 16).map FreqLine.pair

theorem fgetsLoop_freqText (ls : List FreqLine) :
    fgetsLoop 31 [] (freqText ls) = ls.map fun l => l.text ++ [10] := by
  have hlines := fgetsLoop_lines 31 (ls.map FreqLine.text)
  rw [List.flatMap_map, List.flatMap_map] at hlines
  rw [freqText, hlines, ← List.flatMap_singleton' (ls.map _), List.flatMap_map]
  apply List.flatMap_congr
  intro l _
  obtain ⟨hnewline, hlen⟩ := l.text_ok
  exact fgetsLoop_short l.text [] hnewline (by simpa using hlen)

/-- **A table is read back**, as far as there is room for it. -/
theorem scanTimeInState_text (freqs : ℕ → CpuFreqData) (ls : List FreqLine) :
    scanTimeInState freqs (freqText ls) = freqTable ls := by
  rw [scanTimeInState, fgetsLoop_freqText, ← List.map_take, List.zipIdx_map, List.map_map,
    freqTable]
  conv_rhs => rw [← List.zipIdx_map_fst 0 (ls.take 16), List.map_map]
  apply List.map_congr_left
  rintro ⟨l, i⟩ _
  exact l.scanFreqLine_text (freqs i)

/-- An entry of the directory of the CPUs: a name that begins with `cpu`, with its table
if that can be opened, or another name. -/
inductive CpuEntry where
  | cpu (name : { n : CString // strncmpEq 3 n (ascii "cpu") = true }) (table : Option (List FreqLine))
  | other (name : { n : CString // strncmpEq 3 n (ascii "cpu") = false }) (text : Option CString)

namespace CpuEntry

def texts : CpuEntry → CString × Option CString
  | cpu name table => (name.val, table.map freqText)
  | other name text => (name.val, text)

def table : CpuEntry → Option (Option FreqTable)
  | cpu _ table => some (table.map freqTable)
  | other _ _ => none

end CpuEntry

/-- **The tables of the directory are read back**, whatever the entries held. -/
theorem scanCpuDir_texts : ∀ (es : List CpuEntry) (freqs : ℕ → CpuFreqData),
    scanCpuDir freqs (es.map CpuEntry.texts) = es.filterMap CpuEntry.table
  | [], _ => rfl
  | .cpu name none :: es, freqs => by
      rw [List.map_cons, CpuEntry.texts, Option.map_none, scanCpuDir, if_pos name.property,
        scanCpuDir_texts es freqs]
      rfl
  | .cpu name (some ls) :: es, freqs => by
      rw [List.map_cons, CpuEntry.texts, Option.map_some, scanCpuDir, if_pos name.property]
      dsimp only
      rw [scanTimeInState_text, scanCpuDir_texts es _]
      rfl
  | .other name text :: es, freqs => by
      have hname : ¬ strncmpEq 3 name.val (ascii "cpu") = true := by simp [name.property]
      rw [List.map_cons, CpuEntry.texts, scanCpuDir.eq_def]
      dsimp only
      rw [if_neg hname, scanCpuDir_texts es freqs]
      rfl

/-! ## The wireless interface -/

/-- A file `/proc/net/wireless` whose names fit their variable up to the one read last. -/
abbrev FittingWireless := { wl : WirelessFile // ∀ n ∈ wl.read, n.val.length ≤ 8 }

/-- The two files of the network. There may be no list of wireless interfaces, or none in
it that begins with `eth`, or no list of counters; and in the last case no interface of
another name comes before the one looked for. -/
inductive NetFiles where
  | noWireless (netDev : Option CString)
  | noEth (lines : List Heading) (netDev : Option CString)
  | noDev (wl : FittingWireless)
  | both (wl : FittingWireless) (dev : { d : DevFile //
      ∀ l, d.found wl.val.iface = some l → l.val.name = wl.val.iface })

namespace NetFiles

def netWireless : NetFiles → Option CString
  | noWireless _ => none
  | noEth lines _ => some ((lines.map Subtype.val).flatMap (· ++ [10]))
  | noDev wl => some wl.val.text
  | both wl _ => some wl.val.text

def netDev : NetFiles → Option CString
  | noWireless d => d
  | noEth _ d => d
  | noDev _ => none
  | both _ dev => some dev.val.text

/-- The counters of the interface, if it has any. -/
def counters : NetFiles → Option (u64 × u64)
  | both wl dev => (dev.val.found wl.val.iface).map fun l => (l.val.rcv, l.val.snd)
  | _ => none

theorem readSysnet_files (net : NetFiles) (wireless name : CString) :
    readSysnet wireless name net.netWireless net.netDev = some net.counters := by
  cases net with
  | noWireless d => rfl
  | noEth lines d =>
      obtain ⟨old, hold⟩ := findWireless_headings [] lines wireless
      rw [List.append_nil, ← fgetsLoop_lines, findWireless] at hold
      unfold readSysnet netWireless
      dsimp only
      rw [hold]
      rfl
  | noDev wl =>
      unfold readSysnet netWireless netDev
      dsimp only
      rw [findWireless_text, if_pos wl.property]
      rfl
  | both wl dev =>
      show readSysnet wireless name (some wl.val.text) (some dev.val.text) = _
      rw [readSysnet_text, if_pos wl.property, counters]
      cases hfound : dev.val.found wl.val.iface with
      | none => rfl
      | some l =>
          rw [Option.map_some, Option.map_some, DevLine.countersFor, if_pos (dev.property l hfound)]

end NetFiles

/-! ## A cycle -/

/-- What the kernel answers during one pass, where the readers cope with it: the names of
processes are solid, no piece of a path in `smaps` reads like a field, the names of wireless
interfaces fit and begin no other name, and numbers fit the buffers they are read through. -/
structure KernelCycle where
  ctime : Int
  stat : Option CpuStatFile
  proc : Option (List ProcEntry)
  processes : Pid → KernelProcess
  cpuDir : Option (List CpuEntry)
  cpuCounter : ℕ → Option u64
  net : NetFiles
  isatty : Bool
  displayExit : Option ℕ
  purgeTime : Int × Int

/-- What the variables that nothing initialises hold in a pass. -/
structure Leftover where
  stmaps : Pid → StatSmaps
  active : Pid → u32
  wireless : CString
  name : CString

namespace KernelCycle

variable (k : KernelCycle)

/-- The texts of the pass. -/
def texts (left : Leftover) : CycleTexts where
  ctime := k.ctime
  stat := k.stat.map CpuStatFile.text
  proc := k.proc.map fun es => es.map ProcEntry.name
  files := fun pid => (k.processes pid).texts (left.stmaps pid) (left.active pid)
  cpuDir := k.cpuDir.map fun es => es.map CpuEntry.texts
  cpuCounter := k.cpuCounter
  netWireless := k.net.netWireless
  netDev := k.net.netDev
  wireless := left.wireless
  name := left.name
  isatty := k.isatty
  displayExit := k.displayExit
  purgeTime := k.purgeTime

/-- The numbers of the pass. -/
def input : CycleInput where
  ctime := k.ctime
  stat := k.stat.map fun f => some f.cpu
  proc := k.proc.map fun es => es.filterMap ProcEntry.pid
  files := fun pid => (k.processes pid).files
  cpufreq := k.cpuDir.map fun es => es.filterMap CpuEntry.table
  cpuCounter := k.cpuCounter
  net := k.net.counters
  isatty := k.isatty
  displayExit := k.displayExit
  purgeTime := k.purgeTime

/-- The numbers are read back from the texts. -/
theorem scan_texts (left : Leftover) (freqs : ℕ → CpuFreqData) :
    (k.texts left).scan freqs = some k.input := by
  have hnet : readSysnet (k.texts left).wireless (k.texts left).name (k.texts left).netWireless
      (k.texts left).netDev = some k.net.counters := k.net.readSysnet_files _ _
  rw [CycleTexts.scan, hnet]
  simp only [texts, input, Option.map_some, Option.map_map, Function.comp_def,
    CpuStatFile.scanStatCpu_text, listPids_names, KernelProcess.scan_texts, scanCpuDir_texts]

theorem mainLoopText_eq (conf : Conf) (left : Leftover) (s : PtopState) :
    mainLoopText conf (k.texts left) s = mainLoop conf k.input s := by
  rw [mainLoopText, scan_texts]

end KernelCycle

/-- **The runs on texts are the runs on numbers**: what the program makes of such files is
what the main loop makes of the numbers in them, pass by pass, whatever is left in its
variables. -/
theorem texts_produce_iff (conf : Conf) (cpuFd : List PCFile) (ks : List (KernelCycle × Leftover))
    (os : List CycleOutput) (s : PtopState) :
    Produces (Steps (mainLoopText conf)) (systemInit cpuFd) (ks.map fun k => k.1.texts k.2) os s ↔
      Produces (Steps (mainLoop conf)) (systemInit cpuFd) (ks.map fun k => k.1.input) os s := by
  refine produces_congr _ _ ?_ ks
  rintro ⟨k, left⟩ s s' o
  rw [Steps, k.mainLoopText_eq]
  exact Iff.rfl

end PTop
