import PTop.Metatheory.Runs
import PTop.Metatheory.StatLine

/-!
# The sample of a stat line

What `read_proc_pid_stat` stores of a line the kernel has written, compared with
the line: the counters, the name, and the sizes as far as the row of the process.
-/

namespace PTop

open Framework

/-! ## What the reader stores -/

/-- The sample after the first line of the stat file. -/
def statSample (conf : Conf) (pid : u32) (s : StatScan) : PidStats where
  minflt := s.minflt.setWidth 32
  cminflt := s.cminflt.setWidth 32
  majflt := s.majflt.setWidth 32
  cmajflt := s.cmajflt.setWidth 32
  utime := s.utime
  stime := s.stime
  cutime := s.cutime
  cstime := s.cstime
  vsz := s.vsz.setWidth 32 >>> 10
  rss := s.rss.setWidth 32 <<< conf.kbShift
  processor := s.processor
  gtime := s.gtime
  cgtime := s.cgtime
  comm := commOf s.comm
  pid := pid

/-- The second line changes the disk and network parts only. -/
theorem readProcPidStat_some (conf : Conf) (pid : u32) {f : ProcFiles} {s : StatScan}
    (hs : f.stat = some s) : ∃ dsk net, (readProcPidStat conf pid f {}).2 =
      { statSample conf pid s with dsk := dsk, net := net } := by
  unfold readProcPidStat
  rw [hs]
  cases f.statAgain with
  | none => exact ⟨_, _, rfl⟩
  | some again => cases again <;> exact ⟨_, _, rfl⟩

section Reader

variable (conf : Conf) (pid : u32) (f : ProcFiles) (line : StatLine)

/-- `read_proc_pid_stat` on a cleared sample, with `line` in the stat file. -/
def readLine : PidStats :=
  (readProcPidStat conf pid { f with stat := some (scanStat line.text) } {}).2

/-- The ten counters of a sample are those of the line. -/
structure CountersExact (pst : PidStats) : Prop where
  minflt : pst.minflt = line.minflt
  cminflt : pst.cminflt = line.cminflt
  majflt : pst.majflt = line.majflt
  cmajflt : pst.cmajflt = line.cmajflt
  utime : pst.utime = line.utime
  stime : pst.stime = line.stime
  cutime : pst.cutime = line.cutime
  cstime : pst.cstime = line.cstime
  gtime : pst.gtime = line.gtime
  cgtime : pst.cgtime = line.cgtime

theorem readLine_eq : ∃ dsk net, readLine conf pid f line =
    { statSample conf pid (scanStat line.text) with dsk := dsk, net := net } :=
  readProcPidStat_some conf pid rfl

theorem counters_exact_of_solid (h : SolidName line.name.val) :
    CountersExact line (readLine conf pid f line) := by
  obtain ⟨dsk, net, hread⟩ := readLine_eq conf pid f line
  have hnarrow : ∀ x : u32, (x.setWidth 64).setWidth 32 = x := by
    intro x
    rw [BitVec.setWidth_setWidth_of_le x (by decide), BitVec.setWidth_eq]
  rw [hread, line.scanStat_text h]
  exact ⟨hnarrow _, hnarrow _, hnarrow _, hnarrow _, rfl, rfl, rfl, rfl, rfl, rfl⟩

/-- Past a name with inner white space the cleared counters stay. -/
theorem counters_of_inner (h : ¬ SolidName line.name.val) :
    CountersExact line (readLine conf pid f line) ↔ CountersExact line {} := by
  obtain ⟨dsk, net, hread⟩ := readLine_eq conf pid f line
  obtain ⟨w, hscan⟩ := line.scanf_text_inner h
  have htext : scanStat line.text = { comm := w } := by
    unfold scanStat
    rw [hscan]
    rfl
  rw [hread, htext]
  constructor
  · rintro ⟨h1, h2, h3, h4, h5, h6, h7, h8, h9, h10⟩
    exact ⟨h1, h2, h3, h4, h5, h6, h7, h8, h9, h10⟩
  · rintro ⟨h1, h2, h3, h4, h5, h6, h7, h8, h9, h10⟩
    exact ⟨h1, h2, h3, h4, h5, h6, h7, h8, h9, h10⟩

/-- **The counters of a stat line are stored exactly iff its name has no inner white
space**, or all ten are zero. -/
theorem counters_exact_iff : CountersExact line (readLine conf pid f line) ↔
    SolidName line.name.val ∨ CountersExact line {} := by
  by_cases h : SolidName line.name.val
  · exact ⟨fun _ => Or.inl h, fun _ => counters_exact_of_solid conf pid f line h⟩
  · rw [counters_of_inner conf pid f line h]
    constructor
    · exact Or.inr
    · rintro (hs | hz)
      · exact absurd hs h
      · exact hz

/-! ## The name -/

/-- Removing the parenthesis takes a byte of the name only where the cut has already
removed the parenthesis. -/
theorem commOf_append_paren {name : CString} (hlen : name.length ≤ 15) :
    commOf (name ++ [41]) = name ↔ name.length < 15 ∨ name.getLast? ≠ some 41 := by
  unfold commOf
  dsimp only
  by_cases hshort : name.length < 15
  · have hwhole : (name ++ [41]).take (MAX_COMM_LEN - 1) = name ++ [41] := by
      apply List.take_of_length_le
      simp [MAX_COMM_LEN]
      omega
    rw [hwhole, if_pos (List.getLast?_concat ..), List.dropLast_concat]
    exact ⟨fun _ => Or.inl hshort, fun _ => rfl⟩
  · have hcut : (name ++ [41]).take (MAX_COMM_LEN - 1) = name := by
      have hfull : name.length = MAX_COMM_LEN - 1 := by
        simp [MAX_COMM_LEN]
        omega
      rw [← hfull, List.take_left]
    rw [hcut]
    by_cases hlast : name.getLast? = some 41
    · rw [if_pos hlast]
      constructor
      · intro h
        have hshorter := congrArg List.length h
        rw [List.length_dropLast] at hshorter
        omega
      · rintro (h | h)
        · exact absurd h hshort
        · exact absurd hlast h
    · rw [if_neg hlast]
      exact ⟨fun _ => Or.inr hlast, fun _ => rfl⟩

/-- A name without white space is cut and stripped with its parenthesis. -/
theorem readLine_comm (h : ∀ b ∈ line.name.val, isSpace b = false) :
    (readLine conf pid f line).comm = commOf (line.name.val ++ [41]) := by
  obtain ⟨dsk, net, hread⟩ := readLine_eq conf pid f line
  have hskip : skipBlank line.name.val = line.name.val := by
    apply dropWhile_of_endsSpan
    intro b hb
    exact h b (List.mem_of_mem_head? hb)
  have hsolid : SolidName line.name.val := by
    intro b hb
    exact h b (hskip ▸ hb)
  rw [hread, line.scanStat_text hsolid]
  show commOf (skipBlank line.name.val ++ [41]) = _
  rw [hskip]

/-- **A name without white space is read back iff it has at most 14 bytes or does not
end in a parenthesis.** -/
theorem comm_exact_iff (h : ∀ b ∈ line.name.val, isSpace b = false) :
    (readLine conf pid f line).comm = line.name.val ↔
      line.name.val.length < 15 ∨ line.name.val.getLast? ≠ some 41 := by
  rw [readLine_comm conf pid f line h]
  exact commOf_append_paren line.name.property.2.1

end Reader

/-- A line with a few numbers in it. -/
def lineOf (name : ProcName) : StatLine :=
  { pid := 7, name := name, state := ⟨83, by decide +kernel⟩, ppid := 1, pgrp := 7, session := 7,
    ttyNr := 0, tpgid := -1, flags := 4194560, minflt := 120, cminflt := 0, majflt := 3,
    cmajflt := 0, utime := 50, stime := 20, cutime := 0, cstime := 0, priority := 20, nice := 0,
    numThreads := 1, itrealvalue := 0, starttime := 4000, vsize := 1048576, rss := 256,
    limits := ⟨List.replicate 14 0, rfl⟩, processor := 2, rtPriority := 0, policy := 0,
    delayacct := 0, gtime := 0, cgtime := 0, later := [] }

/-- A browser's content process: all its counters are read as zero. -/
theorem counters_lost :
    ¬ CountersExact (lineOf ⟨ascii "Web Content", by decide +kernel⟩)
      (readLine {} 7 (plainFiles {} {}) (lineOf ⟨ascii "Web Content", by decide +kernel⟩)) := by
  rw [counters_of_inner _ _ _ _ (by decide +kernel)]
  intro h
  exact absurd h.minflt (by decide)

theorem comm_exact_iff_pam :
    (readLine {} 7 (plainFiles {} {}) (lineOf ⟨ascii "(sd-pam)", by decide +kernel⟩)).comm =
        ascii "(sd-pam)" ↔
      (ascii "(sd-pam)").length < 15 ∨ (ascii "(sd-pam)").getLast? ≠ some 41 :=
  comm_exact_iff {} 7 (plainFiles {} {}) (lineOf ⟨ascii "(sd-pam)", by decide +kernel⟩)
    (by decide +kernel)

/-- A name of 15 bytes that ends in a parenthesis loses it. -/
theorem paren_lost :
    (readLine {} 7 (plainFiles {} {}) (lineOf ⟨ascii "kworker/0:1-ev)", by decide +kernel⟩)).comm ≠
      ascii "kworker/0:1-ev)" := by
  rw [readLine_comm _ _ _ _ (by decide +kernel)]
  decide +kernel

/-! ## Sizes in kB -/

theorem kbShiftLoop_two_pow : ∀ k shift : ℕ, kbShiftLoop (2 ^ k) shift = shift + k
  | 0, shift => by rw [kbShiftLoop, if_neg (by decide)]; rfl
  | k + 1, shift => by
      have hgt : 2 ^ (k + 1) > 1 := Nat.one_lt_two_pow (Nat.succ_ne_zero k)
      have hhalf : 2 ^ (k + 1) / 2 = 2 ^ k := by rw [Nat.pow_succ, Nat.mul_div_cancel _ (by decide)]
      rw [kbShiftLoop, if_pos hgt, hhalf, kbShiftLoop_two_pow k, Nat.add_right_comm, Nat.add_assoc]

/-- **The shift of a page size** that is a power of two of at least 1 kB. -/
theorem getKbShift_eq (k : ℕ) : getKbShift (1024 * 2 ^ k) = k := by
  have hsize : ((1024 * 2 ^ k : Int) / 1024).toNat = 2 ^ k := by
    rw [Int.mul_ediv_cancel_left _ (by decide)]
    exact Int.toNat_natCast (2 ^ k)
  rw [getKbShift, hsize, kbShiftLoop_two_pow, Nat.zero_add]

/-- The other files leave the sizes alone. -/
theorem readFiles_sizes (conf : Conf) (pid : u32) (f : ProcFiles) :
    (readFiles conf pid f).2.vsz = (readProcPidStat conf pid f {}).2.vsz ∧
      (readFiles conf pid f).2.rss = (readProcPidStat conf pid f {}).2.rss := by
  unfold readFiles readProcPidStatus readProcPidIo
  obtain ⟨ret, pst⟩ := readProcPidStat conf pid f {}
  by_cases hret : ret = 0
  · cases f.status with
    | none => simp [hret]
    | some t => cases f.io <;> simp [hret]
  · simp [hret]

/-- The sizes of a sample whose stat file could be read. -/
theorem storedSample_sizes (conf : Conf) (pid : Pid) {f : ProcFiles} {s : StatScan} (fd : PCFile)
    (hs : f.stat = some s) : (storedSample conf pid f fd).vsz = s.vsz.setWidth 32 >>> 10 ∧
      (storedSample conf pid f fd).rss = s.rss.setWidth 32 <<< conf.kbShift := by
  obtain ⟨dsk, net, hread⟩ := readProcPidStat_some conf pid.val hs
  have hsizes := readFiles_sizes conf pid.val f
  rw [hread] at hsizes
  unfold storedSample
  split
  · exact hsizes
  · exact hsizes

/-- Bytes to kB, through a 32-bit field. -/
theorem toNat_vsz (bytes : u64) :
    (bytes.setWidth 32 >>> 10).toNat = bytes.toNat % 2 ^ 32 / 1024 := by
  rw [BitVec.toNat_ushiftRight, BitVec.toNat_setWidth, Nat.shiftRight_eq_div_pow]

/-- Pages to kB, where the result fits. -/
theorem toNat_rss {pages : u64} {k : ℕ} (h : pages.toNat * 2 ^ k < 2 ^ 32) :
    (pages.setWidth 32 <<< k).toNat = pages.toNat * 2 ^ k := by
  have hle : pages.toNat ≤ pages.toNat * 2 ^ k := Nat.le_mul_of_pos_right _ (Nat.two_pow_pos k)
  rw [BitVec.toNat_shiftLeft, BitVec.toNat_setWidth, Nat.mod_eq_of_lt (hle.trans_lt h),
    Nat.shiftLeft_eq, Nat.mod_eq_of_lt h]

/-- What a row should say about the memory of a process, for pages of `size` bytes. -/
structure SizesExact (size : ℕ) (s : StatScan) (r : ProcessInfo) : Prop where
  vsz : r.vsz.toNat = s.vsz.toNat / 1024
  rss : r.rss.toNat = s.rss.toNat * size / 1024

section Row

variable {conf : Conf} {pid : Pid} {f : ProcFiles} {a : WriteArgs} {e e' : PidEntry}
  {ev : List FdEvent} {w : WriteAcc} {r : ProcessInfo} {s : StatScan}

/-- The sizes of the row written for a sample that has just been read. -/
theorem row_sizes (hstat : f.stat = some s)
    (hread : readEntry conf pid.val f e a.curr = .ok (e', ev))
    (hrow : (writePosition conf a e' w).2.rows = w.rows ++ [r]) :
    r.vsz = s.vsz.setWidth 32 >>> 10 ∧ r.rss = s.rss.setWidth 32 <<< conf.kbShift := by
  have hsample : e'.pstList a.curr = storedSample conf pid f e.fd := by
    rw [readEntry_eq] at hread
    split at hread
    · cases hread
      exact sampledEntry_curr
    · cases hread
  have hrow' : rowOf conf a e' = some r := by
    have hrows := (writePosition_snd conf a e' w).rows
    rw [hrow, List.append_cancel_left_eq] at hrows
    cases h : rowOf conf a e' with
    | none => simp [h] at hrows
    | some r' =>
        rw [h] at hrows
        cases hrows
        rfl
  have hfields : r.vsz = (e'.pstList a.curr).vsz ∧ r.rss = (e'.pstList a.curr).rss := by
    unfold rowOf at hrow'
    split at hrow'
    · cases hrow'
      exact ⟨rfl, rfl⟩
    · cases hrow'
  rw [hsample] at hfields
  obtain ⟨hv, hr⟩ := storedSample_sizes conf pid e.fd hstat
  exact ⟨hfields.1.trans hv, hfields.2.trans hr⟩

/-- **The sizes of a row are right iff the virtual size is below `2 ^ 32` bytes.** The
resident size is right wherever it fits. -/
theorem sizes_exact_iff {k : ℕ} (hconf : conf.kbShift = getKbShift (1024 * 2 ^ k))
    (hstat : f.stat = some s) (hread : readEntry conf pid.val f e a.curr = .ok (e', ev))
    (hrow : (writePosition conf a e' w).2.rows = w.rows ++ [r])
    (hrss : s.rss.toNat * (1024 * 2 ^ k) / 1024 < 2 ^ 32) :
    SizesExact (1024 * 2 ^ k) s r ↔ s.vsz.toNat < 2 ^ 32 := by
  obtain ⟨hv, hr⟩ := row_sizes hstat hread hrow
  have hsize : s.rss.toNat * (1024 * 2 ^ k) / 1024 = s.rss.toNat * 2 ^ k := by
    rw [Nat.mul_left_comm, Nat.mul_div_cancel_left _ (by decide)]
  rw [hconf, getKbShift_eq] at hr
  rw [hsize] at hrss
  constructor
  · rintro ⟨hvsz, -⟩
    rw [hv, toNat_vsz] at hvsz
    omega
  · intro h
    refine ⟨?_, ?_⟩
    · rw [hv, toNat_vsz, Nat.mod_eq_of_lt h]
    · rw [hr, toNat_rss hrss, hsize]

end Row

/-- A process with 5 GB of address space. -/
def hugeFiles : ProcFiles := plainFiles { utime := 30, vsz := 5 * 2 ^ 30, rss := 300 } {}

def hugeArgs : WriteArgs := ⟨true, 0, 100, true⟩

theorem exists_hugeRow : ∃ e' ev r,
    readEntry {} resident.val hugeFiles freshEntry true = .ok (e', ev) ∧
      (writePosition {} hugeArgs e' (.start {} (fun _ => {}) [])).2.rows = [] ++ [r] := by
  have hact : Active hugeArgs (sampledEntry {} resident hugeFiles true freshEntry) := by
    decide +kernel
  have hread := (readEntry_eq {} resident hugeFiles true freshEntry).trans (if_pos (by decide))
  have hrows := (writePosition_snd {} hugeArgs
    (sampledEntry {} resident hugeFiles true freshEntry) (.start {} (fun _ => {}) [])).rows
  rw [rowOf, if_pos hact] at hrows
  exact ⟨_, _, _, hread, hrows⟩

theorem sizes_exact_iff_huge : ∃ e' ev r,
    readEntry {} resident.val hugeFiles freshEntry true = .ok (e', ev) ∧
      (writePosition {} hugeArgs e' (.start {} (fun _ => {}) [])).2.rows = [] ++ [r] ∧
      (SizesExact 4096 { utime := 30, vsz := 5 * 2 ^ 30, rss := 300 } r ↔
        (5 * 2 ^ 30 : u64).toNat < 2 ^ 32) := by
  obtain ⟨e', ev, r, hread, hrow⟩ := exists_hugeRow
  exact ⟨e', ev, r, hread, hrow,
    sizes_exact_iff (a := hugeArgs) (k := 2) (getKbShift_eq 2).symm rfl hread hrow (by decide)⟩

/-- The row shows 1 GB. -/
theorem sizes_truncated : ∃ e' ev r,
    readEntry {} resident.val hugeFiles freshEntry true = .ok (e', ev) ∧
      (writePosition {} hugeArgs e' (.start {} (fun _ => {}) [])).2.rows = [] ++ [r] ∧
      ¬ SizesExact 4096 { utime := 30, vsz := 5 * 2 ^ 30, rss := 300 } r := by
  obtain ⟨e', ev, r, hread, hrow⟩ := exists_hugeRow
  refine ⟨e', ev, r, hread, hrow, ?_⟩
  rintro ⟨hvsz, -⟩
  have hrow := (row_sizes (a := hugeArgs) rfl hread hrow).1
  rw [hrow] at hvsz
  exact absurd hvsz (by decide)

end PTop
