import Mathlib.Algebra.BigOperators.Field
import Mathlib.Algebra.BigOperators.Ring.Finset
import Mathlib.Algebra.Order.BigOperators.Group.Finset
import Mathlib.Tactic.FieldSimp
import Mathlib.Tactic.Positivity
import PTop.Framework.LastWriter
import PTop.Metatheory.Runs

/-!
# The shared array of frequency ticks

`read_cpufreq_stats` reads the `time_in_state` file of every CPU into one array
of 16 entries, clears the counts before it starts and weighs the differences to
the call before. A count therefore is that of the CPU read last, and which one
that is depends on `readdir`.
-/

namespace PTop

open Framework

/-! ## What the array shows -/

/-- The files that open. -/
def openedTables (dirs : List (Option FreqTable)) : List FreqTable := dirs.filterMap id

/-- The ticks in line `i` of a file. -/
def tableTicks (t : FreqTable) (i : ℕ) : Option u64 := (t[i]?).map Prod.snd

/-- What entry `i` shows after these directories: the line of the last file that has one. -/
def shownTicks (dirs : List (Option FreqTable)) (i : ℕ) : Option u64 :=
  lastWrite ((openedTables dirs).map tableTicks) i

/-- The entries kept of the last file that opens. -/
def lastEntries (dirs : List (Option FreqTable)) : Option ℕ :=
  (openedTables dirs).getLast?.map fun t => min 16 t.length

theorem lastEntries_le {dirs : List (Option FreqTable)} {n : ℕ} (h : lastEntries dirs = some n) :
    n ≤ 16 := by
  obtain ⟨t, -, rfl⟩ := Option.map_eq_some_iff.mp h
  exact Nat.min_le_left 16 _

theorem storeTable_length (lines : FreqTable) (i : ℕ) (freqs : ℕ → CpuFreqData) (hi : i ≤ 15) :
    (storeTable lines i freqs).2 = min 16 (i + lines.length) := by
  induction lines generalizing i freqs with
  | nil =>
      show i = min 16 (i + 0)
      omega
  | cons line lines ih =>
      rw [storeTable, List.length_cons]
      split
      · show i + 1 = _
        omega
      · rw [ih (i + 1) _ (by omega)]
        omega

theorem storeTable_count (lines : FreqTable) (i : ℕ) (freqs : ℕ → CpuFreqData) (hi : i ≤ 15)
    {j : ℕ} (hj : j ≤ 15) : ((storeTable lines i freqs).1 j).count =
      if i ≤ j then (tableTicks lines (j - i)).getD (freqs j).count else (freqs j).count := by
  induction lines generalizing i freqs with
  | nil =>
      show (freqs j).count = if i ≤ j then (freqs j).count else (freqs j).count
      rw [ite_self]
  | cons line lines ih =>
      obtain ⟨frequency, count⟩ := line
      have hhere : ∀ rest : ℕ → CpuFreqData, (∀ k ≤ i, rest k = Function.update freqs i
          ⟨frequency, count⟩ k) → j ≤ i → (rest j).count =
            if i ≤ j then (tableTicks ((frequency, count) :: lines) (j - i)).getD (freqs j).count
            else (freqs j).count := by
        intro rest hrest hji
        rw [hrest j hji]
        rcases hji.eq_or_lt with rfl | hlt
        · rw [Function.update_self, if_pos le_rfl, Nat.sub_self]
          rfl
        · rw [Function.update_of_ne hlt.ne, if_neg (Nat.not_le.mpr hlt)]
      rw [storeTable]
      split
      · -- the array is full
        exact hhere _ (fun k _ => rfl) (by omega)
      · rw [ih (i + 1) _ (by omega)]
        rcases Nat.lt_or_ge i j with hlt | hle
        · have hsub : j - i = (j - (i + 1)) + 1 := by omega
          rw [if_pos (show i + 1 ≤ j from hlt), if_pos hlt.le, hsub, Function.update_of_ne hlt.ne']
          rfl
        · rw [if_neg (Nat.not_le.mpr (Nat.lt_succ_of_le hle))]
          exact hhere _ (fun k _ => rfl) hle

theorem storeTables_count (dirs : List (Option FreqTable)) (maxfreq : Int)
    (freqs : ℕ → CpuFreqData) {j : ℕ} (hj : j ≤ 15) :
    ((storeTables dirs maxfreq freqs).1 j).count = (shownTicks dirs j).getD (freqs j).count := by
  induction dirs generalizing maxfreq freqs with
  | nil => rfl
  | cons file dirs ih =>
      cases file with
      | none => exact ih maxfreq freqs
      | some lines =>
          have hlines := storeTable_count lines 0 freqs (Nat.zero_le 15) hj
          rw [if_pos (Nat.zero_le j), Nat.sub_zero] at hlines
          rw [storeTables, ih, hlines]
          show _ = ((shownTicks dirs j).or (tableTicks lines j)).getD _
          cases shownTicks dirs j <;> rfl

theorem storeTables_maxfreq (dirs : List (Option FreqTable)) (maxfreq : Int)
    (freqs : ℕ → CpuFreqData) : (storeTables dirs maxfreq freqs).2 =
      ((lastEntries dirs).map fun n : ℕ => (n : Int) - 1).getD maxfreq := by
  induction dirs generalizing maxfreq freqs with
  | nil => rfl
  | cons file dirs ih =>
      cases file with
      | none => exact ih maxfreq freqs
      | some lines =>
          rw [storeTables, ih, storeTable_length lines 0 freqs (Nat.zero_le 15), Nat.zero_add]
          show _ = ((((lines :: openedTables dirs).getLast?).map _).map _).getD _
          rw [lastEntries, List.getLast?_cons]
          cases (openedTables dirs).getLast? <;> rfl

/-! ## The power of a call -/

/-- The power at entry `i` of a table with `n` entries, in Watt. -/
def entryPower (conf : Conf) (n i : ℕ) : ℚ :=
  conf.maxcpupower - (conf.maxcpupower - conf.mincpupower) * i / (n - 1)

/-- The weighted ticks of a table with `n` entries; a table with one entry, and ticks
whose 64-bit sum is zero, count for nothing. -/
def tickPower (conf : Conf) (n : ℕ) (delta : ℕ → u64) : ℚ :=
  if 2 ≤ n ∧ ∑ i ∈ Finset.range 16, delta i ≠ 0 then
    conf.float.sum ((List.range n).map fun i => deltaPower conf ((n : Int) - 1) i (delta i))
  else 0

/-- Only the 16 entries of the array count. -/
theorem tickPower_congr (conf : Conf) {n : ℕ} (hn : n ≤ 16) {delta delta' : ℕ → u64}
    (h : ∀ i < 16, delta i = delta' i) : tickPower conf n delta = tickPower conf n delta' := by
  have htotal : ∑ i ∈ Finset.range 16, delta i = ∑ i ∈ Finset.range 16, delta' i :=
    Finset.sum_congr rfl fun i hi => h i (Finset.mem_range.mp hi)
  have hweighted : (List.range n).map (fun i => deltaPower conf ((n : Int) - 1) i (delta i)) =
      (List.range n).map fun i => deltaPower conf ((n : Int) - 1) i (delta' i) := by
    refine List.map_congr_left fun i hi => ?_
    rw [h i ((List.mem_range.mp hi).trans_le hn)]
  rw [tickPower, tickPower, htotal, hweighted]

theorem sum_range_eq {M : Type*} [AddCommMonoid M] (f : ℕ → M) (n : ℕ) :
    ((List.range n).map f).sum = ∑ i ∈ Finset.range n, f i := by
  induction n with
  | zero => rfl
  | succ n ih => rw [Finset.sum_range_succ, ← ih, List.sum_range_succ]

/-- Without rounding, the ticks are weighted with the powers and added up. -/
theorem tickPower_exact (conf : Conf) (n : ℕ) (delta : ℕ → u64) : tickPower conf.exact n delta =
    if 2 ≤ n ∧ ∑ i ∈ Finset.range 16, delta i ≠ 0 then
      (∑ i ∈ Finset.range n, entryPower conf n i * (delta i).toNat) / 100
    else 0 := by
  have hterm : ∀ i, deltaPower conf.exact ((n : Int) - 1) i (delta i) =
      entryPower conf n i * (delta i).toNat / 100 := by
    intro i
    have hcast : (((n : Int) - 1 : Int) : ℚ) = n - 1 := by push_cast; rfl
    rw [entryPower, ← hcast]
    rfl
  have hsum := Rounding.exact_sum ((List.range n).map fun i =>
    entryPower conf n i * (delta i).toNat / 100)
  rw [sum_range_eq, ← Finset.sum_div] at hsum
  rw [tickPower]
  simp only [hterm]
  rw [← hsum]
  rfl

theorem powerOfDelta_eq (conf : Conf) (n : ℕ) (totalTime : u64) (delta : ℕ → u64) :
    powerOfDelta conf ((n : Int) - 1) totalTime delta =
      if 2 ≤ n ∧ totalTime ≠ 0 then
        conf.float.sum ((List.range n).map fun i => deltaPower conf ((n : Int) - 1) i (delta i))
      else 0 := by
  have hlen : ((n : Int) - 1 + 1).toNat = n := by omega
  have hpos : totalTime > 0 ↔ totalTime ≠ 0 := BitVec.pos_iff_ne_zero totalTime
  have hguard : (totalTime > 0 ∧ (n : Int) - 1 > 0) ↔ 2 ≤ n ∧ totalTime ≠ 0 := by
    rw [hpos, and_comm]
    exact and_congr_left fun _ => by omega
  unfold powerOfDelta
  rw [hlen]
  simp only [hguard]
  split
  · rfl
  · refine Rounding.sum_eq_zero _ fun x hx => ?_
    obtain ⟨i, -, rfl⟩ := List.mem_map.mp hx
    rfl

/-- **The array after a call**, whatever it was before. -/
theorem readCpufreqStats_count {conf : Conf} (hconf : conf.cpufreqStats = true)
    (dirs : Option (List (Option FreqTable))) (freqs : ℕ → CpuFreqData) (sy : SysInfo) {j : ℕ}
    (hj : j ≤ 15) : ((readCpufreqStats conf dirs freqs sy).1 j).count =
      (dirs.bind fun l => shownTicks l j).getD 0 := by
  rw [readCpufreqStats, if_neg (by simp [hconf])]
  cases dirs with
  | none => rfl
  | some l => exact storeTables_count l 0 _ hj

/-- **The power a call computes.** -/
theorem readCpufreqStats_power {conf : Conf} (hconf : conf.cpufreqStats = true)
    (dirs : Option (List (Option FreqTable))) (freqs : ℕ → CpuFreqData) (sy : SysInfo) :
    (readCpufreqStats conf dirs freqs sy).2.cpupower =
      tickPower conf ((dirs.bind lastEntries).getD 0)
        fun j => (dirs.bind fun l => shownTicks l j).getD 0 - (freqs j).count := by
  rw [readCpufreqStats, if_neg (by simp [hconf])]
  cases dirs with
  | none => exact (if_neg (by simp)).symm
  | some l =>
      have hcount : ∀ j < 16, ((storeTables l 0 fun i => { freqs i with count := 0 }).1 j).count -
          (freqs j).count = (shownTicks l j).getD 0 - (freqs j).count := by
        intro j hj
        rw [storeTables_count l 0 _ (Nat.le_of_lt_succ hj)]
      show powerOfDelta conf (storeTables l 0 _).2 _ _ = tickPower conf ((lastEntries l).getD 0) _
      rw [storeTables_maxfreq, sum_range_eq]
      cases hlast : lastEntries l with
      | none =>
          -- no file opens: `maxfreq` is still zero
          refine (powerOfDelta_eq conf 1 _ _).trans ?_
          rw [if_neg (by simp), tickPower, if_neg (by simp)]
      | some n =>
          refine (powerOfDelta_eq conf n _ _).trans ?_
          exact tickPower_congr conf (lastEntries_le hlast) hcount

/-! ## The order of the directories -/

/-- The `cpupower` of the second of two successive samples. -/
def secondPower (conf : Conf) (freqs : ℕ → CpuFreqData) (sy sy' : SysInfo)
    (dirs dirs' : List (Option FreqTable)) : ℚ :=
  (readCpufreqStats conf (some dirs') (readCpufreqStats conf (some dirs) freqs sy).1 sy').2.cpupower

/-- `cpupower` is the same whatever order the directories come in, in either sample. -/
def OrderIndependent (conf : Conf) (freqs : ℕ → CpuFreqData) (sy sy' : SysInfo)
    (dirs dirs' : List (Option FreqTable)) : Prop :=
  ∀ l l', dirs.Perm l → dirs'.Perm l' →
    secondPower conf freqs sy sy' l l' = secondPower conf freqs sy sy' dirs dirs'

/-- All files that open show the same ticks. -/
def Agree (dirs : List (Option FreqTable)) : Prop :=
  ∀ t ∈ openedTables dirs, ∀ t' ∈ openedTables dirs,
    (t.take 16).map Prod.snd = (t'.take 16).map Prod.snd

instance (dirs : List (Option FreqTable)) : Decidable (Agree dirs) :=
  inferInstanceAs (Decidable (∀ t ∈ openedTables dirs, ∀ t' ∈ openedTables dirs, _ = _))

/-- The weighted ticks from one table to another. -/
def powerBetween (conf : Conf) (t t' : FreqTable) : ℚ :=
  tickPower conf (min 16 t'.length) fun i => (tableTicks t' i).getD 0 - (tableTicks t i).getD 0

theorem openedTables_perm {dirs dirs' : List (Option FreqTable)} (h : dirs.Perm dirs') :
    (openedTables dirs).Perm (openedTables dirs') := h.filterMap id

theorem secondPower_eq {conf : Conf} (hconf : conf.cpufreqStats = true) (freqs : ℕ → CpuFreqData)
    (sy sy' : SysInfo) (dirs dirs' : List (Option FreqTable)) :
    secondPower conf freqs sy sy' dirs dirs' = tickPower conf ((lastEntries dirs').getD 0)
      fun i => (shownTicks dirs' i).getD 0 - (shownTicks dirs i).getD 0 := by
  rw [secondPower, readCpufreqStats_power hconf]
  show tickPower conf ((lastEntries dirs').getD 0) _ = _
  refine tickPower_congr conf ?_ fun i hi => ?_
  · cases h : lastEntries dirs' with
    | none => exact Nat.zero_le 16
    | some n => exact lastEntries_le h
  · rw [readCpufreqStats_count hconf _ _ _ (Nat.le_of_lt_succ hi)]
    rfl

theorem secondPower_unsupported {conf : Conf} (hconf : conf.cpufreqStats = false)
    (freqs : ℕ → CpuFreqData) (sy sy' : SysInfo) (dirs dirs' : List (Option FreqTable)) :
    secondPower conf freqs sy sy' dirs dirs' = 0 := by
  rw [secondPower, readCpufreqStats, if_pos hconf]

/-- Tables that agree are indistinguishable in the array. -/
theorem shown_of_agree {dirs : List (Option FreqTable)} (h : Agree dirs) {t : FreqTable}
    (ht : t ∈ openedTables dirs) :
    (∀ i < 16, shownTicks dirs i = tableTicks t i) ∧ lastEntries dirs = some (min 16 t.length) := by
  have hne : openedTables dirs ≠ [] := List.ne_nil_of_mem ht
  constructor
  · intro i hi
    refine lastWrite_of_agree (by simpa using hne) fun w hw => ?_
    obtain ⟨t', ht', rfl⟩ := List.mem_map.mp hw
    have hline := congrArg (fun l : List u64 => l[i]?) (h t' ht' t ht)
    simpa only [tableTicks, List.getElem?_map, List.getElem?_take_of_lt hi] using hline
  · obtain ⟨t', ht'⟩ := Option.ne_none_iff_exists'.mp
      (mt List.getLast?_eq_none_iff.mp hne)
    have hlen := congrArg List.length (h t' (List.mem_of_getLast? ht') t ht)
    rw [List.length_map, List.length_map, List.length_take, List.length_take] at hlen
    rw [lastEntries, ht']
    exact congrArg some hlen

/-- **Agreeing tables show the same in every order.** -/
theorem Agree.shown_perm {dirs dirs' : List (Option FreqTable)} (h : Agree dirs)
    (hperm : dirs.Perm dirs') :
    (∀ i < 16, shownTicks dirs' i = shownTicks dirs i) ∧ lastEntries dirs' = lastEntries dirs := by
  have hopened := openedTables_perm hperm
  rcases eq_or_ne (openedTables dirs) [] with hnil | hne
  · have hnil' : openedTables dirs' = [] := List.nil_perm.mp (hnil ▸ hopened)
    constructor
    · intro i _
      rw [shownTicks, shownTicks, hnil, hnil']
    · rw [lastEntries, lastEntries, hnil, hnil']
  · obtain ⟨t, ht⟩ := List.exists_mem_of_ne_nil _ hne
    have h' : Agree dirs' := fun u hu u' hu' =>
      h u (hopened.mem_iff.mpr hu) u' (hopened.mem_iff.mpr hu')
    obtain ⟨hshown, hlast⟩ := shown_of_agree h ht
    obtain ⟨hshown', hlast'⟩ := shown_of_agree h' (hopened.mem_iff.mp ht)
    constructor
    · intro i hi
      rw [hshown i hi, hshown' i hi]
    · rw [hlast, hlast']

/-- **The last of the longest tables is what is shown.** -/
theorem shown_of_last {dirs : List (Option FreqTable)} {ts : List FreqTable} {t : FreqTable}
    (hopened : openedTables dirs = ts ++ [t]) (hts : ∀ t' ∈ ts, t'.length ≤ t.length) :
    (∀ i, shownTicks dirs i = tableTicks t i) ∧ lastEntries dirs = some (min 16 t.length) := by
  constructor
  · intro i
    rw [shownTicks, hopened, List.map_append, List.map_singleton, lastWrite_concat]
    cases ht : tableTicks t i with
    | some v => rfl
    | none =>
        -- then no other table has a line `i` either
        rw [Option.none_or, Option.eq_none_iff_forall_ne_some]
        intro v hv
        obtain ⟨w, hw, hwi⟩ := mem_of_lastWrite hv
        obtain ⟨t', ht', rfl⟩ := List.mem_map.mp hw
        rw [tableTicks, Option.map_eq_none_iff, List.getElem?_eq_none_iff] at ht
        rw [tableTicks, List.getElem?_eq_none_iff.mpr ((hts t' ht').trans ht)] at hwi
        cases hwi
  · rw [lastEntries, hopened, List.getLast?_concat]
    rfl

/-- Any table that opens can be the last one. -/
theorem exists_perm_last {dirs : List (Option FreqTable)} {t : FreqTable}
    (ht : t ∈ openedTables dirs) :
    ∃ l ts, dirs.Perm l ∧ openedTables l = ts ++ [t] ∧ ∀ t' ∈ ts, t' ∈ openedTables dirs := by
  have hfile : some t ∈ dirs := by
    obtain ⟨file, hfile, hid⟩ := List.mem_filterMap.mp ht
    exact hid ▸ hfile
  obtain ⟨before, after, rfl⟩ := List.append_of_mem hfile
  refine ⟨(before ++ after) ++ [some t], openedTables (before ++ after), ?_, ?_, ?_⟩
  · exact List.perm_middle.trans (List.perm_append_singleton _ _).symm
  · exact List.filterMap_append
  · intro t' ht'
    have hsub : (before ++ after).Sublist (before ++ some t :: after) :=
      (List.Sublist.refl before).append (List.sublist_cons_self _ _)
    exact (hsub.filterMap id).subset ht'

section Order

variable {conf : Conf} {freqs : ℕ → CpuFreqData} {sy sy' : SysInfo}
  {dirs dirs' : List (Option FreqTable)}

/-- No difference can be seen if the tables agree within each sample. -/
theorem orderIndependent_of_agree (h : Agree dirs) (h' : Agree dirs') :
    OrderIndependent conf freqs sy sy' dirs dirs' := by
  intro l l' hl hl'
  by_cases hconf : conf.cpufreqStats = true
  · obtain ⟨hshown, -⟩ := h.shown_perm hl
    obtain ⟨hshown', hlast'⟩ := h'.shown_perm hl'
    rw [secondPower_eq hconf, secondPower_eq hconf, hlast']
    refine tickPower_congr conf ?_ fun i hi => ?_
    · cases hn : lastEntries dirs' with
      | none => exact Nat.zero_le 16
      | some n => exact lastEntries_le hn
    · rw [hshown i hi, hshown' i hi]
  · rw [Bool.not_eq_true] at hconf
    rw [secondPower_unsupported hconf, secondPower_unsupported hconf]

/-- A sample without a table of two entries has no power. -/
theorem secondPower_of_short (h : ∀ t ∈ openedTables dirs', t.length ≤ 1) :
    secondPower conf freqs sy sy' dirs dirs' = 0 := by
  by_cases hconf : conf.cpufreqStats = true
  · rw [secondPower_eq hconf, tickPower, if_neg]
    rintro ⟨hn, -⟩
    cases hlast : lastEntries dirs' with
    | none =>
        rw [hlast] at hn
        exact absurd hn (by decide)
    | some n =>
        obtain ⟨t, ht, rfl⟩ := Option.map_eq_some_iff.mp hlast
        rw [hlast] at hn
        have hlen := h t (List.mem_of_getLast? ht)
        have hmin := Nat.min_le_right 16 t.length
        exact absurd (hn.trans (hmin.trans hlen)) (by decide)
  · rw [Bool.not_eq_true] at hconf
    exact secondPower_unsupported hconf ..

/-- With tables of one length, the last table of each sample decides. -/
theorem secondPower_of_last (hconf : conf.cpufreqStats = true) {ts ts' : List FreqTable}
    {t t' : FreqTable} (h : openedTables dirs = ts ++ [t]) (h' : openedTables dirs' = ts' ++ [t'])
    (hts : ∀ u ∈ ts, u.length ≤ t.length) (hts' : ∀ u ∈ ts', u.length ≤ t'.length) :
    secondPower conf freqs sy sy' dirs dirs' = powerBetween conf t t' := by
  obtain ⟨hshown, -⟩ := shown_of_last h hts
  obtain ⟨hshown', hlast'⟩ := shown_of_last h' hts'
  rw [secondPower_eq hconf, hlast']
  show tickPower conf (min 16 t'.length) _ = _
  simp only [hshown, hshown']
  rfl

section OneLength

variable {n : ℕ}

/-- With tables of one length, each pair of them is what some order shows. -/
theorem exists_order_of_pair (hconf : conf.cpufreqStats = true)
    (hlen : ∀ t ∈ openedTables dirs, t.length = n) (hlen' : ∀ t ∈ openedTables dirs', t.length = n)
    {t t' : FreqTable} (ht : t ∈ openedTables dirs) (ht' : t' ∈ openedTables dirs') :
    ∃ l l', dirs.Perm l ∧ dirs'.Perm l' ∧
      secondPower conf freqs sy sy' l l' = powerBetween conf t t' := by
  obtain ⟨l, ts, hl, hopened, hts⟩ := exists_perm_last ht
  obtain ⟨l', ts', hl', hopened', hts'⟩ := exists_perm_last ht'
  refine ⟨l, l', hl, hl', secondPower_of_last hconf hopened hopened' (fun u hu => ?_)
    fun u hu => ?_⟩
  · rw [hlen u (hts u hu), hlen t ht]
  · rw [hlen' u (hts' u hu), hlen' t' ht']

variable (freqs sy sy') in
/-- And each order shows some pair of them. -/
theorem exists_pair_of_order (hconf : conf.cpufreqStats = true)
    (hlen : ∀ t ∈ openedTables dirs, t.length = n) (hlen' : ∀ t ∈ openedTables dirs', t.length = n)
    (hne : openedTables dirs ≠ []) (hne' : openedTables dirs' ≠ []) :
    ∃ t ∈ openedTables dirs, ∃ t' ∈ openedTables dirs',
      secondPower conf freqs sy sy' dirs dirs' = powerBetween conf t t' := by
  rcases List.eq_nil_or_concat' (openedTables dirs) with hnil | ⟨ts, t, hopened⟩
  · exact absurd hnil hne
  rcases List.eq_nil_or_concat' (openedTables dirs') with hnil | ⟨ts', t', hopened'⟩
  · exact absurd hnil hne'
  have ht : t ∈ openedTables dirs := by simp [hopened]
  have ht' : t' ∈ openedTables dirs' := by simp [hopened']
  refine ⟨t, ht, t', ht', secondPower_of_last hconf hopened hopened' (fun u hu => ?_)
    fun u hu => ?_⟩
  · rw [hlen u (by simp [hopened, hu]), hlen t ht]
  · rw [hlen' u (by simp [hopened', hu]), hlen' t' ht']

/-- **With tables of one length the order is irrelevant iff all tables weigh the same.** -/
theorem orderIndependent_iff (hconf : conf.cpufreqStats = true)
    (hlen : ∀ t ∈ openedTables dirs ++ openedTables dirs', t.length = n)
    (hne : openedTables dirs ≠ []) :
    OrderIndependent conf freqs sy sy' dirs dirs' ↔
      ∀ t ∈ openedTables dirs, ∀ u ∈ openedTables dirs, ∀ t' ∈ openedTables dirs',
        ∀ u' ∈ openedTables dirs', powerBetween conf t t' = powerBetween conf u u' := by
  have hle : ∀ t ∈ openedTables dirs, t.length = n :=
    fun t ht => hlen t (List.mem_append_left _ ht)
  have hle' : ∀ t ∈ openedTables dirs', t.length = n :=
    fun t ht => hlen t (List.mem_append_right _ ht)
  constructor
  · intro h t ht u hu t' ht' u' hu'
    obtain ⟨l, l', hl, hl', heq⟩ := exists_order_of_pair hconf hle hle' ht ht'
    obtain ⟨k, k', hk, hk', heq'⟩ := exists_order_of_pair hconf hle hle' hu hu'
    rw [← heq, ← heq', h l l' hl hl', h k k' hk hk']
  · intro h l l' hl hl'
    have hopened := openedTables_perm hl
    have hopened' := openedTables_perm hl'
    rcases eq_or_ne (openedTables dirs') [] with hnil | hne'
    · have hnil' : openedTables l' = [] := List.nil_perm.mp (hnil ▸ hopened')
      rw [secondPower_of_short fun t ht => absurd (hnil' ▸ ht) List.not_mem_nil,
        secondPower_of_short fun t ht => absurd (hnil ▸ ht) List.not_mem_nil]
    · obtain ⟨u, hu, u', hu', heq⟩ :=
        exists_pair_of_order freqs sy sy' hconf hle hle' hne hne'
      obtain ⟨t, ht, t', ht', heq'⟩ := exists_pair_of_order freqs sy sy' hconf
        (fun t ht => hle t (hopened.mem_iff.mpr ht)) (fun t ht => hle' t (hopened'.mem_iff.mpr ht))
        (fun hnil => hne (hnil ▸ hopened).eq_nil) fun hnil => hne' (hnil ▸ hopened').eq_nil
      rw [heq, heq']
      exact h t (hopened.mem_iff.mpr ht) u hu t' (hopened'.mem_iff.mpr ht') u' hu'

end OneLength

end Order

/-- **When `cpupower` does not depend on `readdir`**: if the tables agree within each
sample, or the second sample has no table of two entries; and, for tables of one length,
exactly if any of the first sample weighs the same against any of the second. -/
theorem cpupower_order_independent (conf : Conf) (freqs : ℕ → CpuFreqData) (sy sy' : SysInfo)
    (dirs dirs' : List (Option FreqTable)) :
    ((Agree dirs ∧ Agree dirs' ∨ ∀ t ∈ openedTables dirs', t.length ≤ 1) →
      OrderIndependent conf freqs sy sy' dirs dirs') ∧
    ((conf.cpufreqStats = true ∧ openedTables dirs ≠ [] ∧
        ∃ n, ∀ t ∈ openedTables dirs ++ openedTables dirs', t.length = n) →
      (OrderIndependent conf freqs sy sy' dirs dirs' ↔
        ∀ t ∈ openedTables dirs, ∀ u ∈ openedTables dirs, ∀ t' ∈ openedTables dirs',
          ∀ u' ∈ openedTables dirs', powerBetween conf t t' = powerBetween conf u u')) := by
  constructor
  · rintro (⟨h, h'⟩ | hshort)
    · exact orderIndependent_of_agree h h'
    · intro l l' _ hl'
      have hshort' : ∀ t ∈ openedTables l', t.length ≤ 1 :=
        fun t ht => hshort t ((openedTables_perm hl').mem_iff.mpr ht)
      rw [secondPower_of_short hshort, secondPower_of_short hshort']
  · rintro ⟨hconf, hne, n, hlen⟩
    exact orderIndependent_iff hconf hlen hne

/-- A processor at its highest frequency and one at its lowest, ten ticks apart. -/
def fastAndSlow : List (Option FreqTable) × List (Option FreqTable) :=
  ([some [(2000, 10), (1000, 0)], some [(2000, 0), (1000, 10)]],
    [some [(2000, 20), (1000, 0)], some [(2000, 0), (1000, 20)]])

theorem cpupower_order_independent_oneCpu :
    OrderIndependent { cpufreqStats := true } (fun _ => {}) {} {}
        (fastAndSlow.1.take 1) (fastAndSlow.2.take 1) ∧
      (OrderIndependent { cpufreqStats := true } (fun _ => {}) {} {} fastAndSlow.1 fastAndSlow.2 ↔
        ∀ t ∈ openedTables fastAndSlow.1, ∀ u ∈ openedTables fastAndSlow.1,
          ∀ t' ∈ openedTables fastAndSlow.2, ∀ u' ∈ openedTables fastAndSlow.2,
            powerBetween { cpufreqStats := true } t t' =
              powerBetween { cpufreqStats := true } u u') :=
  ⟨(cpupower_order_independent _ _ _ _ _ _).1 (Or.inl ⟨by decide, by decide⟩),
    (cpupower_order_independent _ _ _ _ _ _).2 ⟨rfl, by decide, 2, by decide⟩⟩

/-- The same two samples, with the directories in the other order. -/
theorem cpupower_depends_on_readdir :
    fastAndSlow.1.Perm fastAndSlow.1.reverse ∧ fastAndSlow.2.Perm fastAndSlow.2.reverse ∧
      secondPower { cpufreqStats := true } (fun _ => {}) {} {} fastAndSlow.1 fastAndSlow.2 =
        Rounding.single (6 / 10) ∧
      secondPower { cpufreqStats := true } (fun _ => {}) {} {} fastAndSlow.1.reverse
        fastAndSlow.2.reverse = Rounding.single (245 / 100) ∧
      ¬ OrderIndependent { cpufreqStats := true } (fun _ => {}) {} {} fastAndSlow.1
        fastAndSlow.2 := by
  have hperm := (List.reverse_perm fastAndSlow.1).symm
  have hperm' := (List.reverse_perm fastAndSlow.2).symm
  have hpower : secondPower { cpufreqStats := true } (fun _ => {}) {} {} fastAndSlow.1
      fastAndSlow.2 = Rounding.single (6 / 10) := by decide +kernel
  have hpower' : secondPower { cpufreqStats := true } (fun _ => {}) {} {} fastAndSlow.1.reverse
      fastAndSlow.2.reverse = Rounding.single (245 / 100) := by decide +kernel
  refine ⟨hperm, hperm', hpower, hpower', fun h => ?_⟩
  have heq := h _ _ hperm hperm'
  rw [hpower, hpower'] at heq
  have hne : Rounding.single (245 / 100) ≠ Rounding.single (6 / 10) := by decide +kernel
  exact hne heq

end PTop
