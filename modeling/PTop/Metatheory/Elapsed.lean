import PTop.Framework.UnitText
import PTop.Model.Display
import Mathlib.Algebra.Order.BigOperators.Group.List

/-!
# Elapsed times as `val2elapstr` writes them

`val2elapstr` takes out days, hours and minutes one after another, each only where
more than one whole unit is left, and writes what it takes out. The components add
up to the value, so the string determines the value.

The comparison is strict, so exactly one whole unit stays with the smaller ones:
a day is written `24h`, an hour `60m`, a minute `60s`.
-/

namespace PTop

open Framework

inductive TimeUnit where
  | day | hour | minute | second
deriving DecidableEq

namespace TimeUnit

def secs : TimeUnit → ℕ
  | day => 24 * 60 * 60
  | hour => 60 * 60
  | minute => 60
  | second => 1

def letter : TimeUnit → UInt8
  | day => 'd'.toUInt8
  | hour => 'h'.toUInt8
  | minute => 'm'.toUInt8
  | second => 's'.toUInt8

/-- How many digits the documented form has for a unit. -/
def width : TimeUnit → ℕ
  | day => 3
  | hour | minute | second => 2

/-- A number of units that does not make up one of the next larger. -/
def InRange : TimeUnit → ℕ → Prop
  | day, _ => True
  | hour, n => n ≤ 23
  | minute, n | second, n => n ≤ 59

/-- The units in the order in which they are written. -/
def all : List TimeUnit := [day, hour, minute, second]

theorem secs_pos (u : TimeUnit) : 0 < u.secs := by
  cases u <;> decide

theorem letter_injective : Function.Injective letter := by
  intro u v
  cases u <;> cases v <;> decide

theorem isDigit_letter (u : TimeUnit) : isDigit u.letter = false := by
  cases u <;> decide

end TimeUnit

open TimeUnit

/-- An elapsed time: numbers and their units. -/
abbrev Elapsed := List (ℕ × TimeUnit)

namespace Elapsed

/-- The string for an elapsed time. -/
abbrev text (cs : Elapsed) : CString := unitText letter cs

/-- The seconds of an elapsed time. -/
abbrev total (cs : Elapsed) : ℕ := unitTotal secs cs

/-- Days, hours, minutes and seconds in that order, each at most once. -/
def InOrder (cs : Elapsed) : Prop := (cs.map Prod.snd).Sublist all

/-- How `val2elapstr` breaks up a value. -/
def ofSeconds (v : ℕ) : Elapsed := splitUnits secs second [day, hour, minute] v

theorem text_injective : Function.Injective text :=
  unitText_injective letter_injective isDigit_letter

theorem inOrder_ofSeconds (v : ℕ) : (ofSeconds v).InOrder :=
  splitUnits_sublist [day, hour, minute] v

theorem pos_ofSeconds (v : ℕ) : ∀ c ∈ ofSeconds v, 0 < c.1 :=
  splitUnits_pos secs_pos [day, hour, minute] v

theorem total_ofSeconds (v : ℕ) : (ofSeconds v).total = v :=
  unitTotal_splitUnits (show secs second = 1 from rfl) [day, hour, minute] v

end Elapsed

open Elapsed

/-! ## What is written -/

/-- `val2elapstr` has written `done`, and `rest` seconds are left. -/
structure Written (done : CString) (rest : ℕ) (s : ElapState) : Prop where
  value : s.value = rest
  p : s.p = done.length
  stored : s.strvalue.take done.length = done
  whole : done ≠ [] → s.strvalue = done

theorem written_start (v : ℕ) (strvalue : CString) :
    Written [] v { value := v, p := 0, strvalue := strvalue } :=
  ⟨rfl, rfl, rfl, fun h => absurd rfl h⟩

/-- One `sprintf`, whatever `value` is set to after it. -/
theorem Written.sprintf {done : CString} {rest : ℕ} {s : ElapState} (h : Written done rest s)
    (n : ℕ) (u : TimeUnit) (left : ℕ) :
    Written (done ++ text [(n, u)]) left { s.sprintf n u.letter with value := left } := by
  have htext : integer n ++ [u.letter] = text [(n, u)] := by
    rw [text, unitText, unitText, integer, if_neg (by omega), Int.natAbs_natCast]
  have hall : (s.sprintf n u.letter).strvalue = done ++ text [(n, u)] := by
    simp only [ElapState.sprintf]
    rw [htext, h.p, h.stored]
  refine ⟨rfl, ?_, ?_, fun _ => hall⟩
  · simp only [ElapState.sprintf]
    rw [htext, h.p, List.length_append]
  · show (s.sprintf n u.letter).strvalue.take _ = _
    rw [hall, List.take_length]

/-- **One test.** -/
theorem Written.elapUnit {done : CString} {rest : ℕ} {s : ElapState} (h : Written done rest s)
    (u : TimeUnit) :
    Written (if u.secs < rest then done ++ text [(rest / u.secs, u)] else done)
      (unitRest secs u rest) (elapUnit u.secs u.letter s) := by
  unfold PTop.elapUnit unitRest
  by_cases hlt : u.secs < rest
  · have hgt : s.value > (u.secs : Int) := by rw [h.value]; omega
    rw [if_pos hlt, if_pos hlt, if_pos hgt, h.value, ← Int.ofNat_tdiv, ← Int.ofNat_tmod]
    exact h.sprintf _ u _
  · have hle : ¬ s.value > (u.secs : Int) := by rw [h.value]; omega
    rwa [if_neg hlt, if_neg hlt, if_neg hle]

/-- The last step of `val2elapstr`. -/
def writeSeconds (s : ElapState) : ElapState :=
  if s.value ≠ 0 then s.sprintf s.value 's'.toUInt8 else s

theorem val2elapstr_eq_foldl (value : Int) (strvalue : CString) :
    val2elapstr value strvalue =
      let s := writeSeconds ([day, hour, minute].foldl (fun s u => elapUnit u.secs u.letter s)
        { value := value, p := 0, strvalue := strvalue })
      (s.p, s.strvalue) := rfl

/-- **The tests one after another**, and the seconds. -/
theorem Written.run {done : CString} {rest : ℕ} {s : ElapState} (h : Written done rest s)
    (hne : done ≠ [] ∨ rest ≠ 0) (us : List TimeUnit) :
    let s' := writeSeconds (us.foldl (fun s u => PTop.elapUnit u.secs u.letter s) s)
    s'.p = s'.strvalue.length ∧ s'.strvalue = done ++ text (splitUnits secs second us rest) := by
  induction us generalizing done rest s with
  | nil =>
      dsimp only
      rw [List.foldl_nil, splitUnits, writeSeconds, h.value]
      by_cases h0 : rest = 0
      · have hdone := hne.resolve_right fun hr => hr h0
        rw [if_neg (by omega), if_pos h0, h.whole hdone, text, unitText, List.append_nil]
        exact ⟨h.p, rfl⟩
      · have hs := h.sprintf rest second 0
        have hwhole := hs.whole (by simp [text, unitText])
        rw [if_pos (by omega), if_neg h0]
        exact ⟨hs.p.trans (congrArg List.length hwhole.symm), hwhole⟩
  | cons u us ih =>
      have hstep := h.elapUnit u
      dsimp only
      rw [List.foldl_cons, splitUnits]
      by_cases hlt : u.secs < rest
      · rw [unitRest, if_pos hlt, if_pos hlt] at hstep
        have hrun := ih hstep (Or.inl (by simp [text, unitText]))
        rw [if_pos hlt]
        rw [List.append_assoc, ← unitText_append] at hrun
        exact hrun
      · rw [unitRest, if_neg hlt, if_neg hlt] at hstep
        rw [if_neg hlt]
        exact ih hstep hne

/-- **What `val2elapstr` writes.** -/
theorem val2elapstr_eq {v : ℕ} (hv : v ≠ 0) (strvalue : CString) :
    val2elapstr v strvalue = ((text (ofSeconds v)).length, text (ofSeconds v)) := by
  have hrun := (written_start v strvalue).run (Or.inr hv) [day, hour, minute]
  rw [List.nil_append] at hrun
  rw [val2elapstr_eq_foldl]
  exact Prod.ext (hrun.1.trans (congrArg List.length hrun.2)) hrun.2

/-- **Components that add up to the value**, so that no two values share a string. -/
theorem val2elapstr_components (value : Int) (h : 1 ≤ value) (strvalue : CString) :
    (∃ cs : Elapsed, cs.InOrder ∧ (∀ c ∈ cs, 0 < c.1) ∧ (cs.total : Int) = value ∧
      val2elapstr value strvalue = ((text cs).length, text cs)) ∧
    ∀ value' : Int, 1 ≤ value' → ∀ strvalue' : CString,
      (val2elapstr value strvalue).2 = (val2elapstr value' strvalue').2 → value = value' := by
  obtain ⟨v, rfl⟩ := Int.eq_ofNat_of_zero_le (show 0 ≤ value by omega)
  have heq := val2elapstr_eq (show v ≠ 0 by omega) strvalue
  refine ⟨⟨ofSeconds v, inOrder_ofSeconds v, pos_ofSeconds v, ?_, heq⟩, ?_⟩
  · rw [total_ofSeconds]
  · intro value' h' strvalue' hstr
    obtain ⟨v', rfl⟩ := Int.eq_ofNat_of_zero_le (show 0 ≤ value' by omega)
    rw [heq, val2elapstr_eq (show v' ≠ 0 by omega)] at hstr
    have hcs : ofSeconds v = ofSeconds v' := text_injective hstr
    rw [← total_ofSeconds v, hcs, total_ofSeconds]

theorem val2elapstr_components_day : (∃ cs : Elapsed, cs.InOrder ∧ (∀ c ∈ cs, 0 < c.1) ∧
      (cs.total : Int) = 90061 ∧ val2elapstr 90061 [] = ((text cs).length, text cs)) ∧
    ∀ value' : Int, 1 ≤ value' → ∀ strvalue' : CString,
      (val2elapstr 90061 []).2 = (val2elapstr value' strvalue').2 → 90061 = value' :=
  val2elapstr_components 90061 (by decide) []

/-! ## Normal form -/

namespace Elapsed

/-- No unit makes up one of the next larger. -/
def Normalized (cs : Elapsed) : Prop := ∀ c ∈ cs, c.2.InRange c.1

/-- The form `NNNdNNhNNmNNs`: numbers no wider than that. -/
def Fits (cs : Elapsed) : Prop := ∀ c ∈ cs, (decimal c.1).length ≤ c.2.width

/-- The tests one after another: each leaves less than one of its unit, or exactly one. -/
theorem normalized_ofSeconds_iff_rest (v : ℕ) : (ofSeconds v).Normalized ↔
    unitRest secs day v < day.secs ∧
      unitRest secs hour (unitRest secs day v) < hour.secs ∧
      unitRest secs minute (unitRest secs hour (unitRest secs day v)) < minute.secs := by
  unfold Normalized ofSeconds
  rw [forall_mem_splitUnits_cons, forall_mem_splitUnits_cons, forall_mem_splitUnits_cons,
    forall_mem_splitUnits_nil]
  simp only [InRange, secs, implies_true, true_and]
  omega

/-- **Normal except where exactly one whole unit is left.** -/
theorem normalized_ofSeconds_iff (v : ℕ) : (ofSeconds v).Normalized ↔
    v ≠ day.secs ∧ v % day.secs ≠ hour.secs ∧ v % hour.secs ≠ minute.secs := by
  rw [normalized_ofSeconds_iff_rest, unitRest_lt_iff (secs_pos day),
    unitRest_lt_iff (secs_pos hour), unitRest_lt_iff (secs_pos minute)]
  refine and_congr_right fun hday => ?_
  rw [unitRest_of_ne hday]
  refine and_congr_right fun hhour => ?_
  rw [unitRest_of_ne hhour, Nat.mod_mod_of_dvd v (by decide)]

/-- Below a thousand days every number fits, also where a unit is left over. -/
theorem fits_ofSeconds {v : ℕ} (hv : v < 1000 * day.secs) : (ofSeconds v).Fits := by
  have hd := unitRest_le (secs_pos day) v
  have hh := unitRest_le (secs_pos hour) (unitRest secs day v)
  have hm := unitRest_le (secs_pos minute) (unitRest secs hour (unitRest secs day v))
  have hdigits (u : TimeUnit) {n : ℕ} (hn : n < 10 ^ u.width) : (decimal n).length ≤ u.width :=
    length_decimal_le (by cases u <;> decide) hn
  unfold Fits ofSeconds
  rw [forall_mem_splitUnits_cons, forall_mem_splitUnits_cons, forall_mem_splitUnits_cons,
    forall_mem_splitUnits_nil]
  simp only [secs] at hv hd hh hm
  refine ⟨fun _ => hdigits day ?_, fun _ => hdigits hour ?_, fun _ => hdigits minute ?_,
    fun _ => hdigits second ?_⟩
  all_goals
    simp only [width, secs]
    omega

theorem Fits.length_text_le {cs : Elapsed} (horder : cs.InOrder) (h : cs.Fits) :
    (text cs).length ≤ 13 :=
  (length_unitText_le h).trans
    ((horder.map fun u => u.width + 1).sum_le_sum fun _ _ => Nat.zero_le _)

end Elapsed

/-- A string for a normal elapsed time. -/
def NormalString (s : CString) : Prop := ∃ cs : Elapsed, cs.InOrder ∧ text cs = s ∧ cs.Normalized

/-- A string of the form `NNNdNNhNNmNNs`. -/
def FittingString (s : CString) : Prop := ∃ cs : Elapsed, cs.InOrder ∧ text cs = s ∧ cs.Fits

theorem normalString_text_ofSeconds_iff (v : ℕ) :
    NormalString (text (ofSeconds v)) ↔ (ofSeconds v).Normalized := by
  constructor
  · rintro ⟨cs, -, htext, hnormal⟩
    rwa [← text_injective htext]
  · intro h
    exact ⟨ofSeconds v, inOrder_ofSeconds v, rfl, h⟩

theorem fittingString_text_ofSeconds {v : ℕ} (hv : v < 1000 * day.secs) :
    FittingString (text (ofSeconds v)) ∧ (text (ofSeconds v)).length ≤ 13 :=
  ⟨⟨ofSeconds v, inOrder_ofSeconds v, rfl, fits_ofSeconds hv⟩,
    (fits_ofSeconds hv).length_text_le (inOrder_ofSeconds v)⟩

/-- Normal form, and below a thousand days the form that the comment on `val2elapstr`
gives. -/
def ElapsedOk (value : Int) (s : CString) : Prop :=
  NormalString s ∧ (value < 1000 * DAYSECS → FittingString s ∧ s.length ≤ 13)

/-- **Which values are written in normal form**: all but one day, an hour over whole
days, and a minute over whole hours. -/
theorem val2elapstr_normal_iff (value : Int) (h : 1 ≤ value) (strvalue : CString) :
    ElapsedOk value (val2elapstr value strvalue).2 ↔
      value ≠ DAYSECS ∧ value % DAYSECS ≠ HOURSECS ∧ value % HOURSECS ≠ MINSECS := by
  obtain ⟨v, rfl⟩ := Int.eq_ofNat_of_zero_le (show 0 ≤ value by omega)
  rw [val2elapstr_eq (show v ≠ 0 by omega), ElapsedOk, normalString_text_ofSeconds_iff,
    normalized_ofSeconds_iff]
  simp only [secs, DAYSECS, HOURSECS, MINSECS]
  constructor
  · rintro ⟨hnormal, -⟩
    omega
  · intro hne
    refine ⟨by omega, fun hlt => fittingString_text_ofSeconds ?_⟩
    simp only [secs]
    omega

theorem val2elapstr_normal_iff_day : ElapsedOk 86401 (val2elapstr 86401 []).2 ↔
    (86401 : Int) ≠ DAYSECS ∧ (86401 : Int) % DAYSECS ≠ HOURSECS ∧
      (86401 : Int) % HOURSECS ≠ MINSECS := val2elapstr_normal_iff 86401 (by decide) []

/-- A day is written `24h`. -/
theorem val2elapstr_day : (val2elapstr 86400 []).2 = ascii "24h" ∧
    ¬ ElapsedOk 86400 (val2elapstr 86400 []).2 := by
  have heq := val2elapstr_eq (show 86400 ≠ 0 by decide) []
  have hstr : (val2elapstr 86400 []).2 = text (ofSeconds 86400) := congrArg Prod.snd heq
  refine ⟨by decide +kernel, fun hok => ?_⟩
  rw [hstr] at hok
  have hnormal := (normalized_ofSeconds_iff 86400).mp ((normalString_text_ofSeconds_iff _).mp hok.1)
  exact hnormal.1 rfl

end PTop
