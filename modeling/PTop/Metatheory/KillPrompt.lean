import PTop.Model.Display

/-!
# The pid that `kill` is called with

The prompt accepts up to fifteen digits, `atol` reads them into a `long`, and the
assignment to `killpid` keeps the low 32 bits. The test for 0, -1 and 1 comes
after that. So the pid passed to `kill` is the number typed exactly below `2 ^ 31`.
-/

namespace PTop

open Framework

/-- Text typed at the pid prompt: as many bytes as `getnumval` reads, none blank. -/
abbrev PidText := { t : CString // t.length ≤ 15 ∧ ∀ b ∈ t, isSpace b = false }

/-- The text reaches `numval` as it was typed. -/
theorem numval_pidText (t : PidText) : wordAt (scanf (format "%15s") t.val) 0 = t.val := by
  rcases t with ⟨t, hlen, hspace⟩
  have hformat : format "%15s" = [.word (some 15) true] := by decide
  have hskip : skipBlank t = t := by
    cases t with
    | nil => rfl
    | cons b t => exact dropWhile_of_endsSpan (endsSpan_cons t (hspace b List.mem_cons_self))
  have hspan : t.takeWhile (fun b => !isSpace b) = t := by
    rw [List.takeWhile_eq_self_iff]
    intro b hb
    rw [hspace b hb]
    rfl
  have hword : scanWord (some 15) t = if t = [] then none else some (t, []) := by
    simp only [scanWord, hskip, hspan, List.take_of_length_le hlen, List.drop_length]
  rw [hformat]
  by_cases hnil : t = []
  · subst hnil
    rfl
  · rw [if_neg hnil] at hword
    rw [scanf_word_some [] hword]
    rfl

/-- Fifteen digits stay far below the clamp of `atol`. -/
theorem atol_digits {t : PidText} (hne : t.val ≠ []) (hnum : numeric t.val = true) :
    atol t.val = digitsValue t.val := by
  have hdigits : ∀ b ∈ t.val, isDigit b = true := by
    simpa only [numeric, List.all_eq_true] using hnum
  have hlt : digitsValue t.val < 10 ^ 15 :=
    (digitsValue_lt t.val hdigits).trans_le (Nat.pow_le_pow_right (by decide) t.property.1)
  have hscan := scanInt_digits (s := []) hne hdigits (by simp [EndsSpan])
  rw [List.append_nil] at hscan
  rw [atol, hscan]
  show max (-2 ^ 63) (min (digitsValue t.val : Int) (2 ^ 63 - 1)) = _
  rw [min_eq_left (by omega), max_eq_right (by omega)]

/-- `getnumval` returns the number typed, and the default if there is none. -/
theorem getnumval_pidText (t : PidText) : getnumval t.val 0 =
    if t.val ≠ [] ∧ numeric t.val = true then (digitsValue t.val : Int) else 0 := by
  have hget : getnumval t.val 0 =
      if t.val ≠ [] then (if numeric t.val then atol t.val else 0) else 0 := by
    unfold getnumval
    rw [numval_pidText]
  rw [hget]
  by_cases hnil : t.val ≠ []
  · by_cases hnum : numeric t.val = true
    · rw [if_pos hnil, if_pos hnum, if_pos ⟨hnil, hnum⟩, atol_digits hnil hnum]
    · rw [if_pos hnil, if_neg hnum, if_neg fun h => hnum h.2]
  · rw [if_neg hnil, if_neg fun h => hnil h.1]

/-- The low 32 bits, as a signed number. -/
theorem toInt32_natCast (v : ℕ) :
    toInt32 v = if v % 2 ^ 32 < 2 ^ 31 then ((v % 2 ^ 32 : ℕ) : Int)
      else ((v % 2 ^ 32 : ℕ) : Int) - 2 ^ 32 := by
  rw [toInt32, BitVec.toInt_ofInt, Int.bmod_def]
  split <;> split <;> omega

/-- `kill` is called unless the pid is one of the three that are tested for. -/
theorem mkillproc_call (pidTyped sigTyped : CString) (kill : Int → Int → Int) :
    (mkillproc pidTyped sigTyped kill).call =
      if toInt32 (getnumval pidTyped 0) = 0 ∨ toInt32 (getnumval pidTyped 0) = -1 ∨
        toInt32 (getnumval pidTyped 0) = 1 then none
      else some (toInt32 (getnumval pidTyped 0), toInt32 (getnumval sigTyped 15)) := by
  unfold mkillproc
  dsimp only
  by_cases h0 : toInt32 (getnumval pidTyped 0) = 0 ∨ toInt32 (getnumval pidTyped 0) = -1
  · rw [if_pos h0, if_pos (h0.imp_right Or.inl)]
  · by_cases h1 : toInt32 (getnumval pidTyped 0) = 1
    · rw [if_neg h0, if_pos h1, if_pos (Or.inr (Or.inr h1))]
    · have htested : ¬ (toInt32 (getnumval pidTyped 0) = 0 ∨ toInt32 (getnumval pidTyped 0) = -1 ∨
          toInt32 (getnumval pidTyped 0) = 1) := by
        rw [← or_assoc, not_or]
        exact ⟨h0, h1⟩
      rw [if_neg h0, if_neg h1, if_neg htested]

/-- What the user may rely on: `kill` is called with the number typed, and that
number is a process id other than 0 and 1. -/
def KillOk (pidTyped : PidText) (sigTyped : CString) (kill : Int → Int → Int) : Prop :=
  ∀ pid sig, (mkillproc pidTyped.val sigTyped kill).call = some (pid, sig) →
    pid = digitsValue pidTyped.val ∧ 1 < pid

/-- **Which texts are safe.** A text that is no number, a number that fits `int`,
and the larger numbers whose low 32 bits happen to be one of the three values
that are tested for. -/
theorem kill_pid_iff (pidTyped : PidText) (sigTyped : CString) (kill : Int → Int → Int) :
    KillOk pidTyped sigTyped kill ↔
      numeric pidTyped.val = false ∨ pidTyped.val = [] ∨ digitsValue pidTyped.val < 2 ^ 31 ∨
        digitsValue pidTyped.val % 2 ^ 32 ∈ ({0, 1, 2 ^ 32 - 1} : Finset ℕ) := by
  have hcall := mkillproc_call pidTyped.val sigTyped kill
  rw [getnumval_pidText] at hcall
  by_cases hnum : pidTyped.val ≠ [] ∧ numeric pidTyped.val = true
  · rw [if_pos hnum] at hcall
    have hlow := toInt32_natCast (digitsValue pidTyped.val)
    set killpid := toInt32 (digitsValue pidTyped.val)
    have hside : (numeric pidTyped.val = false ∨ pidTyped.val = [] ∨
        digitsValue pidTyped.val < 2 ^ 31 ∨
        digitsValue pidTyped.val % 2 ^ 32 ∈ ({0, 1, 2 ^ 32 - 1} : Finset ℕ)) ↔
        digitsValue pidTyped.val < 2 ^ 31 ∨
        digitsValue pidTyped.val % 2 ^ 32 = 0 ∨ digitsValue pidTyped.val % 2 ^ 32 = 1 ∨
        digitsValue pidTyped.val % 2 ^ 32 = 2 ^ 32 - 1 := by
      simp [hnum.1, hnum.2]
    rw [hside]
    by_cases htested : killpid = 0 ∨ killpid = -1 ∨ killpid = 1
    · rw [if_pos htested] at hcall
      constructor
      · intro _
        split at hlow <;> omega
      · intro _ pid sig h
        rw [hcall] at h
        cases h
    · rw [if_neg htested] at hcall
      constructor
      · intro hok
        obtain ⟨heq, hgt⟩ := hok _ _ hcall
        split at hlow <;> omega
      · intro h pid sig hpid
        rw [hcall] at hpid
        cases hpid
        split at hlow <;> omega
  · -- the default is 0, for which `kill` is not called
    rw [if_neg hnum] at hcall
    have hzero : toInt32 0 = 0 := by decide
    rw [hzero, if_pos (Or.inl rfl)] at hcall
    constructor
    · intro _
      by_cases hnil : pidTyped.val = []
      · exact Or.inr (Or.inl hnil)
      · left
        rw [← Bool.not_eq_true]
        exact fun h => hnum ⟨hnil, h⟩
    · intro _ pid sig h
      rw [hcall] at h
      cases h

/-- A number past `2 ^ 32`: process 2 gets the signal. -/
theorem kill_wraps :
    ¬ KillOk ⟨ascii "4294967298", by decide, by decide +kernel⟩ [] fun _ _ => 0 := by
  intro hok
  have h := (hok 2 15 (by decide +kernel)).1
  exact absurd h (by decide +kernel)

/-- A number past `2 ^ 31`: the pid is negative, and names a process group. -/
example : (mkillproc (ascii "4294967000") [] fun _ _ => 0).call = some (-296, 15) := by
  decide +kernel

end PTop
