import PTop.Framework.Scanf
import PTop.Model.Ptop

/-!
# `display.c` — the screen and the kill prompt

What `show_proc_stat` puts on the screen once curses is set up, what it does
with the key that asks for a process to kill, and how an elapsed time is written.
Text typed at a prompt is a list of bytes; `long` has 64 bits and `int` 32.
-/

namespace PTop

open Framework

/-- The processes `show_proc_stat` prints: `pst_list[0 .. amount)`, after the
clamp of `amount`. -/
def showProcStat (pstList : ℕ → ProcessInfo) (amount : Int) : List ProcessInfo :=
  let amount : Int := if amount > SHOW_NUM then SHOW_NUM else amount
  (List.range amount.toNat).map pstList

/-! ## Elapsed time -/

def DAYSECS : Int := 24 * 60 * 60
def HOURSECS : Int := 60 * 60
def MINSECS : Int := 60

/-- The variables of `val2elapstr`; `p` is an offset into `strvalue`. -/
structure ElapState where
  value : Int
  p : ℕ
  strvalue : CString

/-- `p += sprintf(p, "%d…", n)`, with the letter of a unit after the number. -/
def ElapState.sprintf (n : Int) (letter : UInt8) (s : ElapState) : ElapState :=
  let text := integer n ++ [letter]
  { s with p := s.p + text.length, strvalue := s.strvalue.take s.p ++ text }

/-- The test for one unit. The remainder is taken in the branch only. -/
def elapUnit (secs : Int) (letter : UInt8) (s : ElapState) : ElapState :=
  if s.value > secs then
    { s.sprintf (s.value.tdiv secs) letter with value := s.value.tmod secs }
  else s

/-- `val2elapstr`: the number of bytes stored, and the string. -/
def val2elapstr (value : Int) (strvalue : CString) : ℕ × CString :=
  let s : ElapState := { value := value, p := 0, strvalue := strvalue }
  let s := elapUnit DAYSECS 'd'.toUInt8 s
  let s := elapUnit HOURSECS 'h'.toUInt8 s
  let s := elapUnit MINSECS 'm'.toUInt8 s
  let s := if s.value ≠ 0 then s.sprintf s.value 's'.toUInt8 else s
  (s.p, s.strvalue)

/-! ## The kill prompt -/

/-- Assignment of a `long` to an `int`. -/
def toInt32 (z : Int) : Int := (BitVec.ofInt 32 z).toInt

/-- `atol`, with the clamp of `strtol`. -/
def atol (s : CString) : Int :=
  match scanInt s with
  | none => 0
  | some (z, _) => max (-2 ^ 63) (min z (2 ^ 63 - 1))

/-- `numeric`. -/
def numeric (ns : CString) : Bool := ns.all isDigit

/-- `getnumval`, given what is typed at the prompt. -/
def getnumval (typed : CString) (valuenow : Int) : Int :=
  let numval := wordAt (scanf (format "%15s") typed) 0
  if numval ≠ [] then
    if numeric numval then atol numval else valuenow
  else valuenow

/-- What the branch `MKILLPROC` of `show_proc_stat` does: the call of `kill`, if
there is one, and the status message. -/
structure KillOutcome where
  call : Option (Int × Int)
  statmsg : Option String
deriving DecidableEq

/-- The branch `MKILLPROC`; `kill` is the system call. -/
def mkillproc (pidTyped sigTyped : CString) (kill : Int → Int → Int) : KillOutcome :=
  let killpid := toInt32 (getnumval pidTyped 0)
  if killpid = 0 ∨ killpid = -1 then ⟨none, none⟩
  else if killpid = 1 then ⟨none, some "Sending signal to pid 1 not allowed!"⟩
  else
    let killsig := toInt32 (getnumval sigTyped 15)
    ⟨some (killpid, killsig),
      if kill killpid killsig = -1 then some "Not possible to send signal to this pid!" else none⟩

end PTop
