import PTop.Framework.ExactFloat
import PTop.Framework.Scanf
import Mathlib.Algebra.Order.Field.Basic
import Mathlib.Tactic.Linarith
import Mathlib.Tactic.Ring

/-!
# Text as C writes it

`printf` for integers, floating-point numbers with `%w.kf`, and strings. The
digits of a fixed-point number are those of the nearest decimal fraction, the even
one where two are nearest.
-/

namespace PTop.Framework

/-! ## Fixed point -/

/-- The nearest natural number to a rational that is not negative, or the even one
of two. -/
def roundEven (q : ℚ) : ℕ :=
  let n := q.floor.toNat
  if q - n < 1 / 2 then n else if 1 / 2 < q - n then n + 1 else n + n % 2

/-- The last `k` digits of a number. -/
def lastDigits : ℕ → ℕ → List UInt8
  | 0, _ => []
  | k + 1, n => lastDigits k (n / 10) ++ [UInt8.ofNat (48 + n % 10)]

/-- A rational with `k` digits after the point, `k` not zero. -/
def fixed (k : ℕ) (q : ℚ) : List UInt8 :=
  let n := roundEven (|q| * 10 ^ k)
  (if q < 0 then [45] else []) ++ (decimal (n / 10 ^ k) ++ 46 :: lastDigits k n)

/-- A floating-point number with `k` digits after the point. The sign of a NaN is not
part of the value. -/
def floatText (k : ℕ) : XFloat → List UInt8
  | .fin q => fixed k q
  | .inf neg => if neg then ascii "-inf" else ascii "inf"
  | .nan => ascii "nan"

/-- The spaces of a width before a text of a length. -/
def padding (w n : ℕ) : List UInt8 := List.replicate (w - n) 32

theorem roundEven_le {q : ℚ} {n : ℕ} (h0 : 0 ≤ q) (h : q < n) : roundEven q ≤ n := by
  have hfloor : q.floor.toNat < n := by
    have hpos : (0 : ℚ) < n := lt_of_le_of_lt h0 h
    have hpos : 0 < n := by exact_mod_cast hpos
    have hlt : q.floor < n := by
      rw [Rat.floor_lt_iff]
      exact_mod_cast h
    omega
  unfold roundEven
  dsimp only
  split
  · exact le_of_lt hfloor
  · split
    · exact hfloor
    · have hmod : q.floor.toNat % 2 < 2 := Nat.mod_lt _ (by decide)
      omega

theorem length_lastDigits : ∀ k n : ℕ, (lastDigits k n).length = k
  | 0, _ => rfl
  | k + 1, n => by
      rw [lastDigits, List.length_append, length_lastDigits k (n / 10), List.length_singleton]

theorem isDigit_of_mem_lastDigits : ∀ k n : ℕ, ∀ b ∈ lastDigits k n, isDigit b = true
  | 0, _, _, hb => absurd hb List.not_mem_nil
  | k + 1, n, b, hb => by
      rw [lastDigits, List.mem_append, List.mem_singleton] at hb
      rcases hb with hb | rfl
      · exact isDigit_of_mem_lastDigits k (n / 10) b hb
      · exact isDigit_digitByte (Nat.mod_lt _ (by decide))

theorem digitsValue_lastDigits : ∀ k n : ℕ, digitsValue (lastDigits k n) = n % 10 ^ k
  | 0, n => by rw [pow_zero, Nat.mod_one]; rfl
  | k + 1, n => by
      have hmod := Nat.mod_mul (x := n) (a := 10) (b := 10 ^ k)
      rw [lastDigits, digitsValue_append_singleton, digitsValue_lastDigits k (n / 10),
        toNat_digitByte (Nat.mod_lt _ (by decide)), pow_succ', hmod]
      omega

/-- A number below one of `m` digits has a sign, `m` digits, the point, and `k` digits. -/
theorem length_fixed_le {q : ℚ} {n m : ℕ} (k : ℕ) (hq : |q| < n) (hm : 0 < m) (hn : n < 10 ^ m) :
    (fixed k q).length ≤ 1 + m + 1 + k := by
  have hpow : (0 : ℚ) < 10 ^ k := pow_pos (by norm_num) k
  have hround : roundEven (|q| * 10 ^ k) ≤ n * 10 ^ k := by
    apply roundEven_le (mul_nonneg (abs_nonneg q) hpow.le)
    rw [Nat.cast_mul, Nat.cast_pow]
    exact mul_lt_mul_of_pos_right hq hpow
  have hint : roundEven (|q| * 10 ^ k) / 10 ^ k < 10 ^ m :=
    lt_of_le_of_lt (Nat.div_le_of_le_mul (by rwa [Nat.mul_comm])) hn
  have hdigits := length_decimal_le hm hint
  have hsign : (if q < 0 then [(45 : UInt8)] else []).length ≤ 1 := by
    split <;> simp
  unfold fixed
  dsimp only
  rw [List.length_append, List.length_append, List.length_cons, length_lastDigits]
  omega

theorem length_integer_le {z : ℤ} {k : ℕ} (hk : 0 < k) (h : z.natAbs < 10 ^ k) :
    (integer z).length ≤ k + 1 := by
  have hdigits := length_decimal_le hk h
  unfold integer
  split
  · exact Nat.succ_le_succ hdigits
  · exact Nat.le_succ_of_le hdigits

/-! ## Formats -/

/-- A part of a format: text as it is, a signed or an unsigned integer, a fixed-point
number with its width and its digits, a string. -/
inductive Piece where
  | lit (s : List UInt8)
  | signed
  | unsigned
  | float (width digits : ℕ)
  | text
deriving DecidableEq

/-- An argument; how an integer is read is a matter of the conversion. -/
inductive Arg where
  | bits {w : ℕ} (x : BitVec w)
  | float (x : XFloat)
  | text (s : List UInt8)

/-- Read a format. The first argument is the text since the last conversion, the second
the conversion being read, with its width and the digits after its point. -/
def parsePieces : List UInt8 → Option (ℕ × Option ℕ) → List Char → List Piece
  | s, _, [] => if s = [] then [] else [.lit s]
  | s, none, c :: cs =>
      if c = '%' then
        (if s = [] then [] else [.lit s]) ++ parsePieces [] (some (0, none)) cs
      else parsePieces (s ++ [UInt8.ofNat c.toNat]) none cs
  | s, some (width, digits), c :: cs =>
      if c = '.' then parsePieces s (some (width, some 0)) cs
      else if c.isDigit then
        match digits with
        | none => parsePieces s (some (10 * width + (c.toNat - 48), none)) cs
        | some k => parsePieces s (some (width, some (10 * k + (c.toNat - 48)))) cs
      else if c = 'l' then parsePieces s (some (width, digits)) cs
      else if c = 'd' then .signed :: parsePieces [] none cs
      else if c = 'f' then .float width (digits.getD 6) :: parsePieces [] none cs
      else if c = 's' then .text :: parsePieces [] none cs
      else .unsigned :: parsePieces [] none cs

/-- The pieces of a format text. -/
def pieces (s : String) : List Piece := parsePieces [] none s.toList

/-- `printf`; arguments that do not fit the format end the text. -/
def printf : List Piece → List Arg → List UInt8
  | .lit s :: ps, as => s ++ printf ps as
  | .signed :: ps, .bits x :: as => integer x.toInt ++ printf ps as
  | .unsigned :: ps, .bits x :: as => decimal x.toNat ++ printf ps as
  | .float width k :: ps, .float x :: as =>
      padding width (floatText k x).length ++ floatText k x ++ printf ps as
  | .text :: ps, .text s :: as => s ++ printf ps as
  | _, _ => []

end PTop.Framework
