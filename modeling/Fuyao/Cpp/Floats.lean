import Fuyao.Cpp.Strings
import Mathlib.Algebra.Order.Field.Rat

/-!
# Floating-point numbers

`std::stold` reads a number the way `strtold` does: white space, a sign, and then `inf`, `nan`, a
hexadecimal or a decimal numeral with an optional exponent, whatever comes after it. It throws where
there is no number, and where the number is too large for a `long double` or so small that it loses
digits. The format is the extended format of the x87: a significand of 64 bits and exponents up to
16383.

A `double` is given by its bits: a sign and a magnitude, which grows with the number until it stands for
infinity and then for no number.
-/

namespace Cpp

/-- The number `mantissa * base ^ exp`. -/
structure Numeral where
  mantissa : ℕ
  base : ℕ
  exp : ℤ
  deriving DecidableEq

/-- What a text that is read as a floating-point number says. -/
inductive FloatText where
  | infinity (neg : Bool)
  | nan (neg : Bool)
  | finite (neg : Bool) (n : Numeral)
  deriving DecidableEq

/-! ## Scanning -/

/-- `tolower`. -/
def toLower (b : UInt8) : UInt8 := if 65 ≤ b ∧ b ≤ 90 then b + 32 else b

/-- The text starts with the given word, in any mix of cases. -/
def startsWithWord (word text : Bytes) : Bool := word.isPrefixOf (text.map toLower)

/-- The exponent after the letter `mark`, if there is one with at least one digit, and 0 otherwise. -/
def scanExponent (mark : UInt8) : Bytes → ℤ
  | [] => 0
  | b :: s =>
    if toLower b = mark then
      let (neg, s) := scanSign s
      if neg then -(horner 10 (digitRun 10 s) : ℤ) else horner 10 (digitRun 10 s)
    else 0

/-- The digits after a point, and what follows them. -/
def scanFraction (base : ℕ) : Bytes → List ℕ × Bytes
  | 46 :: s => (digitRun base s, s.drop (digitRun base s).length)
  | s => ([], s)

/-- A numeral in the given base: digits, possibly a point and digits, possibly an exponent; `none` if
there is no digit. A digit after the point counts as `width` in the exponent, which belongs to
`expBase`. -/
def scanNumeral (base expBase : ℕ) (width : ℤ) (mark : UInt8) (s : Bytes) : Option Numeral :=
  let whole := digitRun base s
  let (fraction, rest) := scanFraction base (s.drop whole.length)
  if whole ++ fraction = [] then none
  else some ⟨horner base (whole ++ fraction), expBase, scanExponent mark rest - width * fraction.length⟩

/-- A hexadecimal numeral after its `0x`. -/
def scanHexadecimal : Bytes → Option Numeral
  | 48 :: x :: s => if toLower x = 120 then scanNumeral 16 2 4 112 s else none
  | _ => none

/-- A decimal numeral with an optional exponent at the front of a text. -/
def scanDecimal (s : Bytes) : Option Numeral := scanNumeral 10 10 1 101 s

/-- The numeral a text starts with. -/
def scanUnsigned (s : Bytes) : Option Numeral := (scanHexadecimal s).or (scanDecimal s)

/-- What `strtold` makes of a text: white space, a sign, and a numeral, an infinity or a NaN. -/
def scanFloat (s : Bytes) : Option FloatText :=
  let (neg, s) := scanSign (s.dropWhile isSpace)
  if startsWithWord (ascii "inf") s then some (.infinity neg)
  else if startsWithWord (ascii "nan") s then some (.nan neg)
  else (scanUnsigned s).map (.finite neg)

/-! ## The range of `long double` -/

namespace Numeral

/-- The number as a fraction: its numerator and its denominator. -/
def fraction (n : Numeral) : ℕ × ℕ :=
  if 0 ≤ n.exp then (n.mantissa * n.base ^ n.exp.toNat, 1) else (n.mantissa, n.base ^ (-n.exp).toNat)

/-- The least magnitude that is rounded to infinity: half a unit above the largest number. -/
def overflowBound : ℕ := (2 ^ 65 - 1) * 2 ^ 16319

/-- `strtold` sets `errno` to `ERANGE`: the number is rounded to infinity, or it stays below the normal
numbers after rounding and is not a multiple of the smallest subnormal number. -/
def rangeError (n : Numeral) : Bool :=
  let (num, den) := n.fraction
  overflowBound * den ≤ num || (num * 2 ^ 16447 < (2 ^ 65 - 1) * den && num * 2 ^ 16445 % den != 0)

end Numeral

/-- `std::stold`. -/
def stold (s : Bytes) : Except Exn FloatText :=
  match scanFloat s with
  | none => .error .invalidArgument
  | some (.finite neg n) => if n.rangeError then .error .outOfRange else .ok (.finite neg n)
  | some x => .ok x

/-! ## What can be read -/

/-- The value of a numeral. -/
def Numeral.value (n : Numeral) : ℚ := n.mantissa * (n.base : ℚ) ^ n.exp

/-- A magnitude that a `long double` can have: not too large, and normal or a multiple of the smallest
subnormal number. -/
def InRange (x : ℚ) : Prop :=
  x < Numeral.overflowBound ∧
    (((2 ^ 65 - 1 : ℕ) : ℚ) / (2 ^ 16447 : ℕ) ≤ x ∨ ∃ k : ℕ, x = k / (2 ^ 16445 : ℕ))

/-- The text starts with a digit, or with a point and a digit. -/
def startsWithDigit : Bytes → Bool
  | 46 :: b :: _ => isDigit b
  | b :: _ => isDigit b
  | [] => false

/-- A text that `std::stold` should read: after white space and a sign it says that it is infinite or
not a number, or it starts with a numeral that is in range. -/
def Readable (s : Bytes) : Prop :=
  let t := (scanSign (s.dropWhile isSpace)).2
  startsWithWord (ascii "inf") t ∨ startsWithWord (ascii "nan") t ∨
    startsWithDigit t ∧ ∀ n, scanUnsigned t = some n → InRange n.value

/-! ## `double` -/

/-- A `double`, given by its bits. -/
structure Double where
  bits : UInt64
  deriving DecidableEq

namespace Double

/-- The bits without the sign. For numbers they are in the order of the absolute values. -/
def magnitude (x : Double) : ℕ := x.bits.toNat % 2 ^ 63

/-- The sign bit is set. -/
def negative (x : Double) : Bool := 2 ^ 63 ≤ x.bits.toNat

/-- The exponent is that of an infinity, and the fraction is not 0. -/
def isNaN (x : Double) : Bool := 0x7FF0000000000000 < x.magnitude

/-- An integer that grows with the number; it is 0 for both zeros. -/
def key (x : Double) : ℤ := if x.negative then -x.magnitude else x.magnitude

/-- `x < y`. -/
def less (x y : Double) : Bool := !x.isNaN && !y.isNaN && x.key < y.key

end Double

end Cpp
