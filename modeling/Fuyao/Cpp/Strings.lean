import Mathlib.Algebra.Group.Int.Defs
import Mathlib.Algebra.Group.Nat.Defs
import Mathlib.Data.List.Basic

/-!
# Byte strings and numbers of the C++ standard library

`std::string` is a list of bytes. `std::to_string` prints a decimal numeral; `std::stoul`,
`std::stoi` and `std::stol` read one back the way `strtoul` and `strtol` do: white space, a sign, the
longest run of digits, and an exception where there is no digit or the value does not fit. `std::stoul`
accepts a minus sign and negates modulo `2 ^ 64`.

A `char` array that holds a NUL-terminated string is represented by the bytes before the NUL. An integer
lies in memory with its least significant byte first, and a pointer cast reads and writes the bytes at the
front of a buffer.
-/

namespace Cpp

/-- The bytes of a `std::string`. -/
abbrev Bytes := List UInt8

/-- The bytes of a string literal. -/
def ascii (s : String) : Bytes := s.toList.map fun c => UInt8.ofNat c.toNat

/-- How a call ends when it does not return: by a standard exception, by the exception of the JSON
library for a value of the wrong type, by `strcpy` writing past the end of its destination or by the
use of a null pointer (which have no defined continuation, so the call is taken to end there). -/
inductive Exn where
  | invalidArgument
  | outOfRange
  | typeError
  | overflow
  | nullDereference
  deriving DecidableEq, Repr

/-- What a pointer points to; `none` is the null pointer. -/
def deref {α : Type} : Option α → Except Exn α
  | none => .error .nullDereference
  | some a => .ok a

/-! ## Numerals -/

/-- The numeral of `n`, most significant digit first, in lower case. -/
def numeral (base n : Nat) : Bytes :=
  (Nat.toDigits base n).map fun c => UInt8.ofNat c.toNat

/-- `std::to_string` of an integer. -/
def toStr (z : Int) : Bytes :=
  if z < 0 then 45 :: numeral 10 z.natAbs else numeral 10 z.natAbs

/-- The value of a letter or digit as a digit; 36 for every other byte. -/
def rawDigit (b : UInt8) : Nat :=
  if 48 ≤ b ∧ b ≤ 57 then b.toNat - 48
  else if 97 ≤ b ∧ b ≤ 122 then b.toNat - 87
  else if 65 ≤ b ∧ b ≤ 90 then b.toNat - 55
  else 36

/-- The digits of the longest run of digits a string starts with. -/
def digitRun (base : Nat) : Bytes → List Nat
  | [] => []
  | b :: s => if rawDigit b < base then rawDigit b :: digitRun base s else []

/-- The number that has these digits, the most significant first. -/
def horner (base : Nat) (ds : List Nat) : Nat := ds.foldl (fun n d => n * base + d) 0

/-- `isdigit`. -/
def isDigit (b : UInt8) : Bool := 48 ≤ b && b ≤ 57

/-- The number that decimal digits denote. -/
def decimal (digits : Bytes) : Nat := horner 10 (digits.map rawDigit)

/-- `isspace` of the C locale. -/
def isSpace (b : UInt8) : Bool := b == 32 || (9 ≤ b && b ≤ 13)

/-- The sign of a number and what follows it; no sign is a plus. -/
def scanSign : Bytes → Bool × Bytes
  | 45 :: s => (true, s)
  | 43 :: s => (false, s)
  | s => (false, s)

/-- The optional `0x` of a hexadecimal number, skipped when a digit follows. -/
def skipHexMark (base : Nat) : Bytes → Bytes
  | 48 :: x :: s =>
    if base = 16 ∧ (x = 120 ∨ x = 88) ∧ digitRun base s ≠ [] then s else 48 :: x :: s
  | s => s

/-- The sign and the magnitude `strtoul` and `strtol` read; `none` when there is no digit. -/
def scanInteger (base : Nat) (s : Bytes) : Option (Bool × Nat) :=
  let (neg, s) := scanSign (s.dropWhile isSpace)
  match digitRun base (skipHexMark base s) with
  | [] => none
  | d :: ds => some (neg, horner base (d :: ds))

/-- `std::stoul` in the given base. -/
def stoulBase (base : Nat) (s : Bytes) : Except Exn UInt64 :=
  match scanInteger base s with
  | none => .error .invalidArgument
  | some (neg, n) =>
    if 2 ^ 64 ≤ n then .error .outOfRange
    else .ok (if neg then -(UInt64.ofNat n) else UInt64.ofNat n)

/-- `std::stoul`. -/
def stoul (s : Bytes) : Except Exn UInt64 := stoulBase 10 s

/-- `std::stoi`. -/
def stoi (s : Bytes) : Except Exn Int32 :=
  match scanInteger 10 s with
  | none => .error .invalidArgument
  | some (neg, n) =>
    let z : Int := if neg then -(n : Int) else n
    if z < -2 ^ 31 ∨ 2 ^ 31 ≤ z then .error .outOfRange else .ok (Int32.ofInt z)

/-- `std::stol`. -/
def stol (s : Bytes) : Except Exn Int64 :=
  match scanInteger 10 s with
  | none => .error .invalidArgument
  | some (neg, n) =>
    let z : Int := if neg then -(n : Int) else n
    if z < -2 ^ 63 ∨ 2 ^ 63 ≤ z then .error .outOfRange else .ok (Int64.ofInt z)

/-- A result of `long` arithmetic: a signed overflow has no defined value. -/
def checkedLong (z : Int) : Except Exn Int64 :=
  if -2 ^ 63 ≤ z ∧ z < 2 ^ 63 then .ok (Int64.ofInt z) else .error .overflow

/-! ## Character arrays -/

/-- The content of a `char[n]` that holds a NUL-terminated string. -/
structure CString (n : Nat) where
  bytes : Bytes
  no_nul : 0 ∉ bytes
  /-- The string and its NUL fit the array. -/
  fits : bytes.length < n
  deriving DecidableEq

/-- `s.c_str()` read as a C string: the bytes before the first NUL. -/
def cStr (s : Bytes) : Bytes := s.takeWhile (· != 0)

/-- `strcpy` of `s.c_str()` into a `char[n]`. -/
def strcpy (n : Nat) (s : Bytes) : Except Exn (CString n) :=
  if h : (cStr s).length < n then
    .ok ⟨cStr s, fun h0 => by simpa using List.all_eq_true.mp List.all_takeWhile 0 h0, h⟩
  else .error .overflow

/-- `sprintf` of a text into a `char[n]`, as the text that is there afterwards. -/
def sprintf (n : Nat) (text : Bytes) : Except Exn Bytes :=
  if text.length < n then .ok text else .error .overflow

/-- The empty string. -/
def CString.zero {n : Nat} (h : 0 < n) : CString n := ⟨[], by simp, h⟩

/-! ## Integers in memory -/

/-- The `w` low bytes of a number, least significant byte first. -/
def leBytes : Nat → Nat → Bytes
  | 0, _ => []
  | w + 1, n => UInt8.ofNat n :: leBytes w (n / 256)

/-- The number whose bytes these are. -/
def ofLeBytes : Bytes → Nat
  | [] => 0
  | b :: s => b.toNat + 256 * ofLeBytes s

/-- `*(int *) s`. -/
def loadInt (s : Bytes) : Int32 := (UInt32.ofNat (ofLeBytes (s.take 4))).toInt32

/-- The buffer after `*(int *) s = v`. -/
def storeInt (v : Int32) (s : Bytes) : Bytes := leBytes 4 v.toUInt32.toNat ++ s.drop 4

/-- An `int` converted to `size_t`. -/
def sizeOfInt (n : Int32) : Nat := (n.toInt % 2 ^ 64).toNat

/-- `duration_cast<milliseconds>` of the difference of two clock readings. -/
def millisecondsBetween (last cur : Int) : Int := (cur - last).tdiv 1000000

end Cpp
