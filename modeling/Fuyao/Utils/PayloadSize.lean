import Fuyao.Cpp.Strings

/-!
# `parse_payload_size`

The request of a benchmark function names the size of the payload to generate: a number, a unit and a
`B`, as in `16B` or `4KB`, with spaces around it.
-/

namespace Utils

open Cpp

/-- The `prefix` that has been read; `bytes` is the initial `&`. -/
inductive SizeUnit where
  | bytes
  | K
  | M
  | G
  deriving DecidableEq

/-- The number of bytes that a unit stands for. -/
def SizeUnit.factor : SizeUnit → Int
  | bytes => 1
  | K => 1024
  | M => 1024 * 1024
  | G => 1024 * 1024 * 1024

/-- The main loop of `parse_payload_size` and what follows it. After a `B` only spaces may come, and
without a `B` the size is rejected. -/
def sizeLoop : Bytes → Int64 → SizeUnit → Except Exn Int64
  | [], _, _ => .ok (-1)
  | ch :: rest, payload_size, unit =>
    if ch = 66 then do
      let payload_size ← checkedLong (payload_size.toInt * unit.factor)
      if rest.all (· == 32) then .ok payload_size else .ok (-1)
    else if ch = 75 then sizeLoop rest payload_size .K
    else if ch = 77 then sizeLoop rest payload_size .M
    else if ch = 71 then sizeLoop rest payload_size .G
    else if 48 ≤ ch ∧ ch ≤ 57 then do
      let tens ← checkedLong (payload_size.toInt * 10)
      let payload_size ← checkedLong (tens.toInt + (ch.toNat - 48))
      sizeLoop rest payload_size unit
    else .ok (-1)

/-- `utils::parse_payload_size`. -/
def parsePayloadSize (input : Bytes) : Except Exn Int64 :=
  sizeLoop ((cStr input).dropWhile (· == 32)) 0 .bytes

/-! ## The format -/

/-- The letter of a unit, if it has one. -/
def SizeUnit.letter : SizeUnit → Bytes
  | bytes => []
  | K => [75]
  | M => [77]
  | G => [71]

/-- The string is `n` in decimal digits, the letter of `unit` and a `B`, with spaces around it. -/
def IsSize (s : Bytes) (n : ℕ) (unit : SizeUnit) : Prop :=
  ∃ a digits b, digits ≠ [] ∧ (∀ ch ∈ digits, isDigit ch) ∧ decimal digits = n ∧
    s = List.replicate a 32 ++ (digits ++ unit.letter) ++ 66 :: List.replicate b 32

/-- What a parser of the format does with a string: it accepts nothing else, returns the exact product,
rejects a product that is no `long`, and never overflows. -/
structure ParsesFormat (s : Bytes) : Prop where
  accepts : ∀ size, parsePayloadSize s = .ok size → size ≠ -1 →
    ∃ n unit, IsSize (cStr s) n unit ∧ size.toInt = n * unit.factor
  rejects : ∀ n unit, IsSize (cStr s) n unit → 2 ^ 63 ≤ n * unit.factor → parsePayloadSize s = .ok (-1)
  no_overflow : parsePayloadSize s ≠ .error .overflow

/-! ## What the loop scans -/

/-- The unit after one more character. -/
def SizeUnit.next (unit : SizeUnit) (ch : UInt8) : SizeUnit :=
  if ch = 75 then .K else if ch = 77 then .M else if ch = 71 then .G else unit

/-- The characters that the main loop goes past. -/
def isSizeChar (ch : UInt8) : Bool := isDigit ch || ch == 75 || ch == 77 || ch == 71

/-- The run of digits and letters after the spaces at the beginning. -/
def sizeRun (s : Bytes) : Bytes := ((cStr s).dropWhile (· == 32)).takeWhile isSizeChar

/-- What follows the run of characters that the size is read from. -/
def afterRun (s : Bytes) : Bytes := ((cStr s).dropWhile (· == 32)).dropWhile isSizeChar

/-- The number that all digits of a run denote, wherever they stand. -/
def runNumber (run : Bytes) : ℕ := decimal (run.filter isDigit)

/-- The unit of the last letter of a run. -/
def runUnit (run : Bytes) : SizeUnit := run.foldl SizeUnit.next .bytes

/-- The strings on which the main loop keeps to the format. The digits it meets denote a `long`. If a
`B` comes next then so does the product, and if only spaces follow the `B`, then the loop has gone past
one or more digits and at most one letter after them. -/
def KeepsToFormat (s : Bytes) : Prop :=
  runNumber (sizeRun s) < 2 ^ 63 ∧ ∀ rest, afterRun s = 66 :: rest →
    runNumber (sizeRun s) * (runUnit (sizeRun s)).factor < 2 ^ 63 ∧
      ((∀ ch ∈ rest, ch = 32) → ∃ digits unit, digits ≠ [] ∧ (∀ ch ∈ digits, isDigit ch) ∧
        sizeRun s = digits ++ SizeUnit.letter unit)

end Utils
