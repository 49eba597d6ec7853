import Mathlib.Data.List.Basic

/-!
# Base64

The encoding of RFC 4648 with padding: three bytes are four sextets, and each sextet is a letter of
the alphabet. A group of one or two bytes at the end is filled up with `=`. The decoder accepts
padding in the last group only.
-/

namespace Base64

/-- `ABCDEFGHIJKLMNOPQRSTUVWXYZabcdefghijklmnopqrstuvwxyz0123456789+/`. -/
def alphabet : List UInt8 :=
  [65, 66, 67, 68, 69, 70, 71, 72, 73, 74, 75, 76, 77, 78, 79, 80, 81, 82, 83, 84, 85, 86, 87, 88, 89,
    90, 97, 98, 99, 100, 101, 102, 103, 104, 105, 106, 107, 108, 109, 110, 111, 112, 113, 114, 115,
    116, 117, 118, 119, 120, 121, 122, 48, 49, 50, 51, 52, 53, 54, 55, 56, 57, 43, 47]

/-- `=`. -/
def pad : UInt8 := 61

/-- The letter of a sextet. -/
def symbol (n : Nat) : UInt8 := alphabet.getD n pad

/-- The sextet of a letter. -/
def value (b : UInt8) : Option Nat := alphabet.idxOf? b

/-- The first six bits of a group. -/
def sextet0 (a : UInt8) : Nat := a.toNat / 4

/-- The second six bits of a group, over two bytes. -/
def sextet1 (a b : UInt8) : Nat := a.toNat % 4 * 16 + b.toNat / 16

/-- The third six bits of a group, over two bytes. -/
def sextet2 (b c : UInt8) : Nat := b.toNat % 16 * 4 + c.toNat / 64

/-- The last six bits of a group. -/
def sextet3 (c : UInt8) : Nat := c.toNat % 64

/-- The encoding: four symbols for every three bytes, with padding at the end. -/
def encode : List UInt8 → List UInt8
  | [] => []
  | [a] => [symbol (sextet0 a), symbol (sextet1 a 0), pad, pad]
  | [a, b] => [symbol (sextet0 a), symbol (sextet1 a b), symbol (sextet2 b 0), pad]
  | a :: b :: c :: rest =>
    symbol (sextet0 a) :: symbol (sextet1 a b) :: symbol (sextet2 b c) :: symbol (sextet3 c) ::
      encode rest

/-- The bytes of the last group. -/
def decodeLast (w x y z : UInt8) : Option (List UInt8) := do
  let p ← value w
  let q ← value x
  if y = pad ∧ z = pad then
    return [UInt8.ofNat (p * 4 + q / 16)]
  let r ← value y
  if z = pad then
    return [UInt8.ofNat (p * 4 + q / 16), UInt8.ofNat (q % 16 * 16 + r / 4)]
  let s ← value z
  return [UInt8.ofNat (p * 4 + q / 16), UInt8.ofNat (q % 16 * 16 + r / 4), UInt8.ofNat (r % 4 * 64 + s)]

/-- The decoding; `none` for a text that is not an encoding. -/
def decode : List UInt8 → Option (List UInt8)
  | [] => some []
  | [w, x, y, z] => decodeLast w x y z
  | w :: x :: y :: z :: rest => do
    -- a group that is not the last one has no padding
    if z = pad then none
    else
      let bs ← decodeLast w x y z
      let bs' ← decode rest
      return bs ++ bs'
  | _ => none

end Base64
