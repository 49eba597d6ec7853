import Fuyao.Cpp.Strings

/-!
# The encoding of protocol buffers

The documented encoding of tags and contents: a number of variable length, the eight bytes of a `double`, or
bytes preceded by their length. `WireProofs` makes a runtime library of it, in which the generated
code can be run.
-/

namespace Protobuf.Wire

open Cpp

/-- At most `k + 1` bytes with seven bits each, the lowest bits first; all but the last byte have their
highest bit set. -/
def varintBytes : ℕ → ℕ → Bytes
  | 0, n => [UInt8.ofNat n]
  | k + 1, n => if n < 128 then [UInt8.ofNat n] else UInt8.ofNat (n % 128 + 128) :: varintBytes k (n / 128)

/-- A number of variable length, in at most ten bytes. -/
def writeVarint (n : ℕ) : Bytes := varintBytes 9 n

/-- The number in at most `k` bytes, and what follows it. -/
def readVarintBytes : ℕ → Bytes → Option (ℕ × Bytes)
  | 0, _ => none
  | _ + 1, [] => none
  | k + 1, b :: s =>
    if b.toNat < 128 then some (b.toNat, s)
    else (readVarintBytes k s).map fun r => (b.toNat - 128 + 128 * r.1, r.2)

/-- A number of variable length, and what follows it. -/
def readVarint (s : Bytes) : Option (ℕ × Bytes) := readVarintBytes 10 s

/-- A tag other than 0, and what follows it. -/
def readTag (s : Bytes) : Option (UInt32 × Bytes) := do
  let (tag, s) ← readVarint s
  if UInt32.ofNat tag = 0 then none else some (UInt32.ofNat tag, s)

/-- The bits of a `double`, and what follows them. -/
def readDouble (s : Bytes) : Option (UInt64 × Bytes) :=
  if s.length < 8 then none else some (UInt64.ofNat (ofLeBytes (s.take 8)), s.drop 8)

/-- Bytes preceded by their length. -/
def writeDelimited (x : Bytes) : Bytes := writeVarint x.length ++ x

/-- Bytes preceded by their length, and what follows them. -/
def readDelimited (s : Bytes) : Option (Bytes × Bytes) := do
  let (length, s) ← readVarint s
  if s.length < length then none else some (s.take length, s.drop length)

/-- The key is field 1 of the entry, the value is field 2. -/
def writeMapEntry (key : Bytes) (value : UInt32) : Bytes :=
  writeDelimited (writeVarint 10 ++ writeDelimited key ++ (writeVarint 16 ++ writeVarint value.toNat))

/-- An entry as it is written, and what follows it. -/
def readMapEntry (s : Bytes) : Option ((Bytes × UInt32) × Bytes) := do
  let (x, rest) ← readDelimited s
  let (_, x) ← readVarint x
  let (key, x) ← readDelimited x
  let (_, x) ← readVarint x
  let (value, _) ← readVarint x
  some ((key, UInt32.ofNat value), rest)

end Protobuf.Wire
