import Fuyao.Cpp.Proofs.StringsProofs
import Fuyao.Protobuf.Message
import Fuyao.Protobuf.Wire

/-!
# Proofs: the encoding satisfies the laws of a runtime library

What is written for a number, for bytes or for an entry of a map is read back and what follows it is left, so
there is a runtime library with this encoding (`Runtime.ascii`).
-/

namespace Protobuf

open Cpp

namespace Wire

theorem toNat_ofNat_of_lt {n : ℕ} (h : n < 256) : (UInt8.ofNat n).toNat = n := by
  rw [UInt8.toNat_ofNat']
  exact Nat.mod_eq_of_lt h

theorem readVarintBytes_varintBytes {k n : ℕ} (h : n < 128 ^ (k + 1)) (rest : Bytes) :
    readVarintBytes (k + 1) (varintBytes k n ++ rest) = some (n, rest) := by
  have hlast {k n : ℕ} (hn : n < 128) :
      readVarintBytes (k + 1) ([UInt8.ofNat n] ++ rest) = some (n, rest) := by
    have hbyte := toNat_ofNat_of_lt (Nat.lt_trans hn (by decide : 128 < 256))
    simp [readVarintBytes, hbyte, hn]
  induction k generalizing n with
  | zero => exact hlast (by simpa using h)
  | succ k ih =>
    rw [varintBytes]
    split
    case isTrue hn => exact hlast hn
    case isFalse hn =>
      have hbyte : (UInt8.ofNat (n % 128 + 128)).toNat = n % 128 + 128 := toNat_ofNat_of_lt (by omega)
      have hdiv : n / 128 < 128 ^ (k + 1) := by
        rw [Nat.div_lt_iff_lt_mul (by omega), ← Nat.pow_succ]
        exact h
      rw [List.cons_append, readVarintBytes, hbyte, if_neg (by omega), ih hdiv]
      have hn : n % 128 + 128 - 128 + 128 * (n / 128) = n := by omega
      simp only [Option.map_some, hn]

theorem readVarint_writeVarint {n : ℕ} (h : n < 2 ^ 64) (rest : Bytes) :
    readVarint (writeVarint n ++ rest) = some (n, rest) :=
  readVarintBytes_varintBytes (Nat.lt_trans h (by decide)) rest

theorem readTag_writeVarint {tag : UInt32} (h : tag ≠ 0) (rest : Bytes) :
    readTag (writeVarint tag.toNat ++ rest) = some (tag, rest) := by
  rw [readTag, readVarint_writeVarint (Nat.lt_trans tag.toNat_lt (by decide))]
  simp [h]

theorem readDouble_leBytes (bits : UInt64) (rest : Bytes) :
    readDouble (leBytes 8 bits.toNat ++ rest) = some (bits, rest) := by
  have hlen := length_leBytes 8 bits.toNat
  have hbits : ofLeBytes (leBytes 8 bits.toNat) = bits.toNat := by
    rw [ofLeBytes_leBytes]
    exact Nat.mod_eq_of_lt bits.toNat_lt
  rw [readDouble, if_neg (by rw [List.length_append, hlen]; omega), List.take_left' hlen,
    List.drop_left' hlen, hbits, UInt64.ofNat_toNat]

theorem readDelimited_writeDelimited {x : Bytes} (h : x.length < 2 ^ 31) (rest : Bytes) :
    readDelimited (writeDelimited x ++ rest) = some (x, rest) := by
  rw [readDelimited, writeDelimited, List.append_assoc, readVarint_writeVarint (by omega)]
  simp

theorem length_le_writeDelimited (x : Bytes) : x.length ≤ (writeDelimited x).length := by
  rw [writeDelimited, List.length_append]
  exact Nat.le_add_left _ _

theorem readMapEntry_writeMapEntry {key : Bytes} {value : UInt32}
    (h : (writeMapEntry key value).length < 2 ^ 31) (rest : Bytes) :
    readMapEntry (writeMapEntry key value ++ rest) = some ((key, value), rest) := by
  have hentry := Nat.lt_of_le_of_lt (length_le_writeDelimited _) h
  have hkey : key.length < 2 ^ 31 := by
    have := length_le_writeDelimited key
    rw [List.length_append, List.length_append] at hentry
    omega
  have hvalue : readVarint (writeVarint value.toNat) = some (value.toNat, []) := by
    have := readVarint_writeVarint (Nat.lt_trans value.toNat_lt (by decide)) []
    rwa [List.append_nil] at this
  rw [readMapEntry, writeMapEntry, readDelimited_writeDelimited hentry]
  simp [readVarint_writeVarint, readDelimited_writeDelimited hkey, hvalue]

end Wire

/-- A runtime library with the documented encoding. It takes only ASCII for valid and skips no field. -/
def Runtime.ascii : Runtime where
  writeTag tag := Wire.writeVarint tag.toNat
  readTag := Wire.readTag
  readTag_nil := rfl
  readTag_writeTag hpos _ rest := Wire.readTag_writeVarint hpos rest
  writeUInt64 v := Wire.writeVarint v.toNat
  readUInt64 s := (Wire.readVarint s).map fun r => (UInt64.ofNat r.1, r.2)
  readUInt64_writeUInt64 v rest := by simp [Wire.readVarint_writeVarint v.toNat_lt]
  writeUInt32 v := Wire.writeVarint v.toNat
  readUInt32 s := (Wire.readVarint s).map fun r => (UInt32.ofNat r.1, r.2)
  readUInt32_writeUInt32 v rest := by
    simp [Wire.readVarint_writeVarint (Nat.lt_trans v.toNat_lt (by decide))]
  writeDouble bits := leBytes 8 bits.toNat
  readDouble := Wire.readDouble
  readDouble_writeDouble := Wire.readDouble_leBytes
  writeDelimited := Wire.writeDelimited
  readBytes s :=
    match Wire.readDelimited s with
    | some (x, s) => (x, some s)
    | none => ([], none)
  readMessage n merge s :=
    match Wire.readDelimited s with
    | some (x, s) => ((merge n x).2, if (merge n x).1 then some s else none)
    | none => (n, none)
  length_le_writeDelimited := Wire.length_le_writeDelimited
  readBytes_writeDelimited h rest := by rw [Wire.readDelimited_writeDelimited h]
  readMessage_writeDelimited n merge x h rest := by rw [Wire.readDelimited_writeDelimited h]
  writeMapEntry := Wire.writeMapEntry
  readMapEntry := Wire.readMapEntry
  readMapEntry_writeMapEntry := Wire.readMapEntry_writeMapEntry
  isValidUtf8 s := s.all (· < 128)
  isValidUtf8_nil := rfl
  skipField _ _ := none
  serializeToString fields := if fields.length < 2 ^ 31 then fields else []
  serializeToString_of_lt h := if_pos h
  serializeToString_of_le h := if_neg (Nat.not_lt.mpr h)
  parseFromString m merge s := (merge m s).2
  parseFromString_eq _ _ _ _ := rfl

end Protobuf
