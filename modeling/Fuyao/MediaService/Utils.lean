import Fuyao.Cpp.Strings

/-!
# `utils.h`

`base64_encode` as the source computes it: a loop over the bytes that collects three of them in
`char_array_3` and appends four letters whenever the array is full.
-/

namespace MediaService

open Cpp

/-- `base64_chars`. -/
def base64Chars : Bytes :=
  ascii "ABCDEFGHIJKLMNOPQRSTUVWXYZabcdefghijklmnopqrstuvwxyz0123456789+/"

/-- The variables of the loop. -/
structure Base64State where
  ret : Bytes
  i : Nat
  char_array_3 : List UInt8

/-- The letters of `char_array_4`, which is computed from the three bytes of `char_array_3`. -/
def base64Letters (c0 c1 c2 : UInt8) : Bytes :=
  [(c0 &&& 0xfc) >>> 2, ((c0 &&& 0x03) <<< 4) + ((c1 &&& 0xf0) >>> 4),
    ((c1 &&& 0x0f) <<< 2) + ((c2 &&& 0xc0) >>> 6), c2 &&& 0x3f].map
      fun n => base64Chars.getD n.toNat 0

/-- The letters of an array of three bytes. -/
def base64Group (char_array_3 : List UInt8) : Bytes :=
  base64Letters (char_array_3.getD 0 0) (char_array_3.getD 1 0) (char_array_3.getD 2 0)

/-- One turn of the loop. -/
def base64Step (s : Base64State) (b : UInt8) : Base64State :=
  let char_array_3 := s.char_array_3.set s.i b
  if s.i + 1 = 3 then ⟨s.ret ++ base64Group char_array_3, 0, char_array_3⟩
  else ⟨s.ret, s.i + 1, char_array_3⟩

/-- The code after the loop: the rest of the array is zeroed, and the letters that stand for it are
replaced by `=`. -/
def base64Finish (s : Base64State) : Bytes :=
  if s.i = 0 then s.ret
  else
    let char_array_3 := s.char_array_3.take s.i ++ List.replicate (3 - s.i) 0
    s.ret ++ (base64Group char_array_3).take (s.i + 1) ++ List.replicate (3 - s.i) 61

/-- `base64_encode`. The length is kept in an `unsigned int`. -/
def base64Encode (input : Bytes) : Bytes :=
  let in_len := input.length % 2 ^ 32
  base64Finish ((input.take in_len).foldl base64Step ⟨[], 0, [0, 0, 0]⟩)

end MediaService
