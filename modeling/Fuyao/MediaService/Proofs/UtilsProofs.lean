import Fuyao.Base64.Proofs.Base64Proofs
import Fuyao.MediaService.Utils

/-!
# Proofs: `base64_encode` is base64

The loop of the source computes the standard encoding of every string that is shorter than `2 ^ 32`.
-/

namespace MediaService

open Cpp

theorem base64Chars_eq : base64Chars = Base64.alphabet := by decide

section Bits

variable (b : UInt8)

theorem toNat_high6 : ((b &&& 0xfc) >>> 2).toNat = b.toNat / 4 := by
  have hall : ∀ n : Fin 256, ((UInt8.ofFin n &&& 0xfc) >>> 2).toNat = n.val / 4 := by
    decide +kernel
  exact hall b.toFin

theorem toNat_low2 : ((b &&& 0x03) <<< 4).toNat = b.toNat % 4 * 16 := by
  have hall : ∀ n : Fin 256, ((UInt8.ofFin n &&& 0x03) <<< 4).toNat = n.val % 4 * 16 := by
    decide +kernel
  exact hall b.toFin

theorem toNat_high4 : ((b &&& 0xf0) >>> 4).toNat = b.toNat / 16 := by
  have hall : ∀ n : Fin 256, ((UInt8.ofFin n &&& 0xf0) >>> 4).toNat = n.val / 16 := by
    decide +kernel
  exact hall b.toFin

theorem toNat_low4 : ((b &&& 0x0f) <<< 2).toNat = b.toNat % 16 * 4 := by
  have hall : ∀ n : Fin 256, ((UInt8.ofFin n &&& 0x0f) <<< 2).toNat = n.val % 16 * 4 := by
    decide +kernel
  exact hall b.toFin

theorem toNat_high2 : ((b &&& 0xc0) >>> 6).toNat = b.toNat / 64 := by
  have hall : ∀ n : Fin 256, ((UInt8.ofFin n &&& 0xc0) >>> 6).toNat = n.val / 64 := by
    decide +kernel
  exact hall b.toFin

theorem toNat_low6 : (b &&& 0x3f).toNat = b.toNat % 64 := by
  have hall : ∀ n : Fin 256, (UInt8.ofFin n &&& 0x3f).toNat = n.val % 64 := by
    decide +kernel
  exact hall b.toFin

end Bits

/-- The bit operations of the source compute the four sextets. -/
theorem base64Letters_eq (a b c : UInt8) :
    base64Letters a b c = [Base64.symbol (Base64.sextet0 a), Base64.symbol (Base64.sextet1 a b),
      Base64.symbol (Base64.sextet2 b c), Base64.symbol (Base64.sextet3 c)] := by
  have ha := a.toNat_lt
  have hb := b.toNat_lt
  have hc := c.toNat_lt
  have h1 : (((a &&& 0x03) <<< 4) + ((b &&& 0xf0) >>> 4)).toNat = Base64.sextet1 a b := by
    rw [UInt8.toNat_add, toNat_low2, toNat_high4]
    unfold Base64.sextet1
    omega
  have h2 : (((b &&& 0x0f) <<< 2) + ((c &&& 0xc0) >>> 6)).toNat = Base64.sextet2 b c := by
    rw [UInt8.toNat_add, toNat_low4, toNat_high2]
    unfold Base64.sextet2
    omega
  have hget : ∀ n, n < 64 → base64Chars.getD n 0 = Base64.symbol n := by
    intro n hn
    rw [base64Chars_eq]
    have hlen : n < Base64.alphabet.length := hn
    simp [Base64.symbol, hlen]
  unfold base64Letters
  simp only [List.map_cons, List.map_nil]
  rw [h1, h2, hget _ (Base64.sextet1_lt a b), hget _ (Base64.sextet2_lt b c),
    show ((a &&& 0xfc) >>> 2).toNat = Base64.sextet0 a from toNat_high6 a,
    show (c &&& 0x3f).toNat = Base64.sextet3 c from toNat_low6 c,
    hget _ (Base64.sextet0_lt a), hget _ (Base64.sextet3_lt c)]

/-- Three turns of the loop. -/
theorem foldl_base64Step_three (ret : Bytes) (x y z a b c : UInt8) (rest : Bytes) :
    (a :: b :: c :: rest).foldl base64Step ⟨ret, 0, [x, y, z]⟩ =
      rest.foldl base64Step ⟨ret ++ base64Letters a b c, 0, [a, b, c]⟩ := by
  rfl

/-- The code after the loop: it pads and encodes a last group of one or two bytes. -/
theorem finish_foldl_base64Step (input ret : Bytes) (x y z : UInt8) :
    base64Finish (input.foldl base64Step ⟨ret, 0, [x, y, z]⟩) = ret ++ Base64.encode input := by
  induction input using Base64.encode.induct generalizing ret x y z with
  | case1 => simp [base64Finish, Base64.encode]
  | case2 a =>
    simp [base64Finish, base64Step, base64Group, base64Letters_eq, Base64.encode, Base64.pad]
  | case3 a b =>
    simp [base64Finish, base64Step, base64Group, base64Letters_eq, Base64.encode, Base64.pad]
  | case4 a b c rest ih =>
    rw [foldl_base64Step_three, ih, base64Letters_eq, Base64.encode]
    simp

theorem base64Encode_eq {input : Bytes} (h : input.length < 2 ^ 32) :
    base64Encode input = Base64.encode input := by
  have hlen : input.length % 2 ^ 32 = input.length := Nat.mod_eq_of_lt h
  have htake : input.take (input.length % 2 ^ 32) = input := by
    rw [hlen, List.take_length]
  simp only [base64Encode, htake]
  exact finish_foldl_base64Step input [] 0 0 0

end MediaService
