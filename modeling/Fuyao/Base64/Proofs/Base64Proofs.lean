import Fuyao.Base64.Base64
import Mathlib.Tactic.Common

/-!
# Proofs: base64 can be decoded

Decoding gives back what was encoded, so the encoding is injective, and an encoded text consists of
letters of the alphabet and padding.
-/

namespace Base64

theorem value_symbol {n : Nat} (h : n < 64) : value (symbol n) = some n := by
  have hall : ∀ m : Fin 64, value (symbol m) = some m.val := by decide
  exact hall ⟨n, h⟩

theorem symbol_mem {n : Nat} (h : n < 64) : symbol n ∈ alphabet := by
  have hall : ∀ m : Fin 64, symbol m ∈ alphabet := by decide
  exact hall ⟨n, h⟩

theorem symbol_ne_pad {n : Nat} (h : n < 64) : symbol n ≠ pad := by
  intro hpad
  have hmem := symbol_mem h
  rw [hpad] at hmem
  exact absurd hmem (by decide)

section Sextets

variable (a b c : UInt8)

theorem sextet0_lt : sextet0 a < 64 := by
  have := a.toNat_lt
  unfold sextet0
  omega

theorem sextet1_lt : sextet1 a b < 64 := by
  have := b.toNat_lt
  unfold sextet1
  omega

theorem sextet2_lt : sextet2 b c < 64 := by
  have := c.toNat_lt
  unfold sextet2
  omega

theorem sextet3_lt : sextet3 c < 64 := by
  unfold sextet3
  omega

theorem first_byte : UInt8.ofNat (sextet0 a * 4 + sextet1 a b / 16) = a := by
  have := b.toNat_lt
  have h : sextet0 a * 4 + sextet1 a b / 16 = a.toNat := by
    unfold sextet0 sextet1
    omega
  rw [h, UInt8.ofNat_toNat]

theorem second_byte : UInt8.ofNat (sextet1 a b % 16 * 16 + sextet2 b c / 4) = b := by
  have hb := b.toNat_lt
  have hc := c.toNat_lt
  have h : sextet1 a b % 16 * 16 + sextet2 b c / 4 = b.toNat := by
    unfold sextet1 sextet2
    omega
  rw [h, UInt8.ofNat_toNat]

theorem third_byte : UInt8.ofNat (sextet2 b c % 4 * 64 + sextet3 c) = c := by
  have hc := c.toNat_lt
  have h : sextet2 b c % 4 * 64 + sextet3 c = c.toNat := by
    unfold sextet2 sextet3
    omega
  rw [h, UInt8.ofNat_toNat]

theorem decodeLast_one :
    decodeLast (symbol (sextet0 a)) (symbol (sextet1 a 0)) pad pad = some [a] := by
  unfold decodeLast
  rw [value_symbol (sextet0_lt a), value_symbol (sextet1_lt a 0)]
  simp only [and_self, if_true, Option.bind_eq_bind, Option.bind_some, first_byte]
  rfl

theorem decodeLast_two :
    decodeLast (symbol (sextet0 a)) (symbol (sextet1 a b)) (symbol (sextet2 b 0)) pad =
      some [a, b] := by
  have hy := symbol_ne_pad (sextet2_lt b 0)
  unfold decodeLast
  rw [value_symbol (sextet0_lt a), value_symbol (sextet1_lt a b), value_symbol (sextet2_lt b 0)]
  simp only [hy, false_and, if_false, if_true, Option.bind_eq_bind, Option.bind_some, first_byte,
    second_byte]
  rfl

theorem decodeLast_three :
    decodeLast (symbol (sextet0 a)) (symbol (sextet1 a b)) (symbol (sextet2 b c))
      (symbol (sextet3 c)) = some [a, b, c] := by
  have hy := symbol_ne_pad (sextet2_lt b c)
  have hz := symbol_ne_pad (sextet3_lt c)
  unfold decodeLast
  rw [value_symbol (sextet0_lt a), value_symbol (sextet1_lt a b), value_symbol (sextet2_lt b c),
    value_symbol (sextet3_lt c)]
  simp only [hy, hz, false_and, if_false, Option.bind_eq_bind, Option.bind_some, first_byte,
    second_byte, third_byte]
  rfl

end Sextets

theorem decode_cons (a b c : UInt8) (rest : List UInt8) :
    decode (symbol (sextet0 a) :: symbol (sextet1 a b) :: symbol (sextet2 b c) ::
      symbol (sextet3 c) :: rest) = (decode rest).map ([a, b, c] ++ ·) := by
  have hz := symbol_ne_pad (sextet3_lt c)
  cases rest with
  | nil => simp [decode, decodeLast_three]
  | cons d ds =>
    simp only [decode, hz, if_false, decodeLast_three]
    cases decode (d :: ds) <;> rfl

theorem decode_encode (bs : List UInt8) : decode (encode bs) = some bs := by
  induction bs using encode.induct with
  | case1 => rfl
  | case2 a => exact decodeLast_one a
  | case3 a b => exact decodeLast_two a b
  | case4 a b c rest ih =>
    rw [encode, decode_cons, ih]
    rfl

theorem encode_injective : Function.Injective encode := by
  intro bs bs' h
  have h' := congrArg decode h
  rw [decode_encode, decode_encode] at h'
  exact Option.some.inj h'

theorem length_encode (bs : List UInt8) : (encode bs).length = 4 * ((bs.length + 2) / 3) := by
  induction bs using encode.induct with
  | case1 => rfl
  | case2 a => simp [encode]
  | case3 a b => simp [encode]
  | case4 a b c rest ih =>
    simp only [encode, List.length_cons, ih]
    omega

/-- An encoded text is letters of the alphabet and then the padding of the last group. -/
theorem exists_letters (bs : List UInt8) :
    ∃ letters, (∀ b ∈ letters, b ∈ alphabet) ∧
      encode bs = letters ++ List.replicate ((3 - bs.length % 3) % 3) pad := by
  induction bs using encode.induct with
  | case1 => exact ⟨[], by simp, rfl⟩
  | case2 a =>
    refine ⟨[symbol (sextet0 a), symbol (sextet1 a 0)], ?_, rfl⟩
    simpa using ⟨symbol_mem (sextet0_lt a), symbol_mem (sextet1_lt a 0)⟩
  | case3 a b =>
    refine ⟨[symbol (sextet0 a), symbol (sextet1 a b), symbol (sextet2 b 0)], ?_, rfl⟩
    simpa using ⟨symbol_mem (sextet0_lt a), symbol_mem (sextet1_lt a b), symbol_mem (sextet2_lt b 0)⟩
  | case4 a b c rest ih =>
    obtain ⟨letters, hletters, hrest⟩ := ih
    refine ⟨symbol (sextet0 a) :: symbol (sextet1 a b) :: symbol (sextet2 b c) :: symbol (sextet3 c) :: letters,
      ?_, ?_⟩
    · simpa using ⟨symbol_mem (sextet0_lt a), symbol_mem (sextet1_lt a b), symbol_mem (sextet2_lt b c),
        symbol_mem (sextet3_lt c), hletters⟩
    · have hlen : (rest.length + 1 + 1 + 1) % 3 = rest.length % 3 := by omega
      rw [encode, hrest, List.length_cons, List.length_cons, List.length_cons, hlen]
      rfl

theorem mem_encode {bs : List UInt8} {b : UInt8} (h : b ∈ encode bs) : b ∈ alphabet ∨ b = pad := by
  obtain ⟨letters, hletters, heq⟩ := exists_letters bs
  rw [heq] at h
  rcases List.mem_append.mp h with h | h
  · exact .inl (hletters b h)
  · exact .inr (List.mem_replicate.mp h).2

end Base64
