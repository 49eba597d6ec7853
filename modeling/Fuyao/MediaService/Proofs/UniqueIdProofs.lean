import Fuyao.Concurrency.Proofs.ProgProofs
import Fuyao.Cpp.Proofs.StringsProofs
import Fuyao.MediaService.ComposeReview

/-!
# Proofs: `make_unique_id` packs the time and a random number

The two hexadecimal texts have ten and three digits, whatever the length of the numerals they are made
from, so the id consists of the low 40 bits of the time and the low 12 bits of the random number.
-/

namespace MediaService

open Cpp Concurrency

/-! ## Texts of fixed length -/

section FitLeft

variable {n : ℕ} {s : Bytes}

theorem length_fitLeft (n : ℕ) (s : Bytes) : (fitLeft n s).length = n := by
  unfold fitLeft
  split
  · rw [List.length_drop]
    omega
  · split
    · rw [List.length_append, List.length_replicate]
      omega
    · omega

theorem rawDigit_fitLeft (h : ∀ b ∈ s, rawDigit b < 16) : ∀ b ∈ fitLeft n s, rawDigit b < 16 := by
  intro b hb
  unfold fitLeft at hb
  split at hb
  · exact h b (List.mem_of_mem_drop hb)
  · split at hb
    · rcases List.mem_append.mp hb with hb | hb
      · rw [(List.mem_replicate.mp hb).2]
        decide
      · exact h b hb
    · exact h b hb

/-- Cutting a numeral on the left takes the remainder, and zeros on the left change nothing. -/
theorem horner_fitLeft (h : ∀ b ∈ s, rawDigit b < 16) :
    horner 16 ((fitLeft n s).map rawDigit) = horner 16 (s.map rawDigit) % 16 ^ n := by
  have hdigits : ∀ d ∈ s.map rawDigit, d < 16 := by
    simpa using h
  have hlt := horner_lt (by norm_num : 1 < 16) hdigits
  rw [List.length_map] at hlt
  unfold fitLeft
  split
  next hlong =>
    have hdrop := horner_drop (n := n) (by norm_num : 1 < 16) hdigits (by rw [List.length_map]; omega)
    rw [List.map_drop]
    rwa [List.length_map] at hdrop
  next hshort =>
    have hpow : 16 ^ s.length ≤ 16 ^ n := Nat.pow_le_pow_right (by norm_num) (by omega)
    rw [Nat.mod_eq_of_lt (by omega)]
    split
    · have hzeros : horner 16 ((List.replicate (n - s.length) (48 : UInt8)).map rawDigit) = 0 := by
        rw [List.map_replicate, horner_eq_ofDigits, List.reverse_replicate]
        exact Nat.ofDigits_replicate_zero
      rw [List.map_append, horner_append, hzeros, zero_mul, zero_add]
    · rfl

end FitLeft

/-! ## The id -/

/-- The number that the id is made of. -/
def packedId (t : UInt64) (r : ℕ) : ℕ := t.toNat % 2 ^ 40 * 2 ^ 12 + r % 2 ^ 12

theorem packedId_lt (t : UInt64) (r : ℕ) : packedId t r < 2 ^ 52 := by
  unfold packedId
  omega

theorem stoulBase_uniqueId (t : UInt64) (r : ℕ) :
    stoulBase 16 (fitLeft 10 (numeral 16 t.toNat) ++ fitLeft 3 (numeral 16 r)) =
      .ok (UInt64.ofNat (packedId t r)) := by
  obtain ⟨htime, htime_val⟩ := numeral_digits (by norm_num : 1 < 16) le_rfl t.toNat
  obtain ⟨hrand, hrand_val⟩ := numeral_digits (by norm_num : 1 < 16) le_rfl r
  have hval : horner 16 ((fitLeft 10 (numeral 16 t.toNat) ++ fitLeft 3 (numeral 16 r)).map rawDigit) =
      packedId t r := by
    rw [List.map_append, horner_append, List.length_map, length_fitLeft, horner_fitLeft htime,
      horner_fitLeft hrand, htime_val, hrand_val]
    rfl
  have hlt := packedId_lt t r
  rw [← hval]
  refine stoulBase_hex ?_ ?_ (by omega)
  · intro hnil
    have := congrArg List.length hnil
    rw [List.length_append, length_fitLeft, length_fitLeft] at this
    exact absurd this (by decide)
  · intro b hb
    rcases List.mem_append.mp hb with hb | hb
    · exact rawDigit_fitLeft htime b hb
    · exact rawDigit_fitLeft hrand b hb

/-- The mask and the conversion to `int64_t` keep a number below `2 ^ 52`. -/
theorem toInt_mask {n : ℕ} (h : n < 2 ^ 52) :
    (UInt64.ofNat n &&& 0x7FFFFFFFFFFFFFFF).toInt64.toInt = n := by
  have hnat : (UInt64.ofNat n &&& 0x7FFFFFFFFFFFFFFF).toNat = n := by
    rw [UInt64.toNat_and, UInt64.toNat_ofNat_of_lt' (by simpa using (by omega : n < 2 ^ 64))]
    exact (Nat.and_two_pow_sub_one_eq_mod n 63).trans (Nat.mod_eq_of_lt (by omega))
  rw [toInt_toInt64 (by omega), hnat]

/-- Whatever the clock and `rand` answer, the call returns the packed id. -/
theorem makeUniqueId_path (t : UInt64) (r : ℕ) :
    ∃ review_id : Int64, review_id.toInt = packedId t r ∧
      ∀ out, makeUniqueId.Path [⟨.clock, t⟩, ⟨.rand, r⟩] out ↔ out = .ok review_id := by
  refine ⟨_, toInt_mask (packedId_lt t r), fun out => ?_⟩
  have hcontinue : makeUniqueId = .op .clock fun t => .op .rand fun r =>
      Prog.ofExcept (stoulBase 16 (fitLeft 10 (numeral 16 t.toNat) ++ fitLeft 3 (numeral 16 r))) >>=
        fun review_id => .ret (review_id &&& 0x7FFFFFFFFFFFFFFF).toInt64 := rfl
  rw [hcontinue]
  constructor
  · rintro ⟨_, _, hclock, _, _, hrand, h⟩
    cases hclock
    cases hrand
    simp only [stoulBase_uniqueId] at h
    exact h.2
  · intro hout
    refine ⟨t, _, rfl, r, _, rfl, ?_⟩
    simp only [stoulBase_uniqueId]
    exact ⟨rfl, hout⟩

theorem packedId_inj {t₁ t₂ : UInt64} {r₁ r₂ : ℕ} :
    packedId t₁ r₁ = packedId t₂ r₂ ↔
      t₁.toNat % 2 ^ 40 = t₂.toNat % 2 ^ 40 ∧ r₁ % 2 ^ 12 = r₂ % 2 ^ 12 := by
  unfold packedId
  omega

/-- A later time in the same window makes a larger id, since the random part is below the time. -/
theorem packedId_mono {t₁ t₂ : UInt64} (hwindow : t₁.toNat / 2 ^ 40 = t₂.toNat / 2 ^ 40) (hlt : t₁ < t₂)
    (r₁ r₂ : ℕ) : packedId t₁ r₁ < packedId t₂ r₂ := by
  have hlt : t₁.toNat < t₂.toNat := hlt
  unfold packedId
  omega

/-- The ids of any two calls. -/
theorem unique_ids_packed (t₁ t₂ : UInt64) (r₁ r₂ : ℕ) :
    ∃ id₁ id₂ : Int64,
      (∀ out, makeUniqueId.Path [⟨.clock, t₁⟩, ⟨.rand, r₁⟩] out ↔ out = .ok id₁) ∧
      (∀ out, makeUniqueId.Path [⟨.clock, t₂⟩, ⟨.rand, r₂⟩] out ↔ out = .ok id₂) ∧
      id₁.toInt = t₁.toNat % 2 ^ 40 * 2 ^ 12 + r₁ % 2 ^ 12 ∧ id₁.toInt < 2 ^ 52 ∧
      (id₁ = id₂ ↔ t₁.toNat % 2 ^ 40 = t₂.toNat % 2 ^ 40 ∧ r₁ % 2 ^ 12 = r₂ % 2 ^ 12) ∧
      (t₁.toNat / 2 ^ 40 = t₂.toNat / 2 ^ 40 → t₁ < t₂ → id₁ < id₂) := by
  obtain ⟨id₁, hid₁, hpath₁⟩ := makeUniqueId_path t₁ r₁
  obtain ⟨id₂, hid₂, hpath₂⟩ := makeUniqueId_path t₂ r₂
  refine ⟨id₁, id₂, hpath₁, hpath₂, ?_, ?_, ?_, ?_⟩
  · rw [hid₁, packedId]
    push_cast
    rfl
  · have := packedId_lt t₁ r₁
    omega
  · rw [← Int64.toInt_inj, hid₁, hid₂, Int.natCast_inj]
    exact packedId_inj
  · intro hwindow hlt
    have := packedId_mono hwindow hlt r₁ r₂
    rw [Int64.lt_iff_toInt_lt]
    omega

theorem unique_ids_packed_sample :
    ∃ id₁ id₂ : Int64,
      (∀ out, makeUniqueId.Path [⟨.clock, 5⟩, ⟨.rand, 0xfff⟩] out ↔ out = .ok id₁) ∧
      (∀ out, makeUniqueId.Path [⟨.clock, 6⟩, ⟨.rand, 0⟩] out ↔ out = .ok id₂) ∧ id₁ < id₂ := by
  obtain ⟨id₁, id₂, h₁, h₂, -, -, -, hlt⟩ := unique_ids_packed 5 6 0xfff 0
  exact ⟨id₁, id₂, h₁, h₂, hlt rfl (by decide)⟩

end MediaService
