import Fuyao.Cpp.Floats
import Fuyao.Cpp.Proofs.StringsProofs
import Mathlib.Algebra.Order.Field.Basic
import Mathlib.Data.Rat.Cast.Order

/-!
# Proofs: what `std::stold` reads
-/

namespace Cpp

/-! ## The range -/

namespace Numeral

variable {n : Numeral}

theorem fraction_den_pos (hb : 0 < n.base) : 0 < n.fraction.2 := by
  unfold fraction
  split
  · exact Nat.one_pos
  · exact Nat.pow_pos hb

theorem value_eq (hb : 0 < n.base) : n.value = (n.fraction.1 : ℚ) / n.fraction.2 := by
  have hbase : (n.base : ℚ) ≠ 0 := by exact_mod_cast hb.ne'
  unfold value fraction
  split
  next h =>
    obtain ⟨e, he⟩ := Int.eq_ofNat_of_zero_le h
    rw [he]
    simp
  next h =>
    obtain ⟨e, he⟩ : ∃ e : ℕ, n.exp = -e := ⟨(-n.exp).toNat, by omega⟩
    rw [he]
    simp [div_eq_mul_inv]

end Numeral

/-- The bounds for a fraction, without its denominator. -/
theorem fraction_lt_iff {num den a : ℕ} (hden : 0 < den) : (num : ℚ) / den < a ↔ num < a * den := by
  rw [div_lt_iff₀ (by exact_mod_cast hden)]
  exact_mod_cast Iff.rfl

theorem le_fraction_iff {num den a b : ℕ} (hden : 0 < den) (hb : 0 < b) :
    (a : ℚ) / b ≤ (num : ℚ) / den ↔ a * den ≤ num * b := by
  rw [div_le_div_iff₀ (by exact_mod_cast hb) (by exact_mod_cast hden)]
  exact_mod_cast Iff.rfl

theorem fraction_eq_iff {num den b : ℕ} (hden : 0 < den) (hb : 0 < b) :
    (∃ k : ℕ, (num : ℚ) / den = k / b) ↔ num * b % den = 0 := by
  have hden' : (den : ℚ) ≠ 0 := by exact_mod_cast hden.ne'
  have hb' : (b : ℚ) ≠ 0 := by exact_mod_cast hb.ne'
  constructor
  · rintro ⟨k, hk⟩
    rw [div_eq_div_iff hden' hb'] at hk
    have hk : num * b = k * den := by exact_mod_cast hk
    rw [hk, Nat.mul_mod_left]
  · intro h
    obtain ⟨k, hk⟩ := Nat.dvd_of_mod_eq_zero h
    refine ⟨k, ?_⟩
    rw [div_eq_div_iff hden' hb', mul_comm (k : ℚ)]
    exact_mod_cast hk

theorem Numeral.rangeError_eq_false_iff {n : Numeral} (hb : 0 < n.base) :
    n.rangeError = false ↔ InRange n.value := by
  have hden := n.fraction_den_pos hb
  have hpow : ∀ k, 0 < 2 ^ k := fun k => Nat.pow_pos (by decide)
  rw [InRange, Numeral.value_eq hb, fraction_lt_iff hden, le_fraction_iff hden (hpow _),
    fraction_eq_iff hden (hpow _)]
  simp only [rangeError, Bool.or_eq_false_iff, Bool.and_eq_false_imp, decide_eq_false_iff_not,
    decide_eq_true_eq, not_le, bne_eq_false_iff_eq]
  rw [or_iff_not_imp_left, not_le]

/-! ## The text -/

theorem digitRun_cons_of_isDigit {b : UInt8} {s : Bytes} (h : isDigit b = true) :
    digitRun 10 (b :: s) = rawDigit b :: digitRun 10 s :=
  if_pos ((rawDigit_lt_ten_iff b).mpr h)

theorem digitRun_cons_of_not {b : UInt8} {s : Bytes} (h : isDigit b = false) :
    digitRun 10 (b :: s) = [] :=
  if_neg (by rw [rawDigit_lt_ten_iff, h]; decide)

/-- There is a numeral where the text starts with a digit, possibly after a point. -/
theorem scanDecimal_isSome (s : Bytes) : (scanDecimal s).isSome = startsWithDigit s := by
  unfold scanDecimal scanNumeral
  unfold startsWithDigit
  split
  next b rest =>
    have hpoint : digitRun 10 (46 :: b :: rest) = [] := digitRun_cons_of_not rfl
    simp only [hpoint, List.length_nil, List.drop_zero, scanFraction, List.nil_append]
    cases hb : isDigit b with
    | true => simp [digitRun_cons_of_isDigit hb]
    | false => simp [digitRun_cons_of_not hb]
  next b rest hne =>
    cases hb : isDigit b with
    | true => simp [digitRun_cons_of_isDigit hb]
    | false =>
      have hfraction : (scanFraction 10 (b :: rest)).1 = [] := by
        unfold scanFraction
        split
        next s heq =>
          cases s with
          | nil => rfl
          | cons b' rest' =>
            obtain ⟨rfl, rfl⟩ := List.cons.inj heq
            exact absurd rfl (hne b' rest' rfl)
        · rfl
      simp [digitRun_cons_of_not hb, hfraction]
  · rfl

theorem scanUnsigned_isSome (s : Bytes) : (scanUnsigned s).isSome = startsWithDigit s := by
  rw [scanUnsigned, Option.isSome_or, scanDecimal_isSome]
  cases hhex : scanHexadecimal s with
  | none => rfl
  | some n =>
    -- a hexadecimal numeral starts with the digit 0
    unfold scanHexadecimal at hhex
    split at hhex
    · rfl
    · cases hhex

theorem scanNumeral_base {base expBase : ℕ} {width : ℤ} {mark : UInt8} {s : Bytes} {n : Numeral}
    (h : scanNumeral base expBase width mark s = some n) : n.base = expBase := by
  simp only [scanNumeral] at h
  split at h
  · cases h
  · obtain rfl := Option.some.inj h
    rfl

theorem scanUnsigned_base {s : Bytes} {n : Numeral} (h : scanUnsigned s = some n) : 0 < n.base := by
  rw [scanUnsigned, Option.or_eq_some_iff] at h
  rcases h with h | ⟨-, h⟩
  · unfold scanHexadecimal at h
    split at h
    · obtain ⟨-, h⟩ := Option.ite_none_right_eq_some.mp h
      rw [scanNumeral_base h]
      decide
    · cases h
  · rw [scanNumeral_base h]
    decide

theorem stold_of_scanFloat {s : Bytes} {neg : Bool} {n : Numeral} (h : scanFloat s = some (.finite neg n))
    (hrange : n.rangeError = false) : stold s = .ok (.finite neg n) := by
  simp [stold, h, hrange]

/-- `std::stold` reads exactly the texts that it should read. -/
theorem stold_ok_iff (s : Bytes) : (∃ x, stold s = .ok x) ↔ Readable s := by
  unfold stold scanFloat Readable
  obtain ⟨neg, t⟩ := scanSign (s.dropWhile isSpace)
  cases hinf : startsWithWord (ascii "inf") t with
  | true => simp [hinf]
  | false =>
    cases hnan : startsWithWord (ascii "nan") t with
    | true => simp [hinf, hnan]
    | false =>
      have hstarts := scanUnsigned_isSome t
      cases hscan : scanUnsigned t with
      | none =>
        rw [hscan] at hstarts
        simp [hinf, hnan, hscan, ← hstarts]
      | some n =>
        rw [hscan] at hstarts
        have hrange := n.rangeError_eq_false_iff (scanUnsigned_base hscan)
        cases herr : n.rangeError with
        | true | false =>
          rw [herr] at hrange
          simp [hinf, hnan, hscan, herr, ← hstarts, ← hrange]

end Cpp
