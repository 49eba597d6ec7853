import Fuyao.Cpp.Strings
import Mathlib.Data.List.Induction
import Mathlib.Data.List.TakeWhile
import Mathlib.Data.Nat.Digits.Defs
import Mathlib.Tactic.Ring
import Mathlib.Tactic.IntervalCases

/-!
# Proofs: numbers survive being printed and read back

`stoul` and `stoi` invert `toStr` wherever the value fits their type, `toStr` is injective, and
a decimal numeral contains neither a colon nor a NUL. What is written to memory is read back.
-/

namespace Cpp

/-! ## Digits -/

/-- The byte of a digit. -/
def digitByte (d : Nat) : UInt8 := UInt8.ofNat (Nat.digitChar d).toNat

theorem isDigit_iff {b : UInt8} : isDigit b ↔ 48 ≤ b ∧ b ≤ 57 := by
  simp [isDigit]

theorem rawDigit_of_isDigit {b : UInt8} (h : isDigit b) : rawDigit b = b.toNat - 48 := by
  rw [rawDigit, if_pos (isDigit_iff.mp h)]

theorem rawDigit_lt_ten_iff (b : UInt8) : rawDigit b < 10 ↔ isDigit b = true := by
  simp only [rawDigit, isDigit, Bool.and_eq_true, decide_eq_true_eq, UInt8.le_iff_toNat_le]
  have h48 : (48 : UInt8).toNat = 48 := rfl
  have h57 : (57 : UInt8).toNat = 57 := rfl
  have h65 : (65 : UInt8).toNat = 65 := rfl
  have h97 : (97 : UInt8).toNat = 97 := rfl
  rw [h48, h57, h65, h97]
  split
  · omega
  · split
    · omega
    · split <;> omega

theorem rawDigit_digitByte {d : Nat} (h : d < 16) : rawDigit (digitByte d) = d := by
  interval_cases d <;> rfl

/-- The last digit comes off the end of a numeral. -/
theorem numeral_eq {base : Nat} (hb : 1 < base) (n : Nat) :
    numeral base n =
      if n < base then [digitByte n] else numeral base (n / base) ++ [digitByte (n % base)] := by
  unfold numeral
  rw [Nat.toDigits_eq_if hb]
  split
  · rfl
  · simp [digitByte]

theorem numeral_ne_nil (base n : Nat) : numeral base n ≠ [] := by
  simp [numeral, Nat.toDigits_ne_nil]

theorem mem_numeral {n : Nat} {b : UInt8} (h : b ∈ numeral 10 n) : 48 ≤ b ∧ b ≤ 57 := by
  induction n using Nat.strong_induction_on with
  | _ n ih =>
    have hdigit : ∀ d, d < 10 → 48 ≤ digitByte d ∧ digitByte d ≤ 57 := by decide
    rw [numeral_eq (by norm_num)] at h
    split at h
    next hn =>
      rw [List.mem_singleton] at h
      exact h ▸ hdigit n hn
    next hn =>
      rcases List.mem_append.mp h with h | h
      · exact ih (n / 10) (by omega) h
      · rw [List.mem_singleton] at h
        exact h ▸ hdigit (n % 10) (by omega)

theorem digitRun_append {base : Nat} {s t : Bytes} (h : ∀ b ∈ s, rawDigit b < base) :
    digitRun base (s ++ t) = s.map rawDigit ++ digitRun base t := by
  induction s with
  | nil => rfl
  | cons b s ih =>
    have hb := h b (List.mem_cons_self ..)
    simp only [List.cons_append, digitRun, hb, if_true, List.map_cons]
    rw [ih fun b' hb' => h b' (List.mem_cons_of_mem _ hb')]

theorem digitRun_eq_map {base : Nat} {s : Bytes} (h : ∀ b ∈ s, rawDigit b < base) :
    digitRun base s = s.map rawDigit := by
  simpa [digitRun] using digitRun_append (t := []) h

theorem horner_append_singleton (base : Nat) (ds : List Nat) (d : Nat) :
    horner base (ds ++ [d]) = horner base ds * base + d := by
  simp [horner]

theorem horner_eq_ofDigits (base : Nat) (ds : List Nat) : horner base ds = Nat.ofDigits base ds.reverse := by
  induction ds using List.reverseRecOn with
  | nil => rfl
  | append_singleton ds d ih =>
    rw [horner_append_singleton, ih, List.reverse_append, List.reverse_singleton, List.singleton_append,
      Nat.ofDigits_cons]
    ring

theorem horner_append (base : Nat) (ds es : List Nat) :
    horner base (ds ++ es) = horner base ds * base ^ es.length + horner base es := by
  simp only [horner_eq_ofDigits, List.reverse_append, Nat.ofDigits_append, List.length_reverse]
  ring

theorem horner_lt {base : Nat} (hb : 1 < base) {ds : List Nat} (h : ∀ d ∈ ds, d < base) :
    horner base ds < base ^ ds.length := by
  rw [horner_eq_ofDigits, ← List.length_reverse]
  exact Nat.ofDigits_lt_base_pow_length hb fun d hd => h d (List.mem_reverse.mp hd)

/-- The last digits of a number are its remainder. -/
theorem horner_drop {base n : Nat} (hb : 1 < base) {ds : List Nat} (h : ∀ d ∈ ds, d < base)
    (hn : n ≤ ds.length) : horner base (ds.drop (ds.length - n)) = horner base ds % base ^ n := by
  have hlen : (ds.drop (ds.length - n)).length = n := by
    rw [List.length_drop]
    omega
  have hlt := @horner_lt base hb (ds.drop (ds.length - n)) fun d hd => h d (List.mem_of_mem_drop hd)
  have hsplit := horner_append base (ds.take (ds.length - n)) (ds.drop (ds.length - n))
  rw [List.take_append_drop, hlen] at hsplit
  rw [hlen] at hlt
  rw [hsplit, Nat.mul_add_mod_self_right, Nat.mod_eq_of_lt hlt]

/-- A numeral consists of digits and denotes the number it was made from. -/
theorem numeral_digits {base : Nat} (hb : 1 < base) (hb' : base ≤ 16) (n : Nat) :
    (∀ b ∈ numeral base n, rawDigit b < base) ∧ horner base ((numeral base n).map rawDigit) = n := by
  induction n using Nat.strong_induction_on with
  | _ n ih =>
    rw [numeral_eq hb]
    split
    next hn =>
      have hd : rawDigit (digitByte n) = n := rawDigit_digitByte (by omega)
      refine ⟨?_, ?_⟩
      · intro b hmem
        rw [List.mem_singleton] at hmem
        rw [hmem, hd]
        exact hn
      · simp [horner, hd]
    next hn =>
      have hlt : n % base < base := Nat.mod_lt _ (by omega)
      have hd : rawDigit (digitByte (n % base)) = n % base := rawDigit_digitByte (by omega)
      obtain ⟨ih1, ih2⟩ := ih (n / base) (Nat.div_lt_self (by omega) hb)
      refine ⟨?_, ?_⟩
      · intro b hmem
        rcases List.mem_append.mp hmem with h | h
        · exact ih1 b h
        · rw [List.mem_singleton] at h
          rw [h, hd]
          exact hlt
      · rw [List.map_append, List.map_singleton, horner_append_singleton, ih2, hd]
        exact Nat.div_add_mod' n base

/-! ## Printing and reading -/

theorem skipHexMark_ten (s : Bytes) : skipHexMark 10 s = s := by
  unfold skipHexMark
  split <;> simp

/-- A byte that is a digit in some base is neither white space nor a sign. -/
theorem not_space_of_rawDigit {b : UInt8} (h : rawDigit b < 36) : isSpace b = false ∧ b ≠ 45 ∧ b ≠ 43 := by
  have hall : ∀ n : Fin 256, rawDigit (UInt8.ofFin n) < 36 →
      isSpace (UInt8.ofFin n) = false ∧ UInt8.ofFin n ≠ 45 ∧ UInt8.ofFin n ≠ 43 := by
    decide +kernel
  exact hall b.toFin h

/-- Before a digit neither white space nor a sign is skipped. -/
theorem scanSign_digit {b : UInt8} (h : rawDigit b < 36) (s : Bytes) :
    scanSign ((b :: s).dropWhile isSpace) = (false, b :: s) := by
  obtain ⟨hspace, hminus, hplus⟩ := not_space_of_rawDigit h
  rw [List.dropWhile_cons_of_neg (by simp [hspace])]
  unfold scanSign
  split
  next heq => exact absurd (List.cons.inj heq).1 hminus
  next heq => exact absurd (List.cons.inj heq).1 hplus
  next => rfl

theorem digitRun_digits {s : Bytes} (h : ∀ b ∈ s, isDigit b) : digitRun 10 s = s.map rawDigit :=
  digitRun_eq_map fun b hb => (rawDigit_lt_ten_iff b).mpr (h b hb)

/-- A string of decimal digits is read as the number it denotes. -/
theorem scanInteger_digits {s : Bytes} (hne : s ≠ []) (h : ∀ b ∈ s, isDigit b) :
    scanInteger 10 s = some (false, decimal s) := by
  obtain ⟨b, s, rfl⟩ := List.exists_cons_of_ne_nil hne
  have hb := (rawDigit_lt_ten_iff b).mpr (h b (List.mem_cons_self ..))
  have hrun := digitRun_digits h
  rw [List.map_cons] at hrun
  simp only [scanInteger, scanSign_digit (by omega : rawDigit b < 36) s, skipHexMark_ten, hrun, decimal,
    List.map_cons]

theorem scanInteger_neg_digits {s : Bytes} (hne : s ≠ []) (h : ∀ b ∈ s, isDigit b) :
    scanInteger 10 (45 :: s) = some (true, decimal s) := by
  obtain ⟨b, s, rfl⟩ := List.exists_cons_of_ne_nil hne
  have hrun := digitRun_digits h
  have hsp : (45 :: b :: s).dropWhile isSpace = 45 :: b :: s := List.dropWhile_cons_of_neg (by decide)
  rw [List.map_cons] at hrun
  simp only [scanInteger, hsp, scanSign, skipHexMark_ten, hrun, decimal, List.map_cons]

theorem isDigit_numeral (n : Nat) : ∀ b ∈ numeral 10 n, isDigit b :=
  fun _ hb => isDigit_iff.mpr (mem_numeral hb)

theorem decimal_numeral (n : Nat) : decimal (numeral 10 n) = n :=
  (numeral_digits (by norm_num : 1 < 10) (by norm_num) n).2

/-- What is read back from a printed integer is its sign and its magnitude. -/
theorem scanInteger_toStr (z : Int) :
    scanInteger 10 (toStr z) = some (decide (z < 0), z.natAbs) := by
  unfold toStr
  split
  next h =>
    rw [scanInteger_neg_digits (numeral_ne_nil _ _) (isDigit_numeral _), decimal_numeral, decide_eq_true h]
  next h =>
    rw [scanInteger_digits (numeral_ne_nil _ _) (isDigit_numeral _), decimal_numeral, decide_eq_false h]

theorem toStr_injective : Function.Injective toStr := by
  intro z w h
  have hs := congrArg (scanInteger 10) h
  rw [scanInteger_toStr, scanInteger_toStr] at hs
  simp only [Option.some.injEq, Prod.mk.injEq, decide_eq_decide] at hs
  omega

theorem mem_toStr {z : Int} {b : UInt8} (h : b ∈ toStr z) :
    b = 45 ∨ 48 ≤ b ∧ b ≤ 57 := by
  unfold toStr at h
  split at h
  · rcases List.mem_cons.mp h with h | h
    · exact Or.inl h
    · exact Or.inr (mem_numeral h)
  · exact Or.inr (mem_numeral h)

theorem colon_notMem_toStr (z : Int) : (58 : UInt8) ∉ toStr z := by
  intro h
  rcases mem_toStr h with h | h
  · exact absurd h (by decide)
  · exact absurd h.2 (by decide)

/-- A number of `k` digits is less than `10 ^ k`. -/
theorem lt_pow_length_numeral (n : ℕ) : n < 10 ^ (numeral 10 n).length := by
  induction n using Nat.strong_induction_on with
  | _ n ih =>
    rw [numeral_eq (by norm_num)]
    split
    next hlt => simpa using hlt
    next hge =>
      have hdiv := ih (n / 10) (by omega)
      rw [List.length_append, List.length_singleton, Nat.pow_succ]
      omega

theorem natAbs_lt_of_length_toStr {k : ℕ} {z : Int} (h : (toStr z).length ≤ k) : z.natAbs < 10 ^ k := by
  have hlength : (numeral 10 z.natAbs).length ≤ (toStr z).length := by
    unfold toStr
    split <;> simp
  exact (lt_pow_length_numeral _).trans_le (Nat.pow_le_pow_right (by norm_num) (hlength.trans h))

/-- No hexadecimal digit is an `x`, so a string of digits has no mark. -/
theorem skipHexMark_digits {s : Bytes} (h : ∀ b ∈ s, rawDigit b < 16) : skipHexMark 16 s = s := by
  unfold skipHexMark
  split
  next x s =>
    rw [if_neg]
    rintro ⟨-, rfl | rfl, -⟩
    · exact absurd (h 120 (by simp)) (by decide)
    · exact absurd (h 88 (by simp)) (by decide)
  next => rfl

/-- A string of hexadecimal digits is read as the number it denotes. -/
theorem stoulBase_hex {s : Bytes} (hne : s ≠ []) (h : ∀ b ∈ s, rawDigit b < 16)
    (hfits : horner 16 (s.map rawDigit) < 2 ^ 64) :
    stoulBase 16 s = .ok (UInt64.ofNat (horner 16 (s.map rawDigit))) := by
  obtain ⟨b, s, rfl⟩ := List.exists_cons_of_ne_nil hne
  have hb := h b (List.mem_cons_self ..)
  have hrun := digitRun_eq_map h
  rw [List.map_cons] at hrun
  have hscan : scanInteger 16 (b :: s) = some (false, horner 16 ((b :: s).map rawDigit)) := by
    simp only [scanInteger, scanSign_digit (by omega : rawDigit b < 36) s, skipHexMark_digits h, hrun,
      List.map_cons]
  rw [stoulBase, hscan]
  simp only [if_neg (not_le.mpr hfits)]
  rfl

theorem stoulBase_ne_overflow (base : Nat) (s : Bytes) : stoulBase base s ≠ .error .overflow := by
  unfold stoulBase
  split
  · simp
  · split <;> simp

/-- A natural number below `2 ^ 64` is read back by `stoul`. -/
theorem stoul_toStr_natCast {n : Nat} (h : n < 2 ^ 64) :
    stoul (toStr n) = .ok (UInt64.ofNat n) := by
  have hneg : ¬ ((n : Int) < 0) := by omega
  simp only [stoul, stoulBase, scanInteger_toStr, Int.natAbs_natCast, decide_eq_false hneg]
  rw [if_neg (by omega)]
  rfl

/-- Every `int64_t`, negative ones included, survives `std::to_string` and
`(int64_t) std::stoul`. -/
theorem stoul_toStr_int64 (x : Int64) :
    stoul (toStr x.toInt) = .ok x.toUInt64 := by
  have hlo : -2 ^ 63 ≤ x.toInt := Int64.le_toInt x
  have hhi : x.toInt < 2 ^ 63 := Int64.toInt_lt x
  simp only [stoul, stoulBase, scanInteger_toStr]
  rw [if_neg (by omega)]
  congr 1
  have hx : Int64.ofInt x.toInt = x := Int64.ofInt_toInt x
  by_cases hneg : x.toInt < 0
  · have habs : x.toInt = -(x.toInt.natAbs : Int) := by omega
    simp only [hneg, decide_true, if_true]
    conv_rhs => rw [← hx, habs]
    rw [Int64.ofInt_neg, Int64.ofInt_eq_ofNat]
    rfl
  · have habs : x.toInt = (x.toInt.natAbs : Int) := by omega
    simp only [hneg, decide_false]
    conv_rhs => rw [← hx, habs]
    rw [Int64.ofInt_eq_ofNat]
    rfl

theorem sign_natAbs (z : Int) :
    (if decide (z < 0) = true then -(z.natAbs : Int) else z.natAbs) = z := by
  split
  next h =>
    have := of_decide_eq_true h
    omega
  next h =>
    have := of_decide_eq_false (Bool.eq_false_of_not_eq_true h)
    omega

/-- `std::stol` reads back every `long`. -/
theorem stol_toStr (x : Int64) : stol (toStr x.toInt) = .ok x := by
  have hlo : -2 ^ 63 ≤ x.toInt := Int64.le_toInt x
  have hhi : x.toInt < 2 ^ 63 := Int64.toInt_lt x
  simp only [stol, scanInteger_toStr, sign_natAbs]
  rw [if_neg (by omega), Int64.ofInt_toInt]

/-- `std::stoi` reads back what fits an `int`. -/
theorem stoi_toStr {z : Int} (hlo : -2 ^ 31 ≤ z) (hhi : z < 2 ^ 31) :
    stoi (toStr z) = .ok (Int32.ofInt z) := by
  simp only [stoi, scanInteger_toStr, sign_natAbs]
  rw [if_neg (by omega)]

/-- `std::stoi` throws on what does not fit an `int`. -/
theorem stoi_toStr_outOfRange {z : Int} (h : z < -2 ^ 31 ∨ 2 ^ 31 ≤ z) :
    stoi (toStr z) = .error .outOfRange := by
  simp only [stoi, scanInteger_toStr, sign_natAbs]
  rw [if_pos (by omega)]

/-! ## Character arrays -/

theorem cStr_eq_self {s : Bytes} (h : 0 ∉ s) : cStr s = s := by
  refine List.takeWhile_eq_self_iff.mpr fun b hb => ?_
  have : b ≠ 0 := fun h0 => h (h0 ▸ hb)
  simpa using this

@[ext] theorem CString.ext {n : Nat} {s t : CString n} (h : s.bytes = t.bytes) : s = t := by
  cases s; cases t; simp only at h; subst h; rfl

/-- Copying the content of an array into an array of the same size gives the same content. -/
theorem strcpy_bytes {n : Nat} (s : CString n) : strcpy n s.bytes = .ok s := by
  have h := cStr_eq_self s.no_nul
  rw [strcpy, dif_pos (by rw [h]; exact s.fits)]
  congr 1
  exact CString.ext h

/-! ## Integers in memory -/

theorem length_leBytes (w n : Nat) : (leBytes w n).length = w := by
  induction w generalizing n with
  | zero => rfl
  | succ w ih => simp [leBytes, ih]

theorem ofLeBytes_leBytes (w n : Nat) : ofLeBytes (leBytes w n) = n % 256 ^ w := by
  induction w generalizing n with
  | zero => simp [leBytes, ofLeBytes, Nat.mod_one]
  | succ w ih =>
    have hbyte : (UInt8.ofNat n).toNat = n % 256 := UInt8.toNat_ofNat'
    rw [leBytes, ofLeBytes, ih, hbyte, Nat.pow_succ', Nat.mod_mul]

theorem length_storeInt (v : Int32) {s : Bytes} (h : 4 ≤ s.length) : (storeInt v s).length = s.length := by
  simp only [storeInt, List.length_append, length_leBytes, List.length_drop]
  omega

theorem drop_storeInt (v : Int32) (s : Bytes) : (storeInt v s).drop 4 = s.drop 4 :=
  List.drop_left' (length_leBytes 4 _)

theorem loadInt_storeInt (v : Int32) (s : Bytes) : loadInt (storeInt v s) = v := by
  have htake : (storeInt v s).take 4 = leBytes 4 v.toUInt32.toNat := List.take_left' (length_leBytes 4 _)
  rw [loadInt, htake, ofLeBytes_leBytes, Nat.mod_eq_of_lt (by simpa using v.toUInt32.toNat_lt)]
  simp

/-- Only the last of two writes to the same place is seen. -/
theorem storeInt_storeInt (v w : Int32) (s : Bytes) : storeInt v (storeInt w s) = storeInt v s := by
  rw [storeInt, drop_storeInt, storeInt]

theorem toNat_toUInt64 {x : Int64} (h : 0 ≤ x) : x.toUInt64.toNat = x.toInt.toNat := by
  have hx : 0 ≤ x.toInt := by simpa using Int64.le_iff_toInt_le.mp h
  have hval : x.toInt = x.toUInt64.toBitVec.toInt := rfl
  have hnat : x.toUInt64.toNat = x.toUInt64.toBitVec.toNat := rfl
  rw [BitVec.toInt_eq_toNat_cond] at hval
  have := x.toUInt64.toNat_lt
  split at hval <;> omega

theorem toInt_toInt64 {x : UInt64} (h : x.toNat < 2 ^ 63) : x.toInt64.toInt = x.toNat :=
  BitVec.toInt_eq_toNat_of_lt (show 2 * x.toNat < 2 ^ 64 by omega)

theorem toInt_add_one {x : Int64} (h : x.toInt < 2 ^ 63 - 1) : (x + 1).toInt = x.toInt + 1 := by
  have hle := x.le_toInt
  rw [Int64.toInt_add]
  exact Int.bmod_eq_of_le (by simp; omega) (by simp; omega)

theorem toInt_sub_one {x : Int64} (h : -2 ^ 63 < x.toInt) : (x - 1).toInt = x.toInt - 1 := by
  have hlt := x.toInt_lt
  rw [Int64.toInt_sub]
  exact Int.bmod_eq_of_le (by simp; omega) (by simp; omega)

theorem sizeOfInt_of_nonneg {n : Int32} (h : 0 ≤ n.toInt) : sizeOfInt n = n.toInt.toNat := by
  have hlt := n.toInt_lt
  rw [sizeOfInt, Int.emod_eq_of_lt h (by omega)]

/-- A negative `int` is a huge `size_t`. -/
theorem le_sizeOfInt_of_neg {n : Int32} (h : n.toInt < 0) : 2 ^ 63 ≤ sizeOfInt n := by
  have hle := n.le_toInt
  rw [sizeOfInt]
  omega

/-- A counter of 16 bits shows the same value again after every 65536 steps. -/
theorem uint16_ofNat_eq_iff {m n : Nat} (h : m ≤ n) : UInt16.ofNat m = UInt16.ofNat n ↔ 2 ^ 16 ∣ n - m := by
  rw [← UInt16.toNat_inj, UInt16.toNat_ofNat', UInt16.toNat_ofNat']
  omega

end Cpp
