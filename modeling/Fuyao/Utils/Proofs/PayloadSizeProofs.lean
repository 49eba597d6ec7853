import Fuyao.Cpp.Proofs.StringsProofs
import Fuyao.Utils.PayloadSize

/-!
# Proofs: which sizes `parse_payload_size` reads

The main loop goes past a run of digits and letters in any order, with the number denoted by all the
digits and the unit of the last letter. From that follow both what it makes of the strings of the format
and which other strings it accepts.
-/

namespace Utils

open Cpp

/-! ## One character -/

section Characters

variable {ch : UInt8}

theorem isSizeChar_of_isDigit (h : isDigit ch) : isSizeChar ch := by
  simp [isSizeChar, h]

theorem ne_of_isSizeChar {b : UInt8} (hb : ¬ isSizeChar b) (h : isSizeChar ch) : ch ≠ b := by
  rintro rfl
  exact hb h

/-- The letters of the units are no digits. -/
theorem letter_cases (h : isSizeChar ch) : isDigit ch ∨ ¬ isDigit ch ∧ (ch = 75 ∨ ch = 77 ∨ ch = 71) := by
  by_cases hd : isDigit ch
  · exact .inl hd
  · refine .inr ⟨hd, ?_⟩
    simp only [isSizeChar, hd, Bool.false_or, Bool.or_eq_true, beq_iff_eq] at h
    tauto

theorem mem_letter {unit : SizeUnit} (h : ch ∈ unit.letter) : isSizeChar ch ∧ ¬ isDigit ch := by
  cases unit with
  | bytes => simp [SizeUnit.letter] at h
  | K | M | G =>
    rw [SizeUnit.letter, List.mem_singleton] at h
    subst h
    decide

theorem next_of_isDigit {unit : SizeUnit} (h : isDigit ch) : unit.next ch = unit := by
  have hne : ∀ b, ¬ isDigit b → ch ≠ b := by
    rintro b hb rfl
    exact hb h
  rw [SizeUnit.next, if_neg (hne 75 (by decide)), if_neg (hne 77 (by decide)), if_neg (hne 71 (by decide))]

end Characters

theorem factor_pos (unit : SizeUnit) : 0 < unit.factor := by
  cases unit <;> decide

/-! ## The main loop -/

/-- The number after the digits of a run have been read on from `n`. -/
def readOn (n : ℕ) (run : Bytes) : ℕ := ((run.filter isDigit).map rawDigit).foldl (fun n d => n * 10 + d) n

theorem readOn_digit {ch : UInt8} (h : isDigit ch) (n : ℕ) (run : Bytes) :
    readOn n (ch :: run) = readOn (n * 10 + rawDigit ch) run := by
  rw [readOn, List.filter_cons_of_pos h]
  rfl

theorem readOn_letter {ch : UInt8} (h : ¬ isDigit ch) (n : ℕ) (run : Bytes) :
    readOn n (ch :: run) = readOn n run := by
  rw [readOn, List.filter_cons_of_neg h]
  rfl

/-- Reading on never makes the number smaller, so an overflow is final. -/
theorem le_readOn (n : ℕ) (run : Bytes) : n ≤ readOn n run := by
  induction run generalizing n with
  | nil => exact le_rfl
  | cons ch run ih =>
    by_cases hd : isDigit ch
    · have := ih (n * 10 + rawDigit ch)
      rw [readOn_digit hd]
      omega
    · rw [readOn_letter hd]
      exact ih n

theorem checkedLong_natCast {n : ℕ} (h : n < 2 ^ 63) : checkedLong n = .ok (Int64.ofNat n) := by
  rw [checkedLong, if_pos (by omega), Int64.ofInt_eq_ofNat]

theorem checkedLong_overflow {z : Int} (h : 2 ^ 63 ≤ z) : checkedLong z = .error .overflow := by
  rw [checkedLong, if_neg (by omega)]

/-- One digit: the two operations overflow exactly if the number with that digit is no `long`. -/
theorem sizeLoop_digit {ch : UInt8} (hd : isDigit ch) {n : ℕ} (hn : n < 2 ^ 63) (rest : Bytes)
    (unit : SizeUnit) :
    sizeLoop (ch :: rest) (Int64.ofNat n) unit =
      if n * 10 + rawDigit ch < 2 ^ 63 then sizeLoop rest (Int64.ofNat (n * 10 + rawDigit ch)) unit
      else .error .overflow := by
  have hne : ∀ b, ¬ isDigit b → ch ≠ b := by
    rintro b hb rfl
    exact hb hd
  have hge : 48 ≤ ch.toNat := (isDigit_iff.mp hd).1
  have htoInt : (Int64.ofNat n).toInt = n := Int64.toInt_ofNat_of_lt hn
  rw [sizeLoop, if_neg (hne 66 (by decide)), if_neg (hne 75 (by decide)), if_neg (hne 77 (by decide)),
    if_neg (hne 71 (by decide)), if_pos (isDigit_iff.mp hd), htoInt, rawDigit_of_isDigit hd]
  by_cases htens : n * 10 < 2 ^ 63
  · have hcast : (n : Int) * 10 = ((n * 10 : ℕ) : Int) := by omega
    rw [hcast, checkedLong_natCast htens]
    simp only [Except.bind, bind, Int64.toInt_ofNat_of_lt htens]
    have hsum : ((n * 10 : ℕ) : Int) + ((ch.toNat : Int) - 48) = ((n * 10 + (ch.toNat - 48) : ℕ) : Int) := by
      omega
    rw [hsum]
    by_cases hfits : n * 10 + (ch.toNat - 48) < 2 ^ 63
    · rw [checkedLong_natCast hfits, if_pos hfits]
    · rw [checkedLong_overflow (by omega), if_neg hfits]
  · rw [checkedLong_overflow (by omega), if_neg (by omega)]
    rfl

theorem sizeLoop_letter {ch : UInt8} (h : ch = 75 ∨ ch = 77 ∨ ch = 71) (rest : Bytes) (n : Int64)
    (unit : SizeUnit) : sizeLoop (ch :: rest) n unit = sizeLoop rest n (unit.next ch) := by
  rcases h with rfl | rfl | rfl <;> rfl

/-- A run of digits and letters: it overflows exactly if its digits denote no `long`. -/
theorem sizeLoop_run {run : Bytes} (hrun : ∀ ch ∈ run, isSizeChar ch) (rest : Bytes) {n : ℕ}
    (hn : n < 2 ^ 63) (unit : SizeUnit) :
    sizeLoop (run ++ rest) (Int64.ofNat n) unit =
      if readOn n run < 2 ^ 63 then sizeLoop rest (Int64.ofNat (readOn n run)) (run.foldl SizeUnit.next unit)
      else .error .overflow := by
  induction run generalizing n unit with
  | nil => exact (if_pos hn).symm
  | cons ch run ih =>
    have hrest : ∀ ch' ∈ run, isSizeChar ch' := fun ch' h => hrun ch' (List.mem_cons_of_mem _ h)
    rw [List.cons_append, List.foldl_cons]
    rcases letter_cases (hrun ch (List.mem_cons_self ..)) with hd | ⟨hd, hletter⟩
    · rw [readOn_digit hd, sizeLoop_digit hd hn, next_of_isDigit hd]
      split
      next h => exact ih hrest h unit
      next h =>
        have := le_readOn (n * 10 + rawDigit ch) run
        rw [if_neg (by omega)]
    · rw [readOn_letter hd, sizeLoop_letter hletter]
      exact ih hrest hn _

theorem sizeLoop_B (rest : Bytes) {n : ℕ} (hn : n < 2 ^ 63) (unit : SizeUnit) :
    sizeLoop (66 :: rest) (Int64.ofNat n) unit =
      if n * unit.factor < 2 ^ 63 then
        .ok (if rest.all (· == 32) then Int64.ofInt (n * unit.factor) else -1)
      else .error .overflow := by
  have hpos := factor_pos unit
  have hlow : -2 ^ 63 ≤ (n : Int) * unit.factor := le_trans (by norm_num) (by positivity : (0 : Int) ≤ _)
  rw [sizeLoop, if_pos rfl, Int64.toInt_ofNat_of_lt hn]
  by_cases hfits : n * unit.factor < 2 ^ 63
  · rw [checkedLong, if_pos ⟨hlow, hfits⟩, if_pos hfits]
    change (if rest.all (· == 32) then _ else _) = _
    split <;> rfl
  · rw [checkedLong_overflow (not_lt.mp hfits), if_neg hfits]
    rfl

/-- What stops the loop. -/
theorem sizeLoop_stop {s : Bytes} (hs : ∀ ch rest, s = ch :: rest → ¬ isSizeChar ch) {n : ℕ}
    (hn : n < 2 ^ 63) (unit : SizeUnit) :
    sizeLoop s (Int64.ofNat n) unit =
      if s.head? = some 66 then
        if n * unit.factor < 2 ^ 63 then
          .ok (if s.tail.all (· == 32) then Int64.ofInt (n * unit.factor) else -1)
        else .error .overflow
      else .ok (-1) := by
  cases s with
  | nil => rfl
  | cons ch rest =>
    have hch := hs ch rest rfl
    have hne : ∀ b, isSizeChar b → ch ≠ b := by
      rintro b hb rfl
      exact hch hb
    have hnd : ¬ (48 ≤ ch ∧ ch ≤ 57) := fun h => hch (isSizeChar_of_isDigit (isDigit_iff.mpr h))
    rw [List.head?_cons, List.tail_cons]
    by_cases hB : ch = 66
    · rw [hB, if_pos rfl, sizeLoop_B rest hn]
    · rw [sizeLoop, if_neg hB, if_neg (hne 75 (by decide)), if_neg (hne 77 (by decide)),
        if_neg (hne 71 (by decide)), if_neg hnd, if_neg (by simpa using hB)]

/-- `parse_payload_size` in terms of the run it scans. -/
theorem parsePayloadSize_eq (s : Bytes) :
    parsePayloadSize s =
      if runNumber (sizeRun s) < 2 ^ 63 then
        if (afterRun s).head? = some 66 then
          if runNumber (sizeRun s) * (runUnit (sizeRun s)).factor < 2 ^ 63 then
            .ok (if (afterRun s).tail.all (· == 32) then
              Int64.ofInt (runNumber (sizeRun s) * (runUnit (sizeRun s)).factor) else -1)
          else .error .overflow
        else .ok (-1)
      else .error .overflow := by
  have hrun : ∀ ch ∈ sizeRun s, isSizeChar ch := fun ch h => List.all_eq_true.mp List.all_takeWhile ch h
  have hafter : ∀ ch rest, afterRun s = ch :: rest → ¬ isSizeChar ch := by
    intro ch rest h hch
    have hhead := List.head?_dropWhile_not isSizeChar ((cStr s).dropWhile (· == 32))
    rw [← afterRun, h] at hhead
    simp [hch] at hhead
  have hsplit : (cStr s).dropWhile (· == 32) = sizeRun s ++ afterRun s :=
    (List.takeWhile_append_dropWhile ..).symm
  have hloop := sizeLoop_run hrun (afterRun s) (by norm_num : (0 : ℕ) < 2 ^ 63) .bytes
  rw [parsePayloadSize, hsplit]
  refine hloop.trans ?_
  change (if runNumber (sizeRun s) < 2 ^ 63 then _ else _) = _
  split
  next h => exact sizeLoop_stop hafter h _
  next => rfl

/-! ## Strings of the format -/

theorem runNumber_append_letter {digits : Bytes} (hdigits : ∀ ch ∈ digits, isDigit ch) (unit : SizeUnit) :
    runNumber (digits ++ unit.letter) = decimal digits := by
  have hletter : unit.letter.filter isDigit = [] := by
    rw [List.filter_eq_nil_iff]
    exact fun ch h => (mem_letter h).2
  rw [runNumber, List.filter_append, List.filter_eq_self.mpr hdigits, hletter, List.append_nil]

theorem runUnit_append_letter {digits : Bytes} (hdigits : ∀ ch ∈ digits, isDigit ch) (unit : SizeUnit) :
    runUnit (digits ++ unit.letter) = unit := by
  have hfold : digits.foldl SizeUnit.next .bytes = .bytes := by
    induction digits with
    | nil => rfl
    | cons ch digits ih =>
      rw [List.foldl_cons, next_of_isDigit (hdigits ch (List.mem_cons_self ..))]
      exact ih fun ch' h => hdigits ch' (List.mem_cons_of_mem _ h)
  rw [runUnit, List.foldl_append, hfold]
  cases unit <;> rfl

/-- The loop splits a string of the format where it should. -/
theorem IsSize.scan {s : Bytes} {n : ℕ} {unit : SizeUnit} (h : IsSize (cStr s) n unit) :
    ∃ digits b, digits ≠ [] ∧ (∀ ch ∈ digits, isDigit ch) ∧ decimal digits = n ∧
      sizeRun s = digits ++ unit.letter ∧ afterRun s = 66 :: List.replicate b 32 := by
  obtain ⟨a, digits, b, hne, hdigits, hn, hs⟩ := h
  have hrun : ∀ ch ∈ digits ++ unit.letter, isSizeChar ch := by
    intro ch hch
    rcases List.mem_append.mp hch with hch | hch
    · exact isSizeChar_of_isDigit (hdigits ch hch)
    · exact (mem_letter hch).1
  have hspaces : (cStr s).dropWhile (· == 32) = digits ++ unit.letter ++ 66 :: List.replicate b 32 := by
    rw [hs, List.append_assoc, List.dropWhile_append_of_pos (by simp)]
    obtain ⟨ch, digits, rfl⟩ := List.exists_cons_of_ne_nil hne
    refine List.dropWhile_cons_of_neg ?_
    simpa using ne_of_isSizeChar (b := 32) (by decide) (hrun ch (by simp))
  refine ⟨digits, b, hne, hdigits, hn, ?_, ?_⟩
  · rw [sizeRun, hspaces, List.takeWhile_append_of_pos hrun, List.takeWhile_cons_of_neg (by decide),
      List.append_nil]
  · rw [afterRun, hspaces, List.dropWhile_append_of_pos hrun, List.dropWhile_cons_of_neg (by decide)]

/-- A string that the loop splits in that way is one of the format. -/
theorem isSize_of_scan {s digits rest : Bytes} {unit : SizeUnit} (hne : digits ≠ [])
    (hdigits : ∀ ch ∈ digits, isDigit ch) (hrun : sizeRun s = digits ++ unit.letter)
    (hafter : afterRun s = 66 :: rest) (hrest : ∀ ch ∈ rest, ch = 32) :
    IsSize (cStr s) (decimal digits) unit := by
  refine ⟨((cStr s).takeWhile (· == 32)).length, digits, rest.length, hne, hdigits, rfl, ?_⟩
  have hspaces : List.replicate ((cStr s).takeWhile (· == 32)).length 32 = (cStr s).takeWhile (· == 32) := by
    refine (List.eq_replicate_of_mem fun ch hch => ?_).symm
    simpa using List.all_eq_true.mp List.all_takeWhile ch hch
  have hsplit : (cStr s).dropWhile (· == 32) = sizeRun s ++ afterRun s :=
    (List.takeWhile_append_dropWhile ..).symm
  rw [hspaces, ← List.eq_replicate_of_mem hrest, ← hrun, ← hafter, List.append_assoc, ← hsplit,
    List.takeWhile_append_dropWhile]

/-- Every size of the format whose product is a `long` is read correctly. -/
theorem parsePayloadSize_of_isSize {s : Bytes} {n : ℕ} {unit : SizeUnit} (h : IsSize (cStr s) n unit)
    (hfits : n * unit.factor < 2 ^ 63) : parsePayloadSize s = .ok (Int64.ofInt (n * unit.factor)) := by
  obtain ⟨digits, b, hne, hdigits, hn, hrun, hafter⟩ := h.scan
  have hpos := factor_pos unit
  have hle : (n : Int) ≤ n * unit.factor := le_mul_of_one_le_right (by positivity) hpos
  have hlt : n < 2 ^ 63 := by omega
  rw [parsePayloadSize_eq, hrun, hafter, runNumber_append_letter hdigits, runUnit_append_letter hdigits, hn,
    if_pos hlt, List.head?_cons, if_pos rfl, if_pos hfits, List.tail_cons, if_pos (by simp)]

theorem notMem_of_isSize {digits : Bytes} {unit : SizeUnit} (hdigits : ∀ ch ∈ digits, isDigit ch) (a b : ℕ) :
    0 ∉ List.replicate a 32 ++ (digits ++ unit.letter) ++ 66 :: List.replicate b 32 := by
  intro h
  have hnot : ¬ isSizeChar 0 := by decide
  simp only [List.mem_append, List.mem_cons, List.mem_replicate] at h
  rcases h with (h | h | h) | h | h
  · exact absurd h.2 (by decide)
  · exact hnot (isSizeChar_of_isDigit (hdigits 0 h))
  · exact hnot (mem_letter h).1
  · exact absurd h (by decide)
  · exact absurd h.2 (by decide)

theorem toInt_size {n : ℕ} {unit : SizeUnit} (hfits : n * unit.factor < 2 ^ 63) :
    (Int64.ofInt (n * unit.factor)).toInt = n * unit.factor := by
  have hpos := factor_pos unit
  have hlow : -2 ^ 63 ≤ (n : Int) * unit.factor := le_trans (by norm_num) (by positivity : (0 : Int) ≤ _)
  exact Int64.toInt_ofInt_of_le hlow hfits

/-- Every well-formed size is read correctly. -/
theorem parse_payload_size_exact {digits : Bytes} {unit : SizeUnit} (a b : ℕ) (hne : digits ≠ [])
    (hdigits : ∀ ch ∈ digits, isDigit ch) (hfits : decimal digits * unit.factor < 2 ^ 63) :
    ∃ size, parsePayloadSize (List.replicate a 32 ++ (digits ++ unit.letter) ++ 66 :: List.replicate b 32) =
      .ok size ∧ size.toInt = decimal digits * unit.factor := by
  have hsize : IsSize (cStr (List.replicate a 32 ++ (digits ++ unit.letter) ++ 66 :: List.replicate b 32))
      (decimal digits) unit := by
    rw [cStr_eq_self (notMem_of_isSize hdigits a b)]
    exact ⟨a, digits, b, hne, hdigits, rfl, rfl⟩
  exact ⟨_, parsePayloadSize_of_isSize hsize hfits, toInt_size hfits⟩

theorem parse_payload_size_exact_sample :
    ∃ size, parsePayloadSize (ascii "  016KB ") = .ok size ∧ size.toInt = 16 * 1024 :=
  @parse_payload_size_exact (ascii "016") .K 2 1 (by decide) (List.all_eq_true.mp rfl) (by decide)

/-! ## Strings that are accepted -/

/-- A string that is accepted has been scanned to a `B` with only spaces after it. -/
theorem accepted_cases {s : Bytes} {size : Int64} (h : parsePayloadSize s = .ok size) (hne : size ≠ -1) :
    ∃ rest, afterRun s = 66 :: rest ∧ (∀ ch ∈ rest, ch = 32) ∧
      runNumber (sizeRun s) * (runUnit (sizeRun s)).factor < 2 ^ 63 ∧
      size = Int64.ofInt (runNumber (sizeRun s) * (runUnit (sizeRun s)).factor) := by
  rw [parsePayloadSize_eq] at h
  split at h
  · split at h
    next hhead =>
      split at h
      next hfits =>
        rw [Except.ok.injEq] at h
        split at h
        next hall =>
          obtain ⟨rest, hrest⟩ := List.head?_eq_some_iff.mp hhead
          rw [hrest, List.tail_cons] at hall
          exact ⟨rest, hrest, by simpa using hall, hfits, h.symm⟩
        · exact absurd h.symm hne
      · cases h
    · exact absurd (Except.ok.inj h).symm hne
  · cases h

theorem parsePayloadSize_ne_overflow {s : Bytes} (hn : runNumber (sizeRun s) < 2 ^ 63)
    (hproduct : ∀ rest, afterRun s = 66 :: rest →
      runNumber (sizeRun s) * (runUnit (sizeRun s)).factor < 2 ^ 63) :
    parsePayloadSize s ≠ .error .overflow := by
  rw [parsePayloadSize_eq, if_pos hn]
  split
  next hhead =>
    obtain ⟨rest, hrest⟩ := List.head?_eq_some_iff.mp hhead
    rw [if_pos (hproduct rest hrest)]
    simp
  · simp

/-- The format is kept on exactly these strings. -/
theorem parses_format_iff (s : Bytes) : ParsesFormat s ↔ KeepsToFormat s := by
  constructor
  · intro h
    have hn : runNumber (sizeRun s) < 2 ^ 63 := by
      by_contra hn
      exact h.no_overflow (by rw [parsePayloadSize_eq, if_neg hn])
    refine ⟨hn, fun rest hafter => ?_⟩
    have hhead : (afterRun s).head? = some 66 := by rw [hafter, List.head?_cons]
    have hfits : runNumber (sizeRun s) * (runUnit (sizeRun s)).factor < 2 ^ 63 := by
      by_contra hfits
      exact h.no_overflow (by rw [parsePayloadSize_eq, if_pos hn, if_pos hhead, if_neg hfits])
    refine ⟨hfits, fun hrest => ?_⟩
    -- the string is accepted, so it has the format
    have hall : (afterRun s).tail.all (· == 32) := by simpa [hafter] using hrest
    have hparse : parsePayloadSize s =
        .ok (Int64.ofInt (runNumber (sizeRun s) * (runUnit (sizeRun s)).factor)) := by
      rw [parsePayloadSize_eq, if_pos hn, if_pos hhead, if_pos hfits, if_pos hall]
    have hne : Int64.ofInt (runNumber (sizeRun s) * (runUnit (sizeRun s)).factor) ≠ -1 := by
      intro heq
      have hval := toInt_size hfits
      rw [heq] at hval
      have hpos := factor_pos (runUnit (sizeRun s))
      have hnonneg : (0 : Int) ≤ runNumber (sizeRun s) * (runUnit (sizeRun s)).factor := by positivity
      rw [← hval] at hnonneg
      exact absurd hnonneg (by decide)
    obtain ⟨n, unit, hsize, -⟩ := h.accepts _ hparse hne
    obtain ⟨digits, b, hne, hdigits, -, hrun, -⟩ := hsize.scan
    exact ⟨digits, unit, hne, hdigits, hrun⟩
  · rintro ⟨hn, hkeeps⟩
    refine ⟨fun size hparse hne => ?_, fun n unit hsize hlarge => ?_,
      parsePayloadSize_ne_overflow hn fun rest h => (hkeeps rest h).1⟩
    · obtain ⟨rest, hafter, hrest, hfits, rfl⟩ := accepted_cases hparse hne
      obtain ⟨digits, unit, hdne, hdigits, hrun⟩ := (hkeeps rest hafter).2 hrest
      have hval := toInt_size hfits
      rw [hrun, runNumber_append_letter hdigits, runUnit_append_letter hdigits] at hval ⊢
      exact ⟨_, unit, isSize_of_scan hdne hdigits hrun hafter hrest, hval⟩
    · obtain ⟨digits, b, -, hdigits, rfl, hrun, hafter⟩ := hsize.scan
      have hfits := (hkeeps _ hafter).1
      rw [hrun, runNumber_append_letter hdigits, runUnit_append_letter hdigits] at hfits
      exact absurd hfits (not_lt.mpr hlarge)

/-- `1K2B` is read as 12 KiB. -/
theorem mixed_size_accepted : ¬ ParsesFormat (ascii "1K2B") := by
  intro h
  obtain ⟨n, unit, hsize, -⟩ := h.accepts 12288 (by rfl) (by decide)
  obtain ⟨digits, b, -, hdigits, -, hrun, -⟩ := hsize.scan
  have hrun : [49, 75, 50] = digits ++ unit.letter := hrun
  have hletter : unit.letter = [] := by
    refine List.eq_nil_iff_forall_not_mem.mpr fun ch hch => ?_
    have hlast := congrArg List.getLast? hrun
    cases unit with
    | bytes => simp [SizeUnit.letter] at hch
    | K | M | G => simp [SizeUnit.letter] at hlast
  rw [hletter, List.append_nil] at hrun
  exact absurd (hdigits 75 (by simp [← hrun])) (by decide)

end Utils
