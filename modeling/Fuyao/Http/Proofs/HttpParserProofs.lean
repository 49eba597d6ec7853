import Fuyao.Http.HttpParser
import Mathlib.Tactic.Common

/-!
# Proofs: which part of the body is extracted

Every callback overwrites what the one before has stored, so the last fragment is what is left, and
without a fragment whatever the members happened to be.
-/

namespace Http.HttpParser

open Cpp

variable {p : HttpParser}

/-- One callback after the other. -/
theorem foldl_onHttpParser (p : HttpParser) (fragments : List Bytes) :
    fragments.foldl onHttpParser p = ⟨p.len_, fragments.getLast?.or p.payload⟩ := by
  induction fragments generalizing p with
  | nil => rfl
  | cons data fragments ih =>
    rw [List.foldl_cons, ih, List.getLast?_cons]
    cases fragments.getLast? <;> rfl

theorem extractPayload_eq (p : HttpParser) (fragments : List Bytes) :
    p.extractPayload ⟨fragments, p.len_⟩ =
      ((fragments.getLast?.or p.payload).map fun payload => Except.ok (some (payload ++ [0]))).getD
        (.error .overflow) := by
  simp only [extractPayload, foldl_onHttpParser, ne_eq, not_true_eq_false, if_false]
  cases fragments.getLast?.or p.payload <;> rfl

/-- The last fragment is the whole body exactly if the others are empty. -/
theorem flatten_eq_last (before : List Bytes) (last : Bytes) :
    last = (before ++ [last]).flatten ↔ ∀ data ∈ before, data = [] := by
  rw [List.flatten_append, List.flatten_singleton, ← List.flatten_eq_nil_iff]
  constructor
  · intro h
    have hlength := congrArg List.length h
    rw [List.length_append] at hlength
    exact List.eq_nil_of_length_eq_zero (by omega)
  · intro h
    rw [h, List.nil_append]

/-- For every response that is parsed to its end, whatever the members were before: the whole body is
returned if and only if there is a last fragment and those before it are empty, or there is no fragment
and the members happened to designate an empty piece of memory. -/
theorem extract_payload_whole_iff (p : HttpParser) (fragments : List Bytes) :
    p.extractPayload ⟨fragments, p.len_⟩ = .ok (some (fragments.flatten ++ [0])) ↔
      (∃ before last, fragments = before ++ [last] ∧ ∀ data ∈ before, data = []) ∨
        fragments = [] ∧ p.payload = some [] := by
  rw [extractPayload_eq]
  rcases List.eq_nil_or_concat fragments with rfl | ⟨before, last, rfl⟩
  · cases hpayload : p.payload with
    | none => simp
    | some payload => simp
  · have hlast : (before ++ [last]).getLast? = some last := List.getLast?_concat
    simp only [List.concat_eq_append, hlast, Option.some_or, Option.map_some, Option.getD_some, Except.ok.injEq,
      Option.some.injEq, List.append_left_inj, flatten_eq_last]
    constructor
    · exact fun h => .inl ⟨before, last, rfl, h⟩
    · rintro (⟨before', last', heq, h⟩ | ⟨hnil, -⟩)
      · rwa [(List.append_inj' heq rfl).1]
      · simp at hnil

/-- A response in two chunks loses the first one, and an empty response copies from a wild pointer. -/
theorem chunked_payload_truncated :
    (⟨30, none⟩ : HttpParser).extractPayload ⟨[ascii "ab", ascii "cd"], 30⟩ = .ok (some (ascii "cd" ++ [0])) ∧
      (⟨30, none⟩ : HttpParser).extractPayload ⟨[ascii "ab", ascii "cd"], 30⟩ ≠
        .ok (some ([ascii "ab", ascii "cd"].flatten ++ [0])) ∧
      (⟨30, none⟩ : HttpParser).extractPayload ⟨[], 30⟩ ≠ .ok (some ([].flatten ++ [0])) := by
  decide

end Http.HttpParser
