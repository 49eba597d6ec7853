import Fuyao.Concurrency.Stream

/-!
# Proofs: what a read returns

Sending, delivering and reading in terms of the content of a stream, whatever its pieces.
-/

namespace Concurrency

namespace Stream

variable {α : Type}

@[simp] theorem content_empty : (empty : Stream α).content = [] := rfl

@[simp] theorem content_send (s : Stream α) (xs : List α) : (s.send xs).content = s.content ++ xs := by
  simp [content, send]

@[simp] theorem content_deliver (s : Stream α) (n : ℕ) : (s.deliver n).content = s.content := by
  simp [content, deliver]

theorem read_cases {s s' : Stream α} {n : ℕ} {xs : List α} (h : s.read n = some (xs, s')) :
    0 < n ∧ xs.length = n ∧ s.content = xs ++ s'.content := by
  simp only [read] at h
  split at h
  next hn =>
    cases h
    refine ⟨hn.1, List.length_take_of_le hn.2, ?_⟩
    simp only [content, ← List.append_assoc, List.take_append_drop]
  · cases h

/-- A read of the length of a message, from a stream that holds no more than a beginning of it, returns
the message and leaves nothing. -/
theorem read_message {s s' : Stream α} {m xs : List α} (hs : s.content <+: m)
    (h : s.read m.length = some (xs, s')) : xs = m ∧ s'.content = [] := by
  obtain ⟨-, hlen, hcontent⟩ := read_cases h
  obtain ⟨tail, hm⟩ := hs
  rw [hcontent] at hm
  have hlength := congrArg List.length hm
  simp only [List.length_append] at hlength
  have hs' : s'.content = [] := List.eq_nil_of_length_eq_zero (by omega)
  have htail : tail = [] := List.eq_nil_of_length_eq_zero (by omega)
  rw [hs', htail, List.append_nil, List.append_nil] at hm
  exact ⟨hm, hs'⟩

/-- What is left of an empty stream is empty. -/
theorem content_eq_nil_of_read {s s' : Stream α} {n : ℕ} {xs : List α} (h : s.read n = some (xs, s'))
    (hs : s.content = []) : s'.content = [] := by
  obtain ⟨-, -, hcontent⟩ := read_cases h
  rw [hs] at hcontent
  exact (List.append_eq_nil_iff.mp hcontent.symm).2

/-- Nothing can be read from a stream into which nothing was sent. -/
theorem not_read_of_nil {s : Stream α} (hs : s.content = []) (n : ℕ) : s.read n = none := by
  cases h : s.read n with
  | none => rfl
  | some x =>
    obtain ⟨xs, s'⟩ := x
    obtain ⟨hn, hlen, hcontent⟩ := read_cases h
    rw [hs] at hcontent
    have := congrArg List.length hcontent
    simp only [List.length_nil, List.length_append] at this
    omega

end Stream

end Concurrency
