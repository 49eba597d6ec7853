import Mathlib.Data.List.Basic

/-!
# Ordered streams

One direction of a connection: what was sent arrives in order, in pieces of any length, and a read
takes any non-empty piece from the front of what has arrived.
-/

namespace Concurrency

/-- One direction of a connection: what can be read, and what is still on its way. -/
structure Stream (α : Type) where
  arrived : List α
  inFlight : List α

namespace Stream

variable {α : Type}

/-- A connection on which nothing has been sent. -/
def empty : Stream α := ⟨[], []⟩

/-- What was sent and has not been read. -/
def content (s : Stream α) : List α := s.arrived ++ s.inFlight

/-- The sender adds to what is on its way. -/
def send (s : Stream α) (xs : List α) : Stream α := { s with inFlight := s.inFlight ++ xs }

/-- The next `n` elements arrive. -/
def deliver (s : Stream α) (n : ℕ) : Stream α := ⟨s.arrived ++ s.inFlight.take n, s.inFlight.drop n⟩

/-- A read that returns `n` elements. -/
def read (s : Stream α) (n : ℕ) : Option (List α × Stream α) :=
  if 0 < n ∧ n ≤ s.arrived.length then
    some (s.arrived.take n, { s with arrived := s.arrived.drop n })
  else none

end Stream

end Concurrency
