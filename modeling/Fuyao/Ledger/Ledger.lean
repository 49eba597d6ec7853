import Mathlib.Algebra.Order.Group.Multiset
import Mathlib.Logic.Relation

/-!
# A ledger of requests

A request is issued, waits in a queue until it can be sent, and is answered, by its receiver or because
it has waited too long. A request that has been sent can be sent again: then it is put back into the queue
and stays among the sent ones as well.
-/

namespace Ledger

variable {R : Type*}

/-- The requests that were ever issued, and where they are. -/
structure Book (R : Type*) where
  issued : Multiset R
  queued : Multiset R
  sent : Multiset R
  answered : Multiset R

/-- One entry. Requests are put back only if `again`. -/
inductive Move (again : Prop) : Book R → Book R → Prop where
  | issue (i q s a : Multiset R) (r : R) : Move again ⟨i, q, s, a⟩ ⟨r ::ₘ i, r ::ₘ q, s, a⟩
  | send (i q s a : Multiset R) (r : R) : Move again ⟨i, r ::ₘ q, s, a⟩ ⟨i, q, r ::ₘ s, a⟩
  /-- The request has been sent before and is still among the sent ones. -/
  | resend (i q s a : Multiset R) {r : R} (h : r ∈ s) : Move again ⟨i, r ::ₘ q, s, a⟩ ⟨i, q, s, a⟩
  | requeue (i q s a : Multiset R) {r : R} (h : r ∈ s) (hagain : again) :
    Move again ⟨i, q, s, a⟩ ⟨i, r ::ₘ q, s, a⟩
  | answer (i q s a : Multiset R) (r : R) : Move again ⟨i, q, r ::ₘ s, a⟩ ⟨i, q, s, r ::ₘ a⟩
  /-- The request is given up before it could be sent. -/
  | expire (i q s a : Multiset R) (r : R) : Move again ⟨i, r ::ₘ q, s, a⟩ ⟨i, q, s, r ::ₘ a⟩

/-- Any number of entries. -/
abbrev Moves (again : Prop) : Book R → Book R → Prop := Relation.ReflTransGen (Move again)

/-- No request is lost, and none comes from nowhere. -/
def Book.Complete (b : Book R) : Prop := ∀ r, r ∈ b.issued ↔ r ∈ b.queued ∨ r ∈ b.sent ∨ r ∈ b.answered

/-- A request is at as many places as it was issued times. -/
def Book.Exact [DecidableEq R] (b : Book R) (r : R) : Prop :=
  (b.queued + b.sent + b.answered).count r = b.issued.count r

end Ledger
