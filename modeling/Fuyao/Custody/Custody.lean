import Mathlib.Algebra.Order.Group.Multiset

/-!
# Custody of objects

A multiset of pairs `(p, x)` says at which place `p` each object `x` is. Objects pass from place to
place, new ones come into being and old ones are destroyed; `Move` records by how much their number
changes. A register is balanced when no object is at two places and a counter kept elsewhere agrees
with the number of objects.
-/

namespace Custody

variable {P X : Type*}

/-- One change of the register, and by how much the number of objects grows. -/
inductive Move : Multiset (P × X) → Multiset (P × X) → ℤ → Prop where
  /-- Nothing moves. -/
  | stay (s : Multiset (P × X)) : Move s s 0
  /-- An object passes from one place to another. -/
  | pass (s : Multiset (P × X)) (p p' : P) (x : X) : Move ((p, x) ::ₘ s) ((p', x) ::ₘ s) 0
  /-- An object comes into being. -/
  | create (s : Multiset (P × X)) (p : P) {x : X} (h : x ∉ s.map Prod.snd) : Move s ((p, x) ::ₘ s) 1
  /-- An object is destroyed. -/
  | destroy (s : Multiset (P × X)) (p : P) (x : X) : Move ((p, x) ::ₘ s) s (-1)

/-- No object is at two places, and there are `n` objects. -/
structure Balanced (s : Multiset (P × X)) (n : ℤ) : Prop where
  /-- Every object is registered once. -/
  nodup : (s.map Prod.snd).Nodup
  /-- The counter is right. -/
  card : (s.card : ℤ) = n

end Custody
