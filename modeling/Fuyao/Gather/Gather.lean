import Mathlib.Data.Fintype.Card
import Mathlib.Logic.Function.Basic

/-!
# Gathering components with a counter

Parties `κ` contribute the components `C` of one result. Each party stores its component in a shared
store that keeps the first value, then counts it in a shared counter; whoever sees the counter reach
the number of components composes the result. A party that finds its component stored already only
looks at the counter. Any of these actions may be lost half way: a value may be stored by a party that
does not know it, a stored component may never be counted, and a count may go unnoticed.

The state records what is shared, how far each party has got and what has been composed so far.
-/

namespace Gather

/-- Where a party is. -/
inductive Phase (C V : Type) where
  /-- Nothing done yet, or nothing done that matters. -/
  | idle
  /-- The counter exists. -/
  | ready
  /-- The party has stored its component and has not counted it yet. -/
  | owes
  /-- The component is stored and will never be counted. -/
  | lost
  /-- The component is stored and counted; it was not the last one. -/
  | counted
  /-- The component is stored and counted, but the party does not know the count. -/
  | blind
  /-- The party counted the last component; `v` is what it will find in the store. -/
  | last (v : C → V)
  /-- The party counted the last component and has composed the result. -/
  | composed
  /-- The component was there already, and the party read a full counter. -/
  | again (v : C → V)
  /-- The party read a full counter and has composed the result. -/
  | recomposed

namespace Phase

variable {C V : Type}

/-- The party's component is in the store because of this party. -/
def stored : Phase C V → Bool
  | owes | lost | counted | blind | last _ | composed => true
  | _ => false

/-- The party has counted its component. -/
def counts : Phase C V → Bool
  | counted | blind | last _ | composed => true
  | _ => false

/-- The party saw the counter become full by its own count. -/
def isLast : Phase C V → Bool
  | last _ | composed => true
  | _ => false

/-- The party saw a full counter. -/
def sawAll : Phase C V → Bool
  | last _ | composed | again _ | recomposed => true
  | _ => false

/-- The party has composed a result. -/
def emitted : Phase C V → Bool
  | composed | recomposed => true
  | _ => false

/-- The party has done all its duties. -/
def done : Phase C V → Bool
  | counted | composed | recomposed => true
  | _ => false

/-- The phases of a party for which nothing goes wrong and whose component is new. -/
def regular : Phase C V → Bool
  | idle | ready | owes | counted | last _ | composed => true
  | _ => false

end Phase

/-- The shared counter and store, and the phases of the parties. -/
structure State (C κ V : Type) where
  counter : Option ℕ
  /-- For each stored component, who stored it and with which value. -/
  store : C → Option (κ × V)
  phase : κ → Phase C V
  /-- The results composed so far: who composed them, and from which values. -/
  outputs : List (κ × (C → V))

namespace State

variable {C κ V : Type} [DecidableEq C] [DecidableEq κ]

/-- Nothing is stored, and there is no counter. -/
def initial : State C κ V := ⟨none, fun _ => none, fun _ => .idle, []⟩

/-- The counter is created unless it exists. -/
def initCounter (a : State C κ V) : State C κ V := { a with counter := some (a.counter.getD 0) }

/-- Only the phase of one party changes. -/
def setPhase (a : State C κ V) (k : κ) (p : Phase C V) : State C κ V :=
  { a with phase := Function.update a.phase k p }

/-- A party stores its component `c` with the value `v`. -/
def put (a : State C κ V) (c : C) (k : κ) (v : V) (p : Phase C V) : State C κ V :=
  { a with
    store := Function.update a.store c (some (k, v))
    phase := Function.update a.phase k p }

/-- A party increments the counter and goes on to a phase. -/
def count (a : State C κ V) (k : κ) (p : Phase C V) : State C κ V :=
  { a with
    counter := a.counter.map (· + 1)
    phase := Function.update a.phase k p }

/-- A party composes a result from the values `v`. -/
def emit (a : State C κ V) (k : κ) (v : C → V) (p : Phase C V) : State C κ V :=
  { a with
    outputs := a.outputs ++ [(k, v)]
    phase := Function.update a.phase k p }

/-- The component is stored and counted. -/
def counts (a : State C κ V) (c : C) : Bool :=
  match a.store c with
  | none => false
  | some (k, _) => (a.phase k).counts

/-- The components that have been counted. -/
def countedSet [Fintype C] (a : State C κ V) : Finset C := Finset.univ.filter fun c => a.counts c

/-- The components that have been stored. -/
def storedSet [Fintype C] (a : State C κ V) : Finset C := Finset.univ.filter fun c => (a.store c).isSome

/-- The invariant of gathering: `comp` says which component a party contributes, and `Allowed` which
phases occur at all under the failures that are considered. -/
structure Inv [Fintype C] (comp : κ → C) (Allowed : Phase C V → Prop) (a : State C κ V) : Prop where
  allowed : ∀ k, Allowed (a.phase k)
  store_comp : ∀ c k v, a.store c = some (k, v) → comp k = c ∧ (a.phase k).stored = true
  stored : ∀ k, (a.phase k).stored = true → ∃ v, a.store (comp k) = some (k, v)
  counter_none : a.counter = none → ∀ k, a.phase k = .idle
  counter_eq : ∀ n, a.counter = some n → n = a.countedSet.card
  full : ∀ k, (a.phase k).sawAll = true → a.counter = some (Fintype.card C)
  snapshot : ∀ k v, a.phase k = .last v ∨ a.phase k = .again v → ∀ c, ∃ k', a.store c = some (k', v c)
  last_unique : ∀ k k', (a.phase k).isLast = true → (a.phase k').isLast = true → k = k'
  last_exists : a.counter = some (Fintype.card C) →
    ∃ k, (a.phase k).isLast = true ∨ a.phase k = .blind
  outputs_store : ∀ k v, (k, v) ∈ a.outputs → ∀ c, ∃ k', a.store c = some (k', v c)
  outputs_nodup : (a.outputs.map Prod.fst).Nodup
  outputs_iff : ∀ k, k ∈ a.outputs.map Prod.fst ↔ (a.phase k).emitted = true

end State

end Gather
