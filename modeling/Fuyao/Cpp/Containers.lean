import Mathlib.Data.List.AList
import Mathlib.Data.Multiset.Bind

/-!
# Associative containers of the C++ standard library

A hash table iterates over its entries in an order that the standard leaves open. The lists below have
one such order, the latest insertion first; what is proved about a container speaks of its entries and
never of their order.
-/

namespace Cpp

variable {K V W α : Type}

/-- `std::unordered_map`. -/
abbrev UnorderedMap (K V : Type) := AList fun _ : K => V

/-- `operator==` of two maps. -/
def UnorderedMap.equal [DecidableEq K] [BEq V] (m m' : UnorderedMap K V) : Bool :=
  m.entries.length == m'.entries.length && m.entries.all fun e => m'.lookup e.1 == some e.2

/-- The map that a loop over the entries of another one fills, with values computed from the values
there. -/
def UnorderedMap.mapValues [DecidableEq K] (f : V → W) (m : UnorderedMap K V) : UnorderedMap K W :=
  m.entries.foldl (fun m' e => m'.insert e.1 (f e.2)) ∅

/-- What the entries of a map amount to all together. -/
def UnorderedMap.total {R : Type} (f : K → V → Multiset R) (m : UnorderedMap K V) : Multiset R :=
  (m.entries : Multiset ((_ : K) × V)).bind fun e => f e.1 e.2

/-- A change of a map. -/
inductive Change (K V : Type) where
  | assign (k : K) (v : V)
  | erase (k : K)
  | clear

namespace Change

variable [DecidableEq K]

/-- The map after a change. -/
def apply (m : UnorderedMap K V) : Change K V → UnorderedMap K V
  | assign k v => m.insert k v
  | erase k => m.erase k
  | clear => ∅

/-- What there is at a key after the change, if the change is about the key. -/
def word (k : K) : Change K V → Option (Option V)
  | assign k' v => if k' = k then some (some v) else none
  | erase k' => if k' = k then some none else none
  | clear => some none

end Change

/-- `std::unordered_set`. -/
structure UnorderedSet (α : Type) where
  elems : List α
  nodup : elems.Nodup

namespace UnorderedSet

instance : EmptyCollection (UnorderedSet α) := ⟨⟨[], .nil⟩⟩

instance : Membership α (UnorderedSet α) := ⟨fun s x => x ∈ s.elems⟩

instance [DecidableEq α] (x : α) (s : UnorderedSet α) : Decidable (x ∈ s) :=
  inferInstanceAs (Decidable (x ∈ s.elems))

variable [DecidableEq α]

/-- `insert`, which does nothing if the element is there. -/
def insert (s : UnorderedSet α) (x : α) : UnorderedSet α :=
  if h : x ∈ s.elems then s else ⟨x :: s.elems, s.nodup.cons h⟩

/-- The set after the elements of a list have been inserted. -/
def insertAll (s : UnorderedSet α) (l : List α) : UnorderedSet α := l.foldl insert s

end UnorderedSet

end Cpp
