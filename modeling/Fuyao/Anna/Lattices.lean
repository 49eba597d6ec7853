import Fuyao.Cpp.Containers
import Fuyao.Cpp.Floats
import Fuyao.Merge.Merge
import Mathlib.Order.WithBot

/-!
# The lattices of the key-value store

A lattice has one element, which `do_merge` changes; `merge` with another lattice merges its element.
Maps merge the lattices that they hold key by key, and a vector clock is a map of counters. The causal
lattices use the clocks to decide whether an incoming version replaces the present one, is merged into
it, or is dropped; the register keeps what has the latest timestamp.

A writer stamps its writes with the time in milliseconds, followed by its id in decimal. The power of
ten that makes room for the id is looked for by multiplication of an `unsigned`, which may overflow; the
number of rounds is bounded from outside.
-/

namespace Anna

open Cpp Merge

/-- `MaxLattice<unsigned>`. -/
structure MaxLattice where
  element : UInt32
  deriving DecidableEq

/-- The present element goes through an `int`, which the comparison converts back. -/
def MaxLattice.doMerge (l : MaxLattice) (e : UInt32) : MaxLattice :=
  let current : Int32 := l.element.toInt32
  if current.toUInt32 < e then ⟨e⟩ else l

instance : Mergeable MaxLattice := ⟨fun l r => l.doMerge r.element⟩

/-- `SetLattice<T>`. -/
structure SetLattice (T : Type) where
  element : UnorderedSet T

namespace SetLattice

variable {T : Type} [DecidableEq T]

/-- `do_merge`: the union. -/
def doMerge (l : SetLattice T) (e : UnorderedSet T) : SetLattice T := ⟨l.element.insertAll e.elems⟩

instance : Mergeable (SetLattice T) := ⟨fun l r => l.doMerge r.element⟩

/-- `insert` of one element. -/
def insert (l : SetLattice T) (e : T) : SetLattice T := ⟨l.element.insert e⟩

end SetLattice

/-- `MapLattice<K, V>`. -/
structure MapLattice (K V : Type) where
  element : UnorderedMap K V

namespace MapLattice

variable {K V : Type} [DecidableEq K] [Mergeable V]

/-- `insert_pair`: the value is merged with the one that is there. -/
def insertPair (l : MapLattice K V) (k : K) (v : V) : MapLattice K V :=
  match l.element.lookup k with
  | some found => ⟨l.element.insert k (merge found v)⟩
  | none => ⟨l.element.insert k v⟩

/-- `do_merge`: every pair of the other map is inserted. -/
def doMerge (l : MapLattice K V) (m : UnorderedMap K V) : MapLattice K V :=
  m.entries.foldl (fun l pair => l.insertPair pair.1 pair.2) l

instance : Mergeable (MapLattice K V) := ⟨fun l r => l.doMerge r.element⟩

/-- `insert` of a key and a value. -/
def insert (l : MapLattice K V) (k : K) (v : V) : MapLattice K V := l.insertPair k v

/-- `operator==` of the base class. -/
instance [BEq V] : BEq (MapLattice K V) := ⟨fun l r => l.element.equal r.element⟩

end MapLattice

/-! ## The causal lattices -/

/-- `VectorClock`, a map from ids to counters. -/
abbrev VectorClock := MapLattice Bytes MaxLattice

/-- The counter of an id; an id that the clock does not have comes below all counters. One clock is at
most another if every counter is. -/
def VectorClock.clock (vc : VectorClock) (id : Bytes) : WithBot ℕ :=
  match vc.element.lookup id with
  | some n => n.element.toNat
  | none => ⊥

/-- Every version has an id whose counter tells who has seen it: a clock that has reached that counter
is at least the clock of the version. -/
def Dotted (clocks : List VectorClock) : Prop :=
  ∀ p ∈ clocks, ∃ id, ∀ q ∈ clocks, p.clock id ≤ q.clock id → p.clock ≤ q.clock

/-- A clock together with what it is the version of. -/
structure Versioned (R : Type) where
  vector_clock : VectorClock
  rest : R

/-- `do_merge` of both causal lattices: it replaces what the clock is the version of by that of a
dominating clock, and merges the two where the clocks are concurrent. -/
def Versioned.doMerge {R : Type} [Mergeable R] (e p : Versioned R) : Versioned R :=
  let prev := e.vector_clock
  let vector_clock := merge e.vector_clock p.vector_clock
  if vector_clock == p.vector_clock then ⟨vector_clock, p.rest⟩
  else if !(vector_clock == prev) then ⟨vector_clock, merge e.rest p.rest⟩
  else ⟨vector_clock, e.rest⟩

instance {R : Type} [Mergeable R] : Mergeable (Versioned R) := ⟨Versioned.doMerge⟩

/-- `VectorClockValuePair<T>`: a version of one key. -/
structure VectorClockValuePair (T : Type) where
  vector_clock : VectorClock
  value : T

/-- `SingleKeyCausalLattice<T>`. -/
structure SingleKeyCausalLattice (T : Type) where
  element : VectorClockValuePair T

namespace SingleKeyCausalLattice

variable {T : Type} [Mergeable T]

/-- `do_merge` of a version. -/
def doMerge (l : SingleKeyCausalLattice T) (p : VectorClockValuePair T) : SingleKeyCausalLattice T :=
  let v := Versioned.doMerge ⟨l.element.vector_clock, l.element.value⟩ ⟨p.vector_clock, p.value⟩
  ⟨⟨v.vector_clock, v.rest⟩⟩

instance : Mergeable (SingleKeyCausalLattice T) := ⟨fun l r => l.doMerge r.element⟩

end SingleKeyCausalLattice

/-- `MultiKeyCausalPayload<T>`: a version and the versions of other keys that it depends on. -/
structure MultiKeyCausalPayload (T : Type) where
  vector_clock : VectorClock
  dependencies : MapLattice Bytes VectorClock
  value : T

/-- `MultiKeyCausalLattice<T>`. -/
structure MultiKeyCausalLattice (T : Type) where
  element : MultiKeyCausalPayload T

namespace MultiKeyCausalLattice

variable {T : Type} [Mergeable T]

/-- `do_merge` of a version with its dependencies. -/
def doMerge (l : MultiKeyCausalLattice T) (p : MultiKeyCausalPayload T) : MultiKeyCausalLattice T :=
  let v := Versioned.doMerge ⟨l.element.vector_clock, (l.element.dependencies, l.element.value)⟩
    ⟨p.vector_clock, (p.dependencies, p.value)⟩
  ⟨⟨v.vector_clock, v.rest.1, v.rest.2⟩⟩

instance : Mergeable (MultiKeyCausalLattice T) := ⟨fun l r => l.doMerge r.element⟩

end MultiKeyCausalLattice

/-! ## The lattices that keep one of two values -/

/-- `TimestampValuePair<T>`. -/
structure TimestampValuePair (T : Type) where
  timestamp : UInt64
  value : T
  deriving DecidableEq

/-- `LWWPairLattice<T>`, a register. -/
structure LWWPairLattice (T : Type) where
  element : TimestampValuePair T
  deriving DecidableEq

namespace LWWPairLattice

variable {T : Type}

/-- `do_merge` of a write. -/
def doMerge (l : LWWPairLattice T) (p : TimestampValuePair T) : LWWPairLattice T :=
  if p.timestamp ≥ l.element.timestamp then ⟨p⟩ else l

instance : Mergeable (LWWPairLattice T) := ⟨fun l r => l.doMerge r.element⟩

end LWWPairLattice

/-- `PriorityValuePair<P, V>`. -/
structure PriorityValuePair (P V : Type) where
  priority : P
  value : V
  deriving DecidableEq

/-- `PriorityLattice<P, V>`. -/
structure PriorityLattice (P V : Type) where
  element : PriorityValuePair P V
  deriving DecidableEq

namespace PriorityLattice

variable {P V : Type}

/-- `do_merge`: a value whose priority compares favourably takes the place of the present one. -/
def doMerge (compare : P → P → Bool) (l : PriorityLattice P V) (p : PriorityValuePair P V) :
    PriorityLattice P V :=
  if compare p.priority l.element.priority then ⟨p⟩ else l

/-- With `std::less`: the smaller number is the higher priority. -/
instance : Mergeable (PriorityLattice Double V) := ⟨fun l r => l.doMerge Double.less r.element⟩

end PriorityLattice

/-! ## Timestamps of writes -/

/-- `while (id >= pow) pow *= 10`, for at most `fuel` looks at the condition. -/
def powAbove (id : UInt32) : ℕ → UInt32 → Option UInt32
  | 0, _ => none
  | fuel + 1, pow => if id ≥ pow then powAbove id fuel (pow * 10) else some pow

/-- `generate_timestamp`, where `time` is what `get_time` returns. -/
def generateTimestamp (fuel : ℕ) (time : UInt64) (id : UInt32) : Option UInt64 :=
  (powAbove id fuel 10).map fun pow => time * pow.toUInt64 + id.toUInt64

/-- A write with the timestamp that its writer has generated for it. -/
structure Write (T : Type) where
  time : UInt64
  id : UInt32
  value : T
  timestamp : UInt64
  generated : ∃ fuel, generateTimestamp fuel time id = some timestamp

/-- The write as an update of a register. -/
def Write.update {T : Type} (w : Write T) : LWWPairLattice T := ⟨⟨w.timestamp, w.value⟩⟩

end Anna
