import Mathlib.Order.Bounds.Basic

/-!
# Merging

Copies of a value that are changed independently are brought together again by merging one into
another. A `History` is a history of such merges: its leaves are the updates as they were made, and every
node merges the state on its right into the state on its left. The same update may be a leaf many times,
and the leaves may be combined in any order and grouping.
-/

namespace Merge

/-- A type whose values are merged into one another. -/
class Mergeable (V : Type*) where
  /-- The first value after the second one has been merged into it. -/
  merge : V → V → V

export Mergeable (merge)

variable {V W D E : Type*}

/-- Pairs are merged component by component. -/
instance [Mergeable V] [Mergeable W] : Mergeable (V × W) :=
  ⟨fun a b => (merge a.1 b.1, merge a.2 b.2)⟩

/-- A history of merges. -/
inductive History (V : Type*) where
  | leaf (v : V)
  | node (into other : History V)

namespace History

/-- The updates of a history, from left to right. -/
def leaves : History V → List V
  | leaf v => [v]
  | node into other => into.leaves ++ other.leaves

/-- The state that a history leads to. -/
def eval [Mergeable V] : History V → V
  | leaf v => v
  | node into other => merge into.eval other.eval

/-- The history of what `f` sees of the updates. -/
def map (f : V → W) : History V → History W
  | leaf v => leaf (f v)
  | node into other => node (into.map f) (other.map f)

/-- The two histories are made of the same updates. -/
def SameUpdates (t u : History V) : Prop := ∀ v, v ∈ t.leaves ↔ v ∈ u.leaves

end History

/-- What the values of a mergeable type stand for; merging computes the join. -/
class Denotes (V : Type*) (D : outParam (Type*)) [Mergeable V] [SemilatticeSup D] where
  denote : V → D
  denote_merge (a b : V) : denote (merge a b) = denote a ⊔ denote b

export Denotes (denote)

instance [Mergeable V] [Mergeable W] [SemilatticeSup D] [SemilatticeSup E] [Denotes V D] [Denotes W E] :
    Denotes (V × W) (D × E) where
  denote p := (denote p.1, denote p.2)
  denote_merge a b := Prod.ext (Denotes.denote_merge a.1 b.1) (Denotes.denote_merge a.2 b.2)

/-- A merge that keeps one of the two values, one whose rank is highest. Between values of the same rank
it decides by their places: either it always takes the one that is merged in, or never. -/
structure Chooses {E : Type*} [LinearOrder E] [Mergeable V] (rank : V → E) : Prop where
  mem (a b : V) : merge a b = a ∨ merge a b = b
  rank_merge (a b : V) : rank (merge a b) = max (rank a) (rank b)
  ties : (∀ a b : V, rank a = rank b → merge a b = b) ∨ ∀ a b : V, rank a = rank b → merge a b = a

/-- No update of the list has a higher rank. -/
def Top {E : Type*} [LinearOrder E] (rank : V → E) (updates : List V) (v : V) : Prop :=
  v ∈ updates ∧ ∀ w ∈ updates, rank w ≤ rank v

/-- The history is made of these updates, each of them at least once. -/
def History.Of (updates : List V) (t : History V) : Prop := ∀ v, v ∈ t.leaves ↔ v ∈ updates

end Merge
