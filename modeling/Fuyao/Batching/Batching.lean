import Mathlib.Data.List.Basic

/-!
# Batching

Items arrive one after another and are held until a policy finds that there are enough of them; then all
that are held leave together as one batch. In between, what is held may be dropped. A policy may remember
something about the last batch.

A machine that is called again and again and answers every call with a list of outputs implements a
policy if its outputs are the batches, call by call.
-/

namespace Batching

variable {σ α S E O : Type*}

/-- What arrives: an item, or the order to drop what has been collected. -/
inductive Event (α : Type*) where
  | item (x : α)
  | drop

/-- The items between the drops: before the first drop, between the first and the second, and so on. -/
def Event.parts : List (Event α) → List (List α)
  | [] => [[]]
  | .item x :: es => (parts es).modifyHead (x :: ·)
  | .drop :: es => [] :: parts es

/-- When the items that have been collected make up a batch. -/
structure Policy (σ α : Type*) where
  /-- Whether the items, the last of which has just arrived, make up a batch. -/
  full : σ → List α → Bool
  /-- What is remembered after a batch. -/
  next : σ → List α → σ

namespace Policy

variable (p : Policy σ α)

/-- The batch that leaves, if one does, and what is remembered and held then. -/
def step (s : σ × List α) : Event α → Option (List α) × (σ × List α)
  | .item x =>
    let held := s.2 ++ [x]
    if p.full s.1 held then (some held, (p.next s.1 held, [])) else (none, (s.1, held))
  | .drop => (none, (s.1, []))

/-- The batches of a run, and the state after it. -/
def run : σ × List α → List (Event α) → List (List α) × (σ × List α)
  | s, [] => ([], s)
  | s, e :: es =>
    let (batch, s) := p.step s e
    let (batches, s) := run s es
    (batch.toList ++ batches, s)

/-- The items make up a batch, and they did not before the last of them. -/
def JustFull (m : σ) (l : List α) : Prop :=
  l ≠ [] ∧ p.full m l = true ∧ ∀ l', l' ≠ [] → l' <+: l → l' ≠ l → p.full m l' = false

/-- What is held has never made up a batch. -/
def NeverFull (m : σ) (l : List α) : Prop := ∀ l', l' ≠ [] → l' <+: l → p.full m l' = false

/-- Every batch has left as soon as it was full, by what was remembered of the one before it. -/
def Linked : σ → List (List α) → Prop
  | _, [] => True
  | m, b :: bs => p.JustFull m b ∧ Linked (p.next m b) bs

/-- What is remembered after some batches. -/
def after (m : σ) (batches : List (List α)) : σ := batches.foldl p.next m

/-- Each part is cut into batches that have left as soon as they were full, and what is left over. -/
def Follows : σ → List (List (List α) × List α) → Prop
  | _, [] => True
  | m, cut :: cuts =>
    p.Linked m cut.1 ∧ p.NeverFull (p.after m cut.1) cut.2 ∧ Follows (p.after m cut.1) cuts

/-- How the parts between the drops are cut. -/
structure Cuts (m : σ) (parts : List (List α)) (cuts : List (List (List α) × List α)) : Prop where
  parts_eq : parts = cuts.map fun cut => cut.1.flatten ++ cut.2
  follows : p.Follows m cuts

end Policy

/-- The outputs of a machine over a list of calls, and its state after them. -/
def outputs (step : S → E → List O × S) : S → List E → List O × S
  | s, [] => ([], s)
  | s, e :: es =>
    let (out, s) := step s e
    let (outs, s) := outputs step s es
    (out ++ outs, s)

/-- The machine implements the policy. `view` tells what a call means to the policy, `sees` which outputs
belong to it, and `emits` what the outputs for a batch are. -/
structure Implements (step : S → E → List O × S) (p : Policy σ α) (view : E → Option (Event α))
    (sees : O → Bool) (emits : List α → List O → Prop) (R : S → σ × List α → Prop) : Prop where
  /-- A call that means nothing to the policy. -/
  skip {s : S} {a : σ × List α} (e : E) : R s a → view e = none →
    (step s e).1.filter sees = [] ∧ R (step s e).2 a
  /-- Every other call. -/
  step {s : S} {a : σ × List α} (e : E) (v : Event α) : R s a → view e = some v →
    R (step s e).2 (p.step a v).2 ∧
      ((p.step a v).1 = none → (step s e).1.filter sees = []) ∧
      ∀ b, (p.step a v).1 = some b → emits b ((step s e).1.filter sees)

end Batching
