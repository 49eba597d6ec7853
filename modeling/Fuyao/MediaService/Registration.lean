import Fuyao.MediaService.ComposeReview
import Fuyao.Concurrency.Proofs.ProgProofs

/-!
# The registration of movies

Any number of workers run `exp02RegisterMovieId`. A call asks the collection `movie-id` for its title
and inserts a document when there is none. The check and the insertion are two round trips, and the
collection has no unique index: `CreateIndex` is never called.

`Exclusive` are the runs in which no call checks a title while another one stands between its check of
this title and its insertion. `registerLogic` is the logic in which every title then has one owner.
-/

namespace MediaService

open Cpp Concurrency

variable {ι : Type}

/-- Every thread registers one movie. -/
def registerCalls (inputs : ι → Json) (i : ι) : Service Int := registerMovieId1 (inputs i)

/-- The title an operation looks for in the collection `movie-id`. -/
def Op.soughtTitle : Op → Option Bytes
  | .findMovie title => some title
  | _ => none

/-- The operation is an insertion into the collection `movie-id`. -/
def Op.insertsMovie : Op → Bool
  | .insertMovie _ => true
  | _ => false

/-- The event is a check of the title at a time when no document has it. -/
def LooksInVain (title : Bytes) (e : ServiceEvent ι) : Prop :=
  e.op = .findMovie title ∧ ∀ doc ∈ e.pre.movies, doc.title ≠ title

/-- The thread has made its insertion, whatever its answer. -/
def HasInserted (j : ι) (T : List (ServiceEvent ι)) : Prop :=
  ∃ e ∈ T, e.thread = j ∧ e.op.insertsMovie = true

/-- No thread stands between its check of the title and its insertion. -/
def Unclaimed (title : Bytes) (T : List (ServiceEvent ι)) : Prop :=
  ∀ e ∈ T, LooksInVain title e → HasInserted e.thread T

/-- A check does not fail, and it is made when no other thread stands between its own check of the
title and its insertion. Every other operation may fail, with or without effect. -/
def Exclusive (c : ServiceConfig ι) : ServiceLabel ι → Prop
  | .run i ch =>
    ∀ title ∈ (c.threads i).head.bind Op.soughtTitle, ch.fault = .ok ∧ Unclaimed title c.trace
  | .env _ => True

instance (title : Bytes) (e : ServiceEvent ι) : Decidable (LooksInVain title e) :=
  inferInstanceAs (Decidable (_ ∧ _))

section

variable [DecidableEq ι]

instance (j : ι) (T : List (ServiceEvent ι)) : Decidable (HasInserted j T) :=
  inferInstanceAs (Decidable (∃ e ∈ T, _))

instance (title : Bytes) (T : List (ServiceEvent ι)) : Decidable (Unclaimed title T) :=
  inferInstanceAs (Decidable (∀ e ∈ T, _))

instance (c : ServiceConfig ι) : (l : ServiceLabel ι) → Decidable (Exclusive c l)
  | .run i _ =>
    inferInstanceAs (Decidable (∀ title ∈ (c.threads i).head.bind Op.soughtTitle, _))
  | .env _ => isTrue trivial

end

/-! ## Standings -/

/-- How far a registration is. -/
inductive Standing where
  /-- It has made no insertion, and it is not about to make one. -/
  | idle
  /-- It has found nothing and is about to insert a document with this title. -/
  | inserting (title : Bytes)
  /-- Its insertion has succeeded. -/
  | inserted (title : Bytes)
  /-- Its insertion has reported a failure. -/
  | failed

/-- The title that a registration inserts. -/
def Standing.title : Standing → Option Bytes
  | .inserting title | .inserted title => some title
  | _ => none

/-- The insertion has not been made. -/
def Standing.isEarly : Standing → Prop
  | .idle | .inserting _ => True
  | _ => False

/-- What is known about the collection and the calls. -/
structure RegisterInv (w : World) (T : List (ServiceEvent ι)) (a : ι → Standing) : Prop where
  nodup : (w.movies.map Movie.title).Nodup
  unique : ∀ j j' title, (a j).title = some title → (a j').title = some title → j = j'
  /-- A title that is about to be inserted is not in the collection. -/
  absent : ∀ j title, a j = .inserting title → ∀ doc ∈ w.movies, doc.title ≠ title
  /-- A title that has been inserted is in the collection. -/
  present : ∀ j title, a j = .inserted title → ∃ doc ∈ w.movies, doc.title = title
  /-- A call that is about to insert has looked for its title in vain. -/
  looked : ∀ j title, a j = .inserting title → ∃ e ∈ T, e.thread = j ∧ LooksInVain title e
  /-- An insertion that is still to come has not been made. -/
  early : ∀ j, (a j).isEarly → ¬ HasInserted j T

/-- The logic of registrations with exclusive access: each thread knows its own standing. -/
def registerLogic : Logic ι Op Op.Res Exn Int World Choice Env (ι → Standing) Standing where
  machine := machine
  adm := Exclusive
  good _ := True
  inv := RegisterInv
  view i a := a i

end MediaService
