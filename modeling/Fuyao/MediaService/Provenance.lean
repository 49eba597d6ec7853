import Fuyao.MediaService.Session

/-!
# Where the components of a review come from

`Uploaded` says that the history contains an upload of a component, and `TakenFrom` that a review has
its component from such an upload. `provenance` is the logic in which everything memcached holds under
the component keys of a request is known to have been uploaded for it, whatever fails or vanishes.
-/

namespace MediaService

open Cpp Concurrency

section Provenance

variable {ι : Type}

/-- A thread among `mine` has added the component `comp` of `val` for the request. -/
def Uploaded (mine : ι → Prop) (req_id : Int64) (comp : Component) (val : Review)
    (T : List (ServiceEvent ι)) : Prop :=
  ∃ e ∈ T, mine e.thread ∧ e.op = .add (keyComponent req_id comp.op) (comp.encode val) mmcExpTime

/-- The component of the review is one that was uploaded. -/
def TakenFrom (mine : ι → Prop) (req_id : Int64) (review : Review) (comp : Component)
    (T : List (ServiceEvent ι)) : Prop :=
  ∃ val, Uploaded mine req_id comp val T ∧ comp.copy val review = review

/-- The event is a `Get` of a key that memcached does not hold. -/
def FindsNothing (key : Bytes) (e : ServiceEvent ι) : Prop :=
  e.op = .get key ∧ e.pre.memcached.get key = none

instance (key : Bytes) (e : ServiceEvent ι) : Decidable (FindsNothing key e) :=
  inferInstanceAs (Decidable (_ ∧ _))

/-- The component of the review has not been set, because a `Get` found nothing. -/
def LeftOut (req_id : Int64) (review : Review) (comp : Component) (T : List (ServiceEvent ι)) : Prop :=
  comp.copy Review.zero review = review ∧ ∃ e ∈ T, FindsNothing (keyComponent req_id comp.op) e

/-- A review that is passed on for the request: it carries the id of the request, its components are
accounted for, and nothing else is set. -/
structure Accounted (mine : ι → Prop) (req_id : Int64) (review : Review) (T : List (ServiceEvent ι)) :
    Prop where
  assembled : assemble req_id (fun _ => review) = review
  source : ∀ comp, TakenFrom mine req_id review comp T ∨ LeftOut req_id review comp T

/-- What is known about the component keys and the reviews of a request. -/
structure ProvenanceInv (mine : ι → Prop) (req_id : Int64) (w : World) (T : List (ServiceEvent ι)) :
    Prop where
  held : ∀ (comp : Component) value, w.memcached.get (keyComponent req_id comp.op) = some value →
    ∃ val, value = comp.encode val ∧ Uploaded mine req_id comp val T
  sent : ∀ e ∈ T, ∀ review, reviewInvoked req_id e = some review → Accounted mine req_id review T

/-- The logic of the components of a request. -/
def provenance (mine : ι → Prop) (req_id : Int64) :
    Logic ι Op Op.Res Exn Int World Choice Env Unit Unit where
  machine := machine
  adm _ _ := True
  good _ := True
  inv w T _ := ProvenanceInv mine req_id w T
  view _ _ := ()

/-- An operation of thread `i` that respects the components of the request: it reads them, or it is
the upload of a component by a thread among `mine`, and it passes no review of the request on. -/
def Respects (mine : ι → Prop) (req_id : Int64) (i : ι) (o : Op) : Prop :=
  (∀ comp : Component, o.key = some (keyComponent req_id comp.op) →
    o = .get (keyComponent req_id comp.op) ∨
      mine i ∧ ∃ val, o = .add (keyComponent req_id comp.op) (comp.encode val) mmcExpTime) ∧
  ∀ review, o = .invoke (.exp02StoreReview4 review) → review.req_id ≠ req_id

end Provenance

end MediaService
