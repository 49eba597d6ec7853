import Fuyao.MediaService.Callers
import Fuyao.MediaService.ComposeReview
import Fuyao.MediaService.Provenance

/-!
# Requests of the compose-review pipeline

What the threads of one request may touch, and the session of a request: its parties are the four
components, each uploaded by the job whose function invokes the upload.
-/

namespace MediaService

open Cpp Concurrency Gather

/-- What the threads of request `q` with the given input may do. -/
inductive RequestTouches (q : Nat) (input : Json) : Op → Prop where
  | isLocal {o : Op} (h : o.isLocal = true) : RequestTouches q input o
  | job {o : Op} {f : Downstream} (h : o.job = some (q, f)) : RequestTouches q input o
  /-- The cached id of the movie is read or written. -/
  | title {o : Op} {title : CString 128} (h : input.uploadTitle = some title)
      (hkey : o.key = some (keyTitle title)) : RequestTouches q input o
  | upload {o : Op} {val : Review} {op : UploadOp} (h : input.uploadId = some val.req_id)
      (ho : UploadTouches val op o) : RequestTouches q input o
  | invoke {f : Invocation}
      (h : ∀ review, f = .exp02StoreReview4 review → input.uploadId = some review.req_id) :
      RequestTouches q input (.invoke f)
  | insertReview {doc : Review} (h : input.uploadId = some doc.req_id) :
      RequestTouches q input (.insertReview doc)

/-- The job whose function uploads the component. -/
def Component.job : Component → Downstream
  | .text => .text
  | .uniqueId => .uniqueId
  | .movieId => .movieId
  | .rating => .movieId

/-- The invocation that makes a call of an upload method. -/
def Call.invocation : Call → Invocation
  | .text val => .exp02UploadText3 val
  | .uniqueId val => .exp02UploadUniqueId3 val
  | .movieId val => .exp02UploadMovieId3 val
  | .rating val => .exp02UploadRating3 val

/-- The event is a failed operation of `ComposeAndUpload` or of `StoreReview`. -/
def failsToStore {ι : Type} (req_id : Int64) (e : ServiceEvent ι) : Bool :=
  failsToCompose req_id e ||
    match e with
    | ⟨_, .mongoPop .storeReview, res, _, _⟩ => !res
    | ⟨_, .getCollection .storeReview, res, _, _⟩ => !res
    | ⟨_, .insertReview _, res, _, _⟩ => !res
    | _ => false

/-- The session of request `q`, whose components are uploaded under `req_id`. The runs are those in
which no operation of `ComposeAndUpload` or `StoreReview` fails for the request. A review counts as
delivered when its document is in the collection, and a job reports its uploads when it finishes with
success. -/
def pipelineSession (q : Nat) (req_id : Int64) : Session (Nat × Task) Component where
  req_id := req_id
  comp := id
  owner c := (q, .job c.job)
  Val c val := c = .rating → FitsInt val.rating
  adm := Faulty
  good e := e.thread.1 = q → ¬ failsToStore req_id e
  Allowed _ := True
  Emits o := ∃ doc, o = .insertReview doc ∧ doc.req_id = req_id
  out w _ := w.reviews.filter fun doc => doc.req_id = req_id
  Reports e c := e.op = .finishJob q c.job true

/-- A memcached key that both a thread of request `q` and a thread of request `q'` have read or written
is the key of the title that both requests name. -/
def ShareOnlyTitle (requests : Nat → Json) (q q' : Nat) (T : List (ServiceEvent (Nat × Task))) : Prop :=
  ∀ e ∈ T, ∀ e' ∈ T, e.thread.1 = q → e'.thread.1 = q' →
    ∀ key, e.op.key = some key → e'.op.key = some key →
      ∃ title, (requests q).uploadTitle = some title ∧ (requests q').uploadTitle = some title ∧
        key = keyTitle title

/-- Every review that a thread of request `q` passes to `exp02StoreReview4` carries the id `req_id`,
and each of its components was uploaded by a request with that id or has not been set. -/
def PassesOwnReviews (requests : Nat → Json) (q : Nat) (req_id : Int64)
    (T : List (ServiceEvent (Nat × Task))) : Prop :=
  ∀ e ∈ T, e.thread.1 = q → ∀ review, e.op = .invoke (.exp02StoreReview4 review) →
    review.req_id = req_id ∧
      Accounted (fun i => (requests i.1).uploadId = some req_id) req_id review T

end MediaService
