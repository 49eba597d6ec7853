import Fuyao.MediaService.Session

/-!
# Callers of the upload methods

Any number of threads call the upload methods, each for whatever request. `callSession` is the view
of such a run from one request: its parties are the calls for that request.
-/

namespace MediaService

open Cpp Concurrency Gather

variable {ι κ : Type}

/-- Every thread makes one call; nothing is assumed about the runtime. -/
def uploads (calls : ι → Call) (i : ι) : Service Int := (calls i).run .anyRuntime

/-- A caller that makes its call again, up to `n` more times, as long as it returns -1. -/
def retryUpload (worker : FaasWorker) (call : Call) : ℕ → Service Int
  | 0 => call.run worker
  | n + 1 => do
    let ret ← call.run worker
    if ret = -1 then
      retryUpload worker call n
    else
      return ret

/-- The threads of the list move one after the other, and nothing fails. -/
def okRun (is : List ι) : List (ServiceLabel ι) := is.map fun i => .run i ⟨.ok, 0⟩

/-- Every thread is such a caller. -/
def retryUploads (calls : ι → Call) (retries : ι → ℕ) (i : ι) : Service Int :=
  retryUpload .anyRuntime (calls i) (retries i)

/-- A choice of one thread for each component. -/
def Component.threadOf (it iu im ir : ι) : Component → ι
  | .text => it
  | .uniqueId => iu
  | .movieId => im
  | .rating => ir

/-- Memcached holds no key of the request. -/
def FreshFor (req_id : Int64) (w : World) : Prop :=
  ∀ key, IsComposeKey req_id key → w.memcached.get key = none

/-- The event is a `Get` of the counter of the request, and the counter is at the number of
components. -/
def ReadsFullCounter (req_id : Int64) (e : ServiceEvent ι) : Prop :=
  readBy (keyCounter req_id) e ≠ none ∧
    e.pre.memcached.get (keyCounter req_id) = some (toStr numComponents)

instance (req_id : Int64) (e : ServiceEvent ι) : Decidable (ReadsFullCounter req_id e) :=
  inferInstanceAs (Decidable (_ ∧ _))

/-- The event is a `Get` of the counter of the request, and the counter is not there yet. -/
def ReadsPartialCounter (req_id : Int64) (e : ServiceEvent ι) : Prop :=
  readBy (keyCounter req_id) e ≠ none ∧
    e.pre.memcached.get (keyCounter req_id) ≠ some (toStr numComponents)

instance (req_id : Int64) (e : ServiceEvent ι) : Decidable (ReadsPartialCounter req_id e) :=
  inferInstanceAs (Decidable (_ ∧ _))

/-- The event is a failed operation of `ComposeAndUpload`: it got no client, or a component could not
be read. -/
def failsToCompose (req_id : Int64) : ServiceEvent ι → Bool
  | ⟨_, .pop .composeAndUpload, res, _, _⟩ => !res
  | ⟨_, .get key, res, _, _⟩ => (composeKeys req_id).contains key && res.isNone
  | _ => false

/-- The session of request `req_id`: `caller` says which thread makes the call of a party. -/
def callSession (calls : ι → Call) (req_id : Int64) (caller : κ → {i // (calls i).req_id = req_id})
    (adm : ServiceLabel ι → Prop) (good : ServiceEvent ι → Prop)
    (Allowed : Phase Component Review → Prop) : Session ι κ where
  req_id := req_id
  comp k := (calls (caller k)).component
  owner k := caller k
  Val k val := val = (calls (caller k)).review
  adm := adm
  good := good
  Allowed := Allowed
  Emits o := ∃ review, o = .invoke (.exp02StoreReview4 review) ∧ review.req_id = req_id
  out _ T := storeReviewCalls req_id T
  Reports _ _ := False

/-- The session of request `req_id` among callers that try again: every attempt of a caller is a party.
The runs are those in which no upload of the request reads a partial counter and composing does not
fail. -/
def retrySession (calls : ι → Call) (req_id : Int64) :
    Session ι ({i // (calls i).req_id = req_id} × ℕ) :=
  callSession calls req_id Prod.fst FailStop
    (fun e => ¬ ReadsPartialCounter req_id e ∧
      ((calls e.thread).req_id = req_id → ¬ failsToCompose req_id e))
    fun p => p ≠ .blind

end MediaService
