import Fuyao.Concurrency.Proofs.ProgProofs
import Fuyao.MediaService.World

/-!
# `ComposeReviewHandler`

The four components of a review are uploaded by separate calls, in any order and from different
worker processes. Each call stores its component in memcached and counts it; the call that sees all
components counted composes the review and passes it on to `exp02StoreReview4`.
-/

namespace MediaService

open Cpp Concurrency

/-- The part of the runtime the handlers use: `invoke_func_fn_`. -/
structure FaasWorker where
  invoke_func_fn_ : Invocation → Service Int

/-- A runtime about which nothing is assumed: an invocation is one step with an arbitrary return
code. -/
def FaasWorker.anyRuntime : FaasWorker := ⟨fun f => ask (.invoke f)⟩

/-- The parts of a review that are uploaded. -/
inductive UploadOp where
  | uploadText
  | uploadUniqueId
  | uploadMovieId
  | uploadUserId
  | uploadRating
  deriving DecidableEq

/-- `UploadOpName`. -/
def uploadOpName : UploadOp → Bytes
  | .uploadText => ascii "Text"
  | .uploadUniqueId => ascii "UniqueId"
  | .uploadMovieId => ascii "MovieId"
  | .uploadUserId => ascii "UserId"
  | .uploadRating => ascii "Rating"

/-- `NUM_COMPONENTS`. -/
def numComponents : Nat := 4

/-- `MMC_EXP_TIME`. -/
def mmcExpTime : Nat := 10

/-- `std::to_string(req_id) + ":counter"`. -/
def keyCounter (req_id : Int64) : Bytes := toStr req_id.toInt ++ ascii ":counter"

/-- `std::to_string(req_id) + ":" + UploadOpName[op]`. -/
def keyComponent (req_id : Int64) (op : UploadOp) : Bytes :=
  toStr req_id.toInt ++ ascii ":" ++ uploadOpName op

/-! ## `ComposeAndUpload` -/

/-- What the loop of `ComposeAndUpload` does with the value found under `key`: the member the key
belongs to is set. The order of the tests is that of the source. -/
def setComponent (req_id : Int64) (key return_value : Bytes) (new_review : Review) :
    Except Exn Review :=
  if key = keyComponent req_id .uploadUniqueId then
    (stoul return_value).map fun n => { new_review with review_id := n.toInt64 }
  else if key = keyComponent req_id .uploadMovieId then
    (strcpy 128 return_value).map fun s => { new_review with movie_id := s }
  else if key = keyComponent req_id .uploadText then
    (strcpy 512 return_value).map fun s => { new_review with text := s }
  else if key = keyComponent req_id .uploadRating then
    (stoi return_value).map fun n => { new_review with rating := n.toInt64 }
  else .ok new_review

/-- The loop of `ComposeAndUpload` over the keys. It ends with `none` when a `Get` fails; a key that
is not found is skipped. -/
def getComponents (req_id : Int64) : List Bytes → Review → Service (Option Review)
  | [], new_review => return some new_review
  | key :: keys, new_review => do
    match ← ask (.get key) with
    | none =>
      ask (.push .composeAndUpload)
      return none
    | some none => getComponents req_id keys new_review
    | some (some return_value) =>
      let new_review ← Prog.ofExcept (setComponent req_id key return_value new_review)
      getComponents req_id keys new_review

/-- The keys from which a review is composed. -/
def composeKeys (req_id : Int64) : List Bytes :=
  [keyComponent req_id .uploadUniqueId, keyComponent req_id .uploadMovieId,
    keyComponent req_id .uploadText, keyComponent req_id .uploadRating]

/-- `ComposeReviewHandler::ComposeAndUpload`. -/
def composeAndUpload (worker : FaasWorker) (req_id : Int64) : Service Int := do
  let mc_client ← ask (.pop .composeAndUpload)
  if !mc_client then
    return -1
  match ← getComponents req_id (composeKeys req_id) { Review.zero with req_id := req_id } with
  | none => return -1
  | some new_review =>
    ask (.push .composeAndUpload)
    let ret ← worker.invoke_func_fn_ (.exp02StoreReview4 new_review)
    if ret ≠ 0 then
      return -1
    return 0

/-! ## `Upload` -/

/-- The value a component is stored under its key with. -/
def componentValue (val : Review) : UploadOp → Option Bytes
  | .uploadText => some val.text.bytes
  | .uploadUniqueId => some (toStr val.review_id.toInt)
  | .uploadRating => some (toStr val.rating.toInt)
  | .uploadMovieId => some val.movie_id.bytes
  | .uploadUserId => none

/-- The end of `Upload`: the client goes back, and whoever saw the last component counted composes
the review. The return code of `ComposeAndUpload` is not looked at. -/
def finishUpload (worker : FaasWorker) (req_id : Int64) (counter_value : UInt64) : Service Int := do
  ask (.push .upload)
  if counter_value.toNat = numComponents then
    let _ ← composeAndUpload worker req_id
  return 0

/-- `Upload` after its two `Add`s: `success` is `none` when the last of them failed and otherwise says
whether it stored something. -/
def countUpload (worker : FaasWorker) (req_id : Int64) (success : Option Bool) : Service Int := do
  match success with
  | none =>
    ask (.push .upload)
    return -1
  | some false =>
    -- the component is there already: only look at the counter
    match ← ask (.get (keyCounter req_id)) with
    | some (some counter_value_str) =>
      let counter_value ← Prog.ofExcept (stoul counter_value_str)
      finishUpload worker req_id counter_value
    | _ =>
      ask (.push .upload)
      return -1
  | some true =>
    match ← ask (.incr (keyCounter req_id) 1) with
    | none =>
      ask (.push .upload)
      return -1
    | some result =>
      let counter_value ← Prog.ofExcept (deref result)
      finishUpload worker req_id counter_value

/-- `ComposeReviewHandler::Upload`. An `UploadUserId` has no case in the `switch`, so `success` and
`stored` keep what the `Add` of the counter left in them. -/
def upload (worker : FaasWorker) (val : Review) (op : UploadOp) : Service Int := do
  let req_id := val.req_id
  let mc_client ← ask (.pop .upload)
  if !mc_client then
    return -1
  -- initialise the counter unless it exists
  match ← ask (.add (keyCounter req_id) (ascii "0") mmcExpTime) with
  | none =>
    ask (.push .upload)
    return -1
  | some stored =>
    match componentValue val op with
    | some value =>
      let success ← ask (.add (keyComponent req_id op) value mmcExpTime)
      countUpload worker req_id success
    | none => countUpload worker req_id (some stored)

/-! ## The public methods -/

/-- A call of one of the four public upload methods. -/
inductive Call where
  | text (val : Text)
  | uniqueId (val : UniqueId)
  | movieId (val : MovieId)
  | rating (val : Rating)
  deriving DecidableEq

namespace Call

/-- The `Review` a method fills in for `Upload`. -/
def review : Call → Review
  | text val => { Review.zero with req_id := val.req_id, text := val.text }
  | uniqueId val => { Review.zero with review_id := val.review_id, req_id := val.req_id }
  | rating val => { Review.zero with req_id := val.req_id, rating := val.rating }
  | movieId val => { Review.zero with req_id := val.req_id, movie_id := val.movie_id }

/-- The operation a method passes to `Upload`. -/
def op : Call → UploadOp
  | text _ => .uploadText
  | uniqueId _ => .uploadUniqueId
  | movieId _ => .uploadMovieId
  | rating _ => .uploadRating

/-- The request that a call belongs to. -/
def req_id (call : Call) : Int64 := call.review.req_id

/-- `UploadText`, `UploadUniqueId`, `UploadMovieId` or `UploadRating`. -/
def run (worker : FaasWorker) (call : Call) : Service Int := upload worker call.review call.op

end Call

end MediaService
