import Fuyao.MediaService.MovieIdHandler

/-!
# The functions of the compose-review pipeline

The entry function `exp02ComposeReview` lets a thread pool invoke the three functions of stage 1; each
of them invokes functions of stage 3, and the last upload of stage 3 invokes `exp02StoreReview4`.

The runtime itself is not part of the service. `serve` is the runtime that runs an invoked function
once, in the thread of its caller, and returns 0 exactly when the function returned 0.
-/

namespace MediaService

open Cpp Concurrency

/-! ## `TextHandler`, `UniqueIdHandler` and `ReviewStorageHandler` -/

/-- `TextHandler::UploadText`. -/
def uploadText (worker : FaasWorker) (val : Text) : Service Int := do
  let ret ← worker.invoke_func_fn_ (.exp02UploadText3 val)
  if ret ≠ 0 then
    return -1
  return 0

/-- A numeral is cut or padded with zeros on the left to `n` digits. -/
def fitLeft (n : Nat) (s : Bytes) : Bytes :=
  if n < s.length then s.drop (s.length - n)
  else if s.length < n then List.replicate (n - s.length) 48 ++ s
  else s

/-- `make_unique_id`. -/
def makeUniqueId : Service Int64 := do
  let timestamp ← ask .clock
  let timestamp_hex := fitLeft 10 (numeral 16 timestamp.toNat)
  let counter ← ask .rand
  let counter_hex := fitLeft 3 (numeral 16 counter)
  let review_id ← Prog.ofExcept (stoulBase 16 (timestamp_hex ++ counter_hex))
  return (review_id &&& 0x7FFFFFFFFFFFFFFF).toInt64

/-- `UniqueIdHandler::UploadUniqueId`. -/
def uploadUniqueId (worker : FaasWorker) (req_id : Int64) : Service Int := do
  let review_id ← makeUniqueId
  let ret ← worker.invoke_func_fn_ (.exp02UploadUniqueId3 ⟨req_id, review_id⟩)
  if ret ≠ 0 then
    return -1
  return 0

/-- `ReviewStorageHandler::StoreReview`. -/
def storeReview (review : Review) : Service Int := do
  let mongodb_client ← ask (.mongoPop .storeReview)
  if !mongodb_client then
    return -1
  let collection ← ask (.getCollection .storeReview)
  if !collection then
    ask (.mongoPush .storeReview)
    return -1
  let status ← ask (.insertReview review)
  ask (.mongoPush .storeReview)
  if !status then
    return -1
  return 0

/-! ## The entry functions of stage 1 -/

/-- `faas_func_call` of `exp02UploadMovieId1`. -/
def uploadMovieId1 (worker : FaasWorker) (input_json : Json) : Service Int :=
  match input_json.req_id, input_json.title, input_json.rating with
  | some req_id, some title, some rating => do
    let req_id ← Prog.ofExcept req_id.getInt
    let title ← Prog.ofExcept title.getString
    let rating ← Prog.ofExcept rating.getInt
    let title ← Prog.ofExcept (strcpy 128 title)
    uploadMovieId worker ⟨req_id.toInt64, title, rating.toInt64⟩
  | _, _, _ => return -1

/-- `faas_func_call` of `exp02UploadText1`. -/
def uploadText1 (worker : FaasWorker) (input_json : Json) : Service Int :=
  match input_json.req_id, input_json.text with
  | some req_id, some text => do
    let req_id ← Prog.ofExcept req_id.getInt
    let text ← Prog.ofExcept text.getString
    let text ← Prog.ofExcept (strcpy 512 text)
    uploadText worker ⟨req_id.toInt64, text⟩
  | _, _ => return -1

/-- `faas_func_call` of `exp02UploadUniqueId1`. -/
def uploadUniqueId1 (worker : FaasWorker) (input_json : Json) : Service Int :=
  match input_json.req_id with
  | some req_id => do
    let req_id ← Prog.ofExcept req_id.getInt
    uploadUniqueId worker req_id.toInt64
  | none => return -1

/-- `faas_func_call` of `exp02RegisterMovieId`. -/
def registerMovieId1 (input_json : Json) : Service Int :=
  match input_json.req_id, input_json.title, input_json.movie_id with
  | some req_id, some title, some movie_id => do
    let req_id ← Prog.ofExcept req_id.getInt
    let title ← Prog.ofExcept title.getString
    let movie_id ← Prog.ofExcept movie_id.getString
    let title ← Prog.ofExcept (strcpy 128 title)
    let movie_id ← Prog.ofExcept (strcpy 128 movie_id)
    registerMovieId ⟨req_id.toInt64, title, movie_id⟩
  | _, _, _ => return -1

/-! ## The runtime -/

/-- The function an invocation names, on its input. -/
def functionTable (worker : FaasWorker) : Invocation → Service Int
  | .exp02UploadMovieId1 input => uploadMovieId1 worker input
  | .exp02UploadText1 input => uploadText1 worker input
  | .exp02UploadUniqueId1 input => uploadUniqueId1 worker input
  | .exp02UploadText3 val => (Call.text val).run worker
  | .exp02UploadUniqueId3 val => (Call.uniqueId val).run worker
  | .exp02UploadMovieId3 val => (Call.movieId val).run worker
  | .exp02UploadRating3 val => (Call.rating val).run worker
  | .exp02StoreReview4 review => storeReview review

/-- The return code of an invocation: 0 if the function returned 0, and -1 otherwise, also when it
ended by an exception. -/
def invocationCode : Except Exn Int → Int
  | .ok ret => if ret = 0 then 0 else -1
  | .error _ => -1

/-- An invocation that runs `body`: the invocation is a step of its own, and the function runs after
it. -/
def runFunction (f : Invocation) (body : Service Int) : Service Int := do
  let _ ← ask (.invoke f)
  return invocationCode (← body.attempt)

/-- The runtime whose functions invoke others through `worker`. -/
def serve (worker : FaasWorker) : FaasWorker := ⟨fun f => runFunction f (functionTable worker f)⟩

/-- The runtime of the pipeline. A function of stage 1 invokes functions of stage 3, these invoke
`exp02StoreReview4`, and that invokes nothing: no invocation reaches the worker at the bottom. -/
def runtime : FaasWorker := serve (serve (serve .anyRuntime))

/-! ## `exp02ComposeReview` -/

/-- `downstream_funcs`. -/
def downstreamFuncs : List Downstream := [.movieId, .text, .uniqueId]

/-- The function that a job invokes, with the input of the request. -/
def Downstream.func (input : Json) : Downstream → Invocation
  | .movieId => .exp02UploadMovieId1 input
  | .text => .exp02UploadText1 input
  | .uniqueId => .exp02UploadUniqueId1 input

/-- `invoke`, run by a worker of the thread pool. -/
def invokeJob (worker : FaasWorker) (q : Nat) (input : Json) (f : Downstream) : Service Int := do
  ask (.startJob q f)
  let ret ← worker.invoke_func_fn_ (f.func input)
  ask (.finishJob q f (ret ≠ -1))
  return 0

/-- The last loop of the entry function: some job has failed, or all have succeeded. -/
def checkJobs (q : Nat) : List Downstream → Service Int
  | [] => return 0
  | f :: fs => do
    let succeed ← ask (.readSucceed q f)
    if !succeed then
      return -1
    checkJobs q fs

/-- `faas_func_call` of `exp02ComposeReview`, for the request with the number `q`. -/
def composeReview (q : Nat) (input_json : Json) : Service Int :=
  match input_json.req_id, input_json.title, input_json.rating, input_json.text with
  | some req_id, some _, some _, some _ => do
    let _req_id ← Prog.ofExcept req_id.getLongLong
    downstreamFuncs.forM fun f => ask (.enqueue q f)
    downstreamFuncs.forM fun f => ask (.futureGet q f)
    checkJobs q downstreamFuncs
  | _, _, _, _ => return -1

/-! ## Requests -/

/-- The threads of a request: its own one, and one for each job. -/
inductive Task where
  | main
  | job (f : Downstream)
  deriving DecidableEq

/-- Any number of requests to `exp02ComposeReview`. -/
def composeReviews (requests : Nat → Json) : Nat × Task → Service Int
  | (q, .main) => composeReview q (requests q)
  | (q, .job f) => invokeJob runtime q (requests q) f

/-- The `req_id` of a request as `exp02ComposeReview` reads it. -/
def Json.requestId (input : Json) : Option Int64 :=
  input.req_id.bind fun req_id => req_id.getLongLong.toOption

/-- The `req_id` of a request as the functions of stage 1 read it. -/
def Json.uploadId (input : Json) : Option Int64 :=
  input.req_id.bind fun req_id => req_id.getInt.toOption.map Int32.toInt64

/-- The title of a request as `exp02UploadMovieId1` reads it. -/
def Json.uploadTitle (input : Json) : Option (CString 128) :=
  input.title.bind fun title => title.getString.toOption.bind fun s => (strcpy 128 s).toOption

end MediaService
