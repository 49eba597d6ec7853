import Fuyao.Concurrency.Contract
import Fuyao.MediaService.ComposeReview
import Fuyao.MediaService.Composition

/-!
# What the service keeps in memcached and MongoDB

Any number of calls of the functions and methods of the service run on one memcached and one MongoDB.
A text, a title or a movie id travels from a request through structures with arrays of fixed size, from
there into memcached or MongoDB, and back into such a structure; a number is printed, stored and read
back. `Entry` says what may stand under a key, and `storeContract` makes it the contract between the
calls and the stores: a call stores nothing else, and relies on finding nothing else.
-/

namespace MediaService

open Cpp Concurrency

/-! ## Calls -/

/-- A call of a function on its input, or of a method of a handler. The functions of stage 3 only check
the length of their input and then call `Upload`. -/
inductive ServiceCall where
  | uploadText1 (input_json : Json)
  | uploadUniqueId1 (input_json : Json)
  | uploadMovieId1 (input_json : Json)
  | registerMovieId1 (input_json : Json)
  | uploadMovieId (val : Title)
  | upload (val : Review) (op : UploadOp)
  | composeAndUpload (req_id : Int64)
  | storeReview (review : Review)

/-- What a call does; nothing is assumed about the runtime. -/
def ServiceCall.run : ServiceCall → Service Int
  | uploadText1 input_json => MediaService.uploadText1 .anyRuntime input_json
  | uploadUniqueId1 input_json => MediaService.uploadUniqueId1 .anyRuntime input_json
  | uploadMovieId1 input_json => MediaService.uploadMovieId1 .anyRuntime input_json
  | registerMovieId1 input_json => MediaService.registerMovieId1 input_json
  | uploadMovieId val => MediaService.uploadMovieId .anyRuntime val
  | upload val op => MediaService.upload .anyRuntime val op
  | composeAndUpload req_id => MediaService.composeAndUpload .anyRuntime req_id
  | storeReview review => MediaService.storeReview review

/-- The field is there and `get<int>` has a value for it. -/
def HasInt (field : Option JsonValue) : Prop := ∃ v n, field = some v ∧ v.getInt = .ok n

/-- The field is there and is a string. -/
def HasString (field : Option JsonValue) : Prop := ∃ s, field = some (.string s)

/-- If the field is a string, it fits a `char[n]`. -/
def FitsArray (n : ℕ) (field : Option JsonValue) : Prop :=
  ∀ s, field = some (.string s) → (cStr s).length < n

/-- The fields a function asks for are there and of the right type. -/
def ServiceCall.Accepted : ServiceCall → Prop
  | uploadText1 input_json => HasInt input_json.req_id ∧ HasString input_json.text
  | uploadUniqueId1 input_json => HasInt input_json.req_id
  | uploadMovieId1 input_json =>
    HasInt input_json.req_id ∧ HasString input_json.title ∧ HasInt input_json.rating
  | registerMovieId1 input_json =>
    HasInt input_json.req_id ∧ HasString input_json.title ∧ HasString input_json.movie_id
  | _ => True

/-- The strings of a request fit the arrays they are copied to. -/
def ServiceCall.Fits : ServiceCall → Prop
  | uploadText1 input_json => FitsArray 512 input_json.text
  | uploadMovieId1 input_json => FitsArray 128 input_json.title
  | registerMovieId1 input_json =>
    FitsArray 128 input_json.title ∧ FitsArray 128 input_json.movie_id
  | _ => True

/-- `Upload` stores the component of this review. -/
def ServiceCall.Uploads (comp : Component) (val : Review) (call : ServiceCall) : Prop :=
  call = .upload val comp.op

variable {ι : Type}

/-- Every thread makes one call. -/
def serviceCalls (calls : ι → ServiceCall) (i : ι) : Service Int := (calls i).run

/-- A call of one of the four public upload methods is a call of `Upload`. -/
def Call.service (call : Call) : ServiceCall := .upload call.review call.op

/-- The `Review` that `UploadText`, `UploadUniqueId`, `UploadMovieId` and `UploadRating` fill in, with
the copies they make. -/
def Call.fillIn : Call → Except Exn Review
  | .text val => (strcpy 512 val.text.bytes).map fun s =>
    { Review.zero with req_id := val.req_id, text := s }
  | .movieId val => (strcpy 128 val.movie_id.bytes).map fun s =>
    { Review.zero with req_id := val.req_id, movie_id := s }
  | call => .ok call.review

/-! ## Entries -/

/-- The bytes are the content of a `char[128]`. -/
def IsMovieId (id : Bytes) : Prop := ∃ s : CString 128, id = s.bytes

/-- What may stand under a key: a counter, a component that a call has uploaded, or a movie id under the
key of a title. -/
inductive Entry (calls : ι → ServiceCall) : Bytes → Bytes → Prop where
  | counter (req_id : Int64) (n : UInt64) : Entry calls (keyCounter req_id) (toStr n.toNat)
  | component {comp : Component} {val : Review} {i : ι} (h : (calls i).Uploads comp val) :
      Entry calls (keyComponent val.req_id comp.op) (comp.encode val)
  | title (title : CString 128) {id : Bytes} (h : IsMovieId id) : Entry calls (keyTitle title) id

/-- The contract between the calls and the stores. -/
def storeContract (calls : ι → ServiceCall) : Contract Op Op.Res where
  asks
    | .set key value _ | .add key value _ => Entry calls key value
    | .incr key _ => ∃ req_id, key = keyCounter req_id
    | .insertMovie doc => IsMovieId doc.movie_id
    -- jobs are waited for by the entry function only
    | .startJob _ _ | .futureGet _ _ => False
    | _ => True
  gets
    | .get key, some (some value) => Entry calls key value
    | .findMovie _, some doc => IsMovieId doc.movie_id
    | _, _ => True

/-- What both stores hold. -/
structure Stored (calls : ι → ServiceCall) (w : World) : Prop where
  entries : ∀ key value, w.memcached.get key = some value → Entry calls key value
  ids : ∀ doc ∈ w.movies, IsMovieId doc.movie_id

end MediaService
