import Fuyao.MediaService.MovieIdHandler
import Fuyao.MediaService.Composition

/-!
# The cached movie ids

The movie service and the compose-review service work on one memcached. Any number of threads register
movies, upload movie ids and upload components; `movieLogic` is the logic in which everything that is
cached under a title is known to be in the collection `movie-id`.
-/

namespace MediaService

open Cpp Concurrency

/-- A call to one of the two services. -/
inductive MovieCall where
  | registerMovieId (val : TitleForRegister)
  | uploadMovieId (val : Title)
  | upload (val : Review) (op : UploadOp)

/-- The call belongs to the compose-review service. -/
def MovieCall.isUpload : MovieCall → Bool
  | .upload _ _ => true
  | _ => false

variable {ι : Type}

/-- Every thread makes one call; nothing is assumed about the runtime. -/
def movieCalls (calls : ι → MovieCall) (i : ι) : Service Int :=
  match calls i with
  | .registerMovieId val => registerMovieId val
  | .uploadMovieId val => uploadMovieId .anyRuntime val
  | .upload val op => upload .anyRuntime val op

/-- The document was in the collection when something happened. -/
def Known (doc : Movie) (T : List (ServiceEvent ι)) : Prop := ∃ e ∈ T, doc ∈ e.post.movies

/-- What is known about the cache and the collection. -/
structure MovieInv (calls : ι → MovieCall) (w : World) (T : List (ServiceEvent ι)) : Prop where
  /-- What is cached under a title is the id of a document with this title. -/
  cached : ∀ (title : CString 128) value, w.memcached.get (keyTitle title) = some value →
    ⟨title.bytes, value⟩ ∈ w.movies
  /-- Movie ids are C strings of at most 127 bytes. -/
  ids : ∀ doc ∈ w.movies, ∃ s : CString 128, doc.movie_id = s.bytes
  /-- Documents stay. -/
  grows : ∀ e ∈ T, ∀ doc ∈ e.post.movies, doc ∈ w.movies
  /-- A movie id that was sent is the id of a document with the requested title. -/
  sent : ∀ e ∈ T, ∀ val, calls e.thread = .uploadMovieId val →
    ∀ msg, e.op = .invoke (.exp02UploadMovieId3 msg) →
      msg.req_id = val.req_id ∧ ⟨val.title.bytes, msg.movie_id.bytes⟩ ∈ e.pre.movies

/-- The logic of the cache. -/
def movieLogic (calls : ι → MovieCall) :
    Logic ι Op Op.Res Exn Int World Choice Env Unit Unit where
  machine := machine
  adm _ _ := True
  good _ := True
  inv w T _ := MovieInv calls w T
  view _ _ := ()

/-- An operation that writes no key of a title, sends no movie id, and inserts only documents whose
movie id is a C string. -/
def Tame (o : Op) : Prop :=
  (∀ title : CString 128, o.key = some (keyTitle title) → o = .get (keyTitle title)) ∧
    (∀ msg, o ≠ .invoke (.exp02UploadMovieId3 msg)) ∧
    ∀ doc, o = .insertMovie doc → ∃ s : CString 128, doc.movie_id = s.bytes

end MediaService
