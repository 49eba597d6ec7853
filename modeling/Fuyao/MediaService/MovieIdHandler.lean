import Fuyao.MediaService.ComposeReviewHandler
import Fuyao.MediaService.Utils

/-!
# `MovieIdHandler`

The movie service keeps the collection `movie-id` and caches the ids it has looked up in the same
memcached that the uploads use, under the base64 encoding of the title and without an expiry time.
`UploadMovieId` is cut into the lookup, the caching and the two invocations.
-/

namespace MediaService

open Cpp Concurrency

/-- The key a movie id is cached under: `base64_encode(val.title)`. -/
def keyTitle (title : CString 128) : Bytes := base64Encode title.bytes

/-- `UploadMovieId`, the case of a title that is not cached: the id is looked up in MongoDB. `none`
means that the method returns -1. -/
def findMovieId (title : CString 128) : Service (Option Bytes) := do
  let mongodb_client ← ask (.mongoPop .uploadMovieId)
  if !mongodb_client then
    return none
  let collection ← ask (.getCollection .uploadMovieId)
  if !collection then
    ask (.mongoPush .uploadMovieId)
    return none
  let doc ← ask (.findMovie title.bytes)
  ask (.mongoPush .uploadMovieId)
  return doc.map fun doc => cStr doc.movie_id

/-- `UploadMovieId` up to the point where `movie_id_str` is known. -/
def lookupMovieId (title : CString 128) : Service (Option Bytes) := do
  let mc_client ← ask (.pop .uploadMovieId)
  if !mc_client then
    return none
  match ← ask (.get (keyTitle title)) with
  | none =>
    ask (.push .uploadMovieId)
    return none
  | some found =>
    ask (.push .uploadMovieId)
    match found with
    | some movie_id_mmc => return some movie_id_mmc
    | none => findMovieId title

/-- `UploadMovieId`, the caching of the id: a `Set` that fails is only logged. The answer is whether a
client was obtained. -/
def cacheMovieId (title : CString 128) (movie_id_str : Bytes) : Service Bool := do
  let mc_client ← ask (.pop .uploadMovieId)
  if !mc_client then
    return false
  let _success ← ask (.set (keyTitle title) movie_id_str 0)
  ask (.push .uploadMovieId)
  return true

/-- `MovieIdHandler::UploadMovieId`. -/
def uploadMovieId (worker : FaasWorker) (val : Title) : Service Int := do
  match ← lookupMovieId val.title with
  | none => return -1
  | some movie_id_str =>
    let mc_client ← cacheMovieId val.title movie_id_str
    if !mc_client then
      return -1
    let movie_id ← Prog.ofExcept (strcpy 128 movie_id_str)
    let ret1 ← worker.invoke_func_fn_ (.exp02UploadMovieId3 ⟨val.req_id, movie_id, 0⟩)
    let ret2 ← worker.invoke_func_fn_ (.exp02UploadRating3 ⟨val.req_id, val.rating⟩)
    if ret1 ≠ 0 ∨ ret2 ≠ 0 then
      return -1
    return 0

/-- The part of `RegisterMovieId` that checks whether the title exists and inserts the document. The
answer is `op_error`. -/
def insertNewMovie (val : TitleForRegister) : Service Bool := do
  let found ← ask (.findMovie val.title.bytes)
  if found.isSome then
    return true
  let plotinsert ← ask (.insertMovie ⟨val.title.bytes, val.movie_id.bytes⟩)
  return !plotinsert

/-- `MovieIdHandler::RegisterMovieId`. -/
def registerMovieId (val : TitleForRegister) : Service Int := do
  let mongodb_client ← ask (.mongoPop .registerMovieId)
  if !mongodb_client then
    return -1
  let collection ← ask (.getCollection .registerMovieId)
  if !collection then
    ask (.mongoPush .registerMovieId)
    return -1
  let op_error ← insertNewMovie val
  ask (.mongoPush .registerMovieId)
  if op_error then
    return -1
  return 0

end MediaService
