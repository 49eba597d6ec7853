import Fuyao.Cpp.Strings

/-!
# The names of objects

An object belongs to a bucket and a session and has a key there. In shared memory it is known by one
name, from which the three are read back: the bucket ends at the first delimiter, and the session is as
long as the sessions that the platform generates.
-/

namespace Pheromone

open Cpp

/-- `kDelimiter`. -/
def kDelimiter : Bytes := ascii "|"

/-- `get_key_session_name`. -/
def getKeySessionName (key session : Bytes) : Bytes := key ++ session

/-- `get_local_object_name`. -/
def getLocalObjectName (bucket key session : Bytes) : Bytes :=
  bucket ++ kDelimiter ++ getKeySessionName key session

/-- `BucketKey`: where an object is, and which session it belongs to. -/
structure BucketKey where
  bucket_ : Bytes
  key_ : Bytes
  session_ : Bytes
  deriving DecidableEq

namespace BucketKey

/-- The constructor from a bucket and a name of a key and its session. -/
def ofSessionKey (bucket session_key : Bytes) : BucketKey :=
  let key_size := session_key.length
  if key_size > 16 then
    { bucket_ := bucket
      session_ := session_key.drop (key_size - 16)
      key_ := session_key.take (key_size - 16) }
  else { bucket_ := bucket, session_ := [], key_ := [] }

/-- `shm_key_name`, the name of an object in shared memory. -/
def shmKeyName (bk : BucketKey) : Bytes := getLocalObjectName bk.bucket_ bk.key_ bk.session_

end BucketKey

/-- `get_bucket_key_from_string`: the bucket is what comes before the first delimiter. -/
def getBucketKeyFromString (key_name : Bytes) : BucketKey :=
  match key_name.idxOf? 124 with
  | some splitter_index =>
    .ofSessionKey (key_name.take splitter_index) (key_name.drop (splitter_index + 1))
  -- `npos + 1` is 0
  | none => .ofSessionKey key_name key_name

end Pheromone
