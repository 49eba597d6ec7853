import Fuyao.Cpp.Strings

/-!
# The messages of the media service

The structures of `MediaServiceTypes.h`, the JSON objects the entry functions read and the documents
of the two MongoDB collections. A message travels as the bytes of its structure and the receiver only
checks their number; every sender passes the structure its receiver expects, so a message is
represented by the structure itself.
-/

namespace MediaService

open Cpp

/-- `Review`. -/
structure Review where
  review_id : Int64
  user_id : Int64
  req_id : Int64
  text : CString 512
  movie_id : CString 128
  rating : Int64
  timestamp : Int64
  deriving DecidableEq

/-- `Review{}`: every member is zero. -/
def Review.zero : Review :=
  ⟨0, 0, 0, CString.zero (by decide), CString.zero (by decide), 0, 0⟩

/-- `Text`, the text of a review. -/
structure Text where
  req_id : Int64
  text : CString 512
  deriving DecidableEq

/-- `TitleForRegister`, a movie to be registered. -/
structure TitleForRegister where
  req_id : Int64
  title : CString 128
  movie_id : CString 128
  deriving DecidableEq

/-- `Title`, the title of the movie that a review is about. -/
structure Title where
  req_id : Int64
  title : CString 128
  rating : Int64
  deriving DecidableEq

/-- `MovieId`, the movie that a review is about. -/
structure MovieId where
  req_id : Int64
  movie_id : CString 128
  rating : Int64
  deriving DecidableEq

/-- `UniqueId`, the id of a review. -/
structure UniqueId where
  req_id : Int64
  review_id : Int64
  deriving DecidableEq

/-- `Rating`, the rating of a review. -/
structure Rating where
  req_id : Int64
  rating : Int64
  deriving DecidableEq

/-! ## JSON -/

/-- The JSON values the service tells apart. A floating-point number is given by its integral part,
which is all that a conversion to an integer keeps; `other` is null, an array or an object. -/
inductive JsonValue where
  | integer (z : Int)
  | float (z : Int)
  | boolean (b : Bool)
  | string (s : Bytes)
  | other
  deriving DecidableEq

namespace JsonValue

/-- `get` of an integral type with the range from `lo` to `hi`: integers and booleans are cast, a
floating-point number whose integral part is out of range has no defined value, and the rest
throws. -/
def getIntegral {α : Type} (ofInt : Int → α) (lo hi : Int) : JsonValue → Except Exn α
  | integer z => .ok (ofInt z)
  | float z => if lo ≤ z ∧ z < hi then .ok (ofInt z) else .error .overflow
  | boolean b => .ok (ofInt b.toNat)
  | _ => .error .typeError

/-- `get<int>()`. -/
def getInt : JsonValue → Except Exn Int32 := getIntegral Int32.ofInt (-2 ^ 31) (2 ^ 31)

/-- `get<long long>()`. -/
def getLongLong : JsonValue → Except Exn Int64 := getIntegral Int64.ofInt (-2 ^ 63) (2 ^ 63)

/-- `get<std::string>()`. -/
def getString : JsonValue → Except Exn Bytes
  | string s => .ok s
  | _ => .error .typeError

end JsonValue

/-- A parsed request: the fields the service asks for, `none` where the object does not contain
them. -/
structure Json where
  req_id : Option JsonValue
  title : Option JsonValue
  movie_id : Option JsonValue
  text : Option JsonValue
  rating : Option JsonValue
  deriving DecidableEq

/-! ## Documents -/

/-- A document of the collection `movie-id`. -/
structure Movie where
  title : Bytes
  movie_id : Bytes
  deriving DecidableEq

/-! ## Invocations -/

/-- The functions of the service that other functions invoke, with their input. -/
inductive Invocation where
  | exp02UploadMovieId1 (input : Json)
  | exp02UploadText1 (input : Json)
  | exp02UploadUniqueId1 (input : Json)
  | exp02UploadText3 (val : Text)
  | exp02UploadUniqueId3 (val : UniqueId)
  | exp02UploadMovieId3 (val : MovieId)
  | exp02UploadRating3 (val : Rating)
  | exp02StoreReview4 (review : Review)
  deriving DecidableEq

end MediaService
