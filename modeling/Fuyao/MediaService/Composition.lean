import Fuyao.MediaService.ComposeReviewHandler
import Mathlib.Data.Fintype.Card

/-!
# What composing a review is for

A review has four components. `encode` is the text a component is kept as in memcached, `copy` takes
a component over from one review to another, and `assemble` is the review that consists of given
components.
-/

namespace MediaService

open Cpp Concurrency

/-- The components that a review is composed from. -/
inductive Component where
  | text
  | uniqueId
  | movieId
  | rating
  deriving DecidableEq

namespace Component

instance : Fintype Component := ⟨{text, uniqueId, movieId, rating}, fun c => by cases c <;> decide⟩

instance : Nonempty Component := ⟨text⟩

/-- The operation that uploads the component. -/
def op : Component → UploadOp
  | text => .uploadText
  | uniqueId => .uploadUniqueId
  | movieId => .uploadMovieId
  | rating => .uploadRating

/-- The text the component of a review is kept as. -/
def encode (val : Review) : Component → Bytes
  | text => val.text.bytes
  | uniqueId => toStr val.review_id.toInt
  | movieId => val.movie_id.bytes
  | rating => toStr val.rating.toInt

/-- `dst` with the component of `src`. -/
def copy (src dst : Review) : Component → Review
  | text => { dst with text := src.text }
  | uniqueId => { dst with review_id := src.review_id }
  | movieId => { dst with movie_id := src.movie_id }
  | rating => { dst with rating := src.rating }

end Component

/-- The components in the order in which `ComposeAndUpload` asks for them. -/
def composeOrder : List Component := [.uniqueId, .movieId, .text, .rating]

/-- The component a call uploads. -/
def Call.component : Call → Component
  | .text _ => .text
  | .uniqueId _ => .uniqueId
  | .movieId _ => .movieId
  | .rating _ => .rating

/-- The review of request `req_id` whose components are those of `v`. -/
def assemble (req_id : Int64) (v : Component → Review) : Review :=
  { Review.zero with
    req_id := req_id
    review_id := (v .uniqueId).review_id
    movie_id := (v .movieId).movie_id
    text := (v .text).text
    rating := (v .rating).rating }

/-- The number fits the `int` that `std::stoi` returns. -/
def FitsInt (x : Int64) : Prop := -2 ^ 31 ≤ x.toInt ∧ x.toInt < 2 ^ 31

instance (x : Int64) : Decidable (FitsInt x) :=
  inferInstanceAs (Decidable (-2 ^ 31 ≤ x.toInt ∧ x.toInt < 2 ^ 31))

/-- A key of request `req_id`. -/
inductive IsComposeKey (req_id : Int64) : Bytes → Prop where
  | counter : IsComposeKey req_id (keyCounter req_id)
  | component (op : UploadOp) : IsComposeKey req_id (keyComponent req_id op)

/-- The memcached operations of `Upload` for `val` and `op`, those of `ComposeAndUpload` included. -/
inductive UploadTouches (val : Review) (op : UploadOp) : Op → Prop where
  | addCounter : UploadTouches val op (.add (keyCounter val.req_id) (ascii "0") mmcExpTime)
  | addComponent {value : Bytes} (h : componentValue val op = some value) :
      UploadTouches val op (.add (keyComponent val.req_id op) value mmcExpTime)
  | getCounter : UploadTouches val op (.get (keyCounter val.req_id))
  | incrCounter : UploadTouches val op (.incr (keyCounter val.req_id) 1)
  | getComponent (c : Component) : UploadTouches val op (.get (keyComponent val.req_id c.op))

end MediaService
