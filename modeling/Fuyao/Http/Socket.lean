import Fuyao.Concurrency.Prog
import Fuyao.Cpp.Strings

/-!
# `Socket::issue_http_request`

There are two versions: one formats header and payload into a string, the other one formats the header,
copies header and payload into an array of 1024 bytes and takes the size of the payload as an `int`. Both
then offer the bytes to `send` until their count of sent bytes is no longer smaller than the length. The
count is an `int` that is compared with a `size_t`, and what `send` returns is added to it, an error as
well.

The loop is a transition system; a label is what `send` returns.
-/

namespace Http

open Cpp

/-! ## The message -/

/-- The address of a `Socket`. -/
structure Socket where
  ip_ : Bytes
  port_ : UInt16

/-- The header, where `length` is what is announced as the length of the content. -/
def Socket.header (socket : Socket) (method url_path : Bytes) (length : Int) : Bytes :=
  cStr method ++ ascii " " ++ cStr url_path ++ ascii " HTTP/1.1\n" ++
  ascii "Host: " ++ cStr socket.ip_ ++ ascii ":" ++ toStr socket.port_.toNat ++ ascii "\n" ++
  ascii "User-Agent: curl/7.74.0\n" ++
  ascii "Accept: */*\n" ++
  ascii "Content-Length: " ++ toStr length ++ ascii "\n" ++
  ascii "Content-Type: application/x-www-form-urlencoded\n" ++
  ascii "\n"

/-- A call of `issue_http_request`, in one of its two versions. -/
inductive HttpRequest where
  /-- The version for a C string. -/
  | text (socket : Socket) (method url_path payload : Bytes)
  /-- The version for a block of memory whose size is an `int`. -/
  | block (socket : Socket) (method url_path payload : Bytes) (int_size : payload.length < 2 ^ 31)

namespace HttpRequest

/-- The bytes that are to be sent after the header. -/
def body : HttpRequest → Bytes
  | text _ _ _ payload => cStr payload
  | block _ _ _ payload _ => payload

/-- The length that the header announces: `strlen(payload)` or `payload_size`. -/
def contentLength : HttpRequest → Int
  | text _ _ _ payload => (cStr payload).length
  | block _ _ _ payload _ => (Int32.ofNat payload.length).toInt

/-- The header that is sent before the payload. -/
def header (rq : HttpRequest) : Bytes :=
  match rq with
  | text socket method url_path _ => socket.header method url_path rq.contentLength
  | block socket method url_path _ _ => socket.header method url_path rq.contentLength

/-- `memcpy` of `src` to the end of what has been written into an array of `n` bytes. -/
def memcpyTo (n : ℕ) (written src : Bytes) : Except Exn Bytes :=
  if written.length + src.length ≤ n then .ok (written ++ src) else .error .overflow

/-- The bytes that the loop works on. -/
def sendBuf (rq : HttpRequest) : Except Exn Bytes :=
  match rq with
  | text _ _ _ _ => .ok (rq.header ++ rq.body)
  | block _ _ _ _ _ => do
    let send_buf ← memcpyTo 1024 [] rq.header
    memcpyTo 1024 send_buf rq.body

/-- The message fits what it is assembled in. -/
def Fits (rq : HttpRequest) : Prop :=
  match rq with
  | text _ _ _ _ => True
  | block _ _ _ _ _ => rq.header.length + rq.body.length ≤ 1024

end HttpRequest

/-! ## The loop -/

/-- `int` arithmetic: a signed overflow has no defined value. -/
def checkedInt (z : Int) : Except Exn Int32 :=
  if -2 ^ 31 ≤ z ∧ z < 2 ^ 31 then .ok (Int32.ofInt z) else .error .overflow

/-- The state of the loop that sends, with what the socket has been offered and has accepted. -/
structure SendState where
  total_nsent : Int32
  /-- Where each `send` was told to start and how much it was offered. -/
  offers : List (Int × ℕ)
  /-- The positions in the message of the bytes that the socket has accepted, in their order. -/
  accepted : List Int
  /-- A signed overflow has occurred, so there is no defined continuation. -/
  overflowed : Bool

namespace SendState

/-- Nothing has been sent. -/
def initial : SendState := ⟨0, [], [], false⟩

/-- The loop goes on, for a message of `send_length` bytes. -/
def Sending (send_length : ℕ) (s : SendState) : Prop :=
  s.overflowed = false ∧ sizeOfInt s.total_nsent < send_length

instance (send_length : ℕ) (s : SendState) : Decidable (s.Sending send_length) :=
  inferInstanceAs (Decidable (_ ∧ _))

/-- The function has returned 0. -/
def Returned (send_length : ℕ) (s : SendState) : Prop :=
  s.overflowed = false ∧ send_length ≤ sizeOfInt s.total_nsent

/-- How many bytes the next `send` is offered. -/
def offered (send_length : ℕ) (s : SendState) : ℕ := send_length - sizeOfInt s.total_nsent

/-- The first `k` positions of a message. -/
def firstPositions (k : ℕ) : List Int := (List.range k).map Int.ofNat

/-- The positions that a `send` with this result has accepted. -/
def positions (s : SendState) (nsent : Int) : List Int :=
  (List.range nsent.toNat).map fun i : ℕ => s.total_nsent.toInt + i

/-- One round of the loop. The result of `send` becomes an `int`. -/
def step (send_length : ℕ) (s : SendState) (nsent : Int) : Option SendState :=
  if s.Sending send_length then
    let s := { s with
      offers := s.offers ++ [(s.total_nsent.toInt, s.offered send_length)]
      accepted := s.accepted ++ s.positions nsent }
    match checkedInt (s.total_nsent.toInt + (Int32.ofInt nsent).toInt) with
    | .ok total_nsent => some { s with total_nsent := total_nsent }
    | .error _ => some { s with overflowed := true }
  else none

/-- What `send` may return: -1, or a count between 1 and the number of bytes it was offered. -/
def SendResult (send_length : ℕ) (s : SendState) (nsent : Int) : Prop :=
  nsent = -1 ∨ 1 ≤ nsent ∧ nsent ≤ s.offered send_length

/-- The `send` is successful, and what has been accepted with it can still be counted in an `int`. -/
def Counted (s : SendState) (nsent : Int) : Prop :=
  nsent ≠ -1 ∧ s.accepted.length + nsent < 2 ^ 31

/-- The bytes of the message that were accepted. -/
def received (buf : Bytes) (s : SendState) : Bytes := s.accepted.map fun p => buf.getD p.toNat 0

/-- Nothing outside the message has been offered, and if 0 was returned then the socket has accepted all
positions of the message, each once and in order. -/
structure Sound (buf : Bytes) (s : SendState) : Prop where
  defined : s.overflowed = false
  inside : ∀ o ∈ s.offers, 0 ≤ o.1 ∧ o.1 + o.2 ≤ buf.length
  complete : s.Returned buf.length →
    s.accepted = firstPositions buf.length ∧ s.received buf = buf

end SendState

end Http
