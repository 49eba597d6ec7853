import Fuyao.Cpp.Strings

/-!
# The round trip over plain sockets

The client sends a block of one of four sizes, which its first byte stands for, and waits for an
acknowledgement. The server receives until it has as many bytes as the first byte asks for.

`recv` shows a connection as a sequence of fragments. After them it returns 0 for ever, when the peer has
closed, or -1 for ever, after an error.

The number of rounds of a loop is bounded from outside: whether the loop ends is whether some bound
suffices.
-/

namespace RoundTrip

open Cpp

/-! ## Loops that need not end -/

section Loops

variable {σ ε : Type}

/-- `do body while (goes_on)` for at most `fuel` rounds, where `i` counts the rounds already made. The
result is the number of rounds with the state after them, or `none` if the loop is still going on. -/
def doWhile (body : ℕ → σ → Except ε σ) (goes_on : σ → Bool) : ℕ → ℕ → σ → Except ε (Option (ℕ × σ))
  | 0, _, _ => .ok none
  | fuel + 1, i, s => do
    let s ← body i s
    if goes_on s then doWhile body goes_on fuel (i + 1) s else return some (i + 1, s)

/-- Every round from a state of `Inv` succeeds. Its state satisfies `Inv` again if the loop goes on and
`Post` if it does not. -/
def Maintains (body : ℕ → σ → Except ε σ) (goes_on : σ → Bool) (Inv Post : ℕ → σ → Prop) : Prop :=
  ∀ i s, Inv i s → ∃ s', body i s = .ok s' ∧
    (goes_on s' = true → Inv (i + 1) s') ∧ (goes_on s' = false → Post (i + 1) s')

end Loops

/-- `BUFFER_SIZE`, of the server and of the client. -/
def bufferSize : ℕ := 1024 * 1024

/-! ## The connection -/

/-- The bytes that one `recv` stores in the buffer. -/
structure Fragment where
  bytes : Bytes
  nonempty : bytes ≠ []
  fits : bytes.length ≤ bufferSize

/-- How a connection goes on when everything has been received. -/
inductive Ending where
  | closed
  | failed
  deriving DecidableEq

/-- What a sequence of `recv` calls on a connection yields. -/
structure Connection where
  fragments : List Fragment
  ending : Ending

/-- What a `recv` yields. -/
inductive Received where
  | data (fragment : Fragment)
  | ended (ending : Ending)

namespace Received

/-- The return value of `recv`. -/
def receivedBytes : Received → Int64
  | .data fragment => Int64.ofNat fragment.bytes.length
  | .ended .closed => 0
  | .ended .failed => -1

/-- The bytes that have been received. -/
def bytes : Received → Bytes
  | .data fragment => fragment.bytes
  | .ended _ => []

end Received

namespace Connection

/-- The result of the `i`-th `recv`. -/
def recv (c : Connection) (i : ℕ) : Received :=
  match c.fragments[i]? with
  | some fragment => .data fragment
  | none => .ended c.ending

/-- All bytes that the peer has sent. -/
def data (c : Connection) : Bytes := (c.fragments.map Fragment.bytes).flatten

end Connection

/-! ## The server -/

/-- The variables of the loop. -/
structure ReceiveState where
  expected_bytes : Int64
  sum : Int64
  first : Bool

namespace ReceiveState

/-- The variables before the loop. -/
def initial : ReceiveState := ⟨0, 0, true⟩

/-- The `switch` over the first byte, which has no default. -/
def expect (s : ReceiveState) (b : UInt8) : Int64 :=
  if b = 65 then 512
  else if b = 66 then 1024
  else if b = 67 then 512 * 1024
  else if b = 68 then 1024 * 1024
  else s.expected_bytes

/-- The variables after the `if` of one round. -/
def look (s : ReceiveState) (r : Received) : ReceiveState :=
  if 0 < r.receivedBytes ∧ s.first then { s with expected_bytes := s.expect (r.bytes.headD 0), first := false }
  else s

/-- One round of the loop. -/
def round (s : ReceiveState) (r : Received) : Except Exn ReceiveState := do
  let s := s.look r
  let sum ← checkedLong (s.sum.toInt + r.receivedBytes.toInt)
  return { s with sum := sum }

/-- The condition of the loop. -/
def goesOn (s : ReceiveState) : Bool := s.sum < s.expected_bytes

end ReceiveState

/-- What the server does with a connection it has accepted. -/
inductive Action where
  | recv (r : Received)
  | send (s : Bytes)
  | print (s : Bytes)
  | close

/-- The bytes that have been received with these actions. -/
def received (actions : List Action) : Bytes :=
  actions.flatMap fun
    | .recv r => r.bytes
    | _ => []

/-- The acknowledgement. -/
def ack : Bytes := ascii "ACK"

/-- The body of the server's main loop after `accept`, for at most `fuel` rounds of the inner loop: what
it has done when it has closed the connection, or `none` if it still receives. -/
def serve (c : Connection) (fuel : ℕ) : Except Exn (Option (List Action)) := do
  match ← doWhile (fun i s => ReceiveState.round s (c.recv i)) ReceiveState.goesOn fuel 0 .initial with
  | none => return none
  | some (recvs, s) =>
    return some ((List.range recvs).map (fun i => Action.recv (c.recv i)) ++
      [.send ack,
        .print (ascii "Received " ++ toStr s.expected_bytes.toInt ++ ascii " bytes from client.\n"), .close])

/-! ## What the acknowledgement is meant to say -/

/-- The number of bytes that the first byte of a block stands for. -/
def codedSize (b : UInt8) : Option ℕ :=
  if b = 65 then some 512
  else if b = 66 then some 1024
  else if b = 67 then some (512 * 1024)
  else if b = 68 then some (1024 * 1024)
  else none

/-- The bytes are at least as many as the first of them stands for. -/
def Complete (s : Bytes) : Prop := ∃ b size, s.head? = some b ∧ codedSize b = some size ∧ size ≤ s.length

/-- The receive loop ends. -/
def Ends (c : Connection) : Prop := ∃ fuel actions, serve c fuel = .ok (some actions)

/-- Whenever the server acknowledges, what it has received on the connection is complete. -/
def AcksComplete (c : Connection) : Prop :=
  ∀ fuel actions, serve c fuel = .ok (some actions) →
    ∀ before after, actions = before ++ .send ack :: after → Complete (received before)

/-! ## The client -/

/-- The sizes in the client's `main`. -/
def dataSizes : List Int32 := [512, 1024, 512 * 1024, 1024 * 1024]

/-- The first byte of the client's block. -/
def sizeCode (data_size : Int32) : UInt8 :=
  if data_size = 512 then 65
  else if data_size = 1024 then 66
  else if data_size = 512 * 1024 then 67
  else if data_size = 1024 * 1024 then 68
  else 65

/-- The block that `sendData` hands to `send`. A size that is negative or larger than the buffer reads
outside it. -/
def sendData (data_size : Int32) : Except Exn Bytes :=
  if 0 ≤ data_size.toInt ∧ data_size.toInt ≤ bufferSize then
    .ok ((List.range data_size.toInt.toNat).map fun i : ℕ =>
      if i = 0 then sizeCode data_size else UInt8.ofNat (65 + i % 26))
  else .error .overflow

end RoundTrip
