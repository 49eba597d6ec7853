import Fuyao.Concurrency.Prog
import Fuyao.Http.HttpParser
import Fuyao.Http.Socket
import Fuyao.Latency.Latency

/-!
# Measuring the latency through the gateway

`fn_a` sends the payload to `exp01Fne` in a request to the gateway. Unlike the other functions it hands
the payload on as a C string: it allocates one byte more than was asked for, fills all but that byte, and
writes the NUL at the index of the request's own length.
-/

namespace Latency

open Cpp Concurrency Utils Http

/-- What `fn_a` asks for. A call in which `new` throws is not followed any further. -/
inductive GatewayOp where
  /-- `posix_memalign`. -/
  | alloc (size : ℕ)
  /-- `new char[size]`, answered by what the memory contains. -/
  | newArray (size : ℕ)
  /-- `memset` of the first bytes of `request_payload` to 1. -/
  | memset (count : ℕ)
  /-- `request_payload[i] = '\0'`. -/
  | writeNul (i : ℕ)
  | clock
  | getenv (name : Bytes)
  /-- `Socket::conn`, answered by whether there is a connection. -/
  | conn (socket : Socket)
  /-- `Socket::issue_http_request`. -/
  | issueHttpRequest (request : HttpRequest)
  /-- `Socket::recv_response`, answered by the bytes that were read or `none` for -1. -/
  | recvResponse (max_num_read : ℕ)
  | append (s : Bytes)

/-- The answers of the operations; `none` is a null pointer. -/
@[reducible] def GatewayOp.Res : GatewayOp → Type
  | .alloc _ => Option Bytes
  | .newArray _ => Bytes
  | .memset _ => Unit
  | .writeNul _ => Unit
  | .clock => Int64
  | .getenv _ => Option Bytes
  | .conn _ => Bool
  | .issueHttpRequest _ => Unit
  | .recvResponse _ => Option Bytes
  | .append _ => Unit

/-- The programs over these operations. -/
abbrev GatewayBody := Prog GatewayOp GatewayOp.Res Exn

namespace GatewayOp

/-- The program that performs one operation. -/
def ask (o : GatewayOp) : GatewayBody o.Res := Prog.call o

end GatewayOp

/-- The content of `request_payload` after both writes, where the second one may be out of bounds. -/
def requestPayload (memory : Bytes) (size i : ℕ) : Except Exn Bytes :=
  let filled := List.replicate size 1 ++ memory.drop size
  if i < memory.length then .ok (filled.set i 0) else .error .overflow

/-- The vendored parser, and what the members of a new `HttpParser` contain. -/
structure Gateway where
  execute : Bytes → Execution
  uninitialised : Option Bytes

/-- `fn_a` after the request has been sent. -/
def gatewayResponse (g : Gateway) (start_time : Int64) : GatewayBody Int32 := do
  match ← GatewayOp.ask (.recvResponse (1024 * 1024)) with
  -- the length of the response becomes the largest `size_t`
  | none => Prog.raise .overflow
  | some response =>
    -- the buffer has 1024 bytes
    if 1024 < response.length then Prog.raise .overflow
    else do
      let _response_payload ← Prog.ofExcept
        ((⟨Int32.ofNat response.length, g.uninitialised⟩ : HttpParser).extractPayload (g.execute response))
      let end_time ← GatewayOp.ask .clock
      let elapsed ← Prog.ofExcept (checkedLong (end_time.toInt - start_time.toInt))
      let fn_a_output ← Prog.ofExcept
        (sprintf 60 (ascii "Via Gateway: interaction latency : " ++ toStr elapsed.toInt ++ ascii "\n"))
      GatewayOp.ask (.append fn_a_output)
      return 0

/-- `fn_a` with the buffer it is going to send. -/
def gatewayCall (g : Gateway) (request_payload : Bytes) : GatewayBody Int32 := do
  let start_time ← GatewayOp.ask .clock
  let gateway_addr ← GatewayOp.ask (.getenv (ascii "LUMINE_GATEWAY_ADDR"))
  let gateway_port ← GatewayOp.ask (.getenv (ascii "LUMINE_GATEWAY_PORT"))
  let port ← Prog.ofExcept (stoi (gateway_port.getD (ascii "8084")))
  let socket : Socket := ⟨gateway_addr.getD (ascii "192.168.1.198"), port.toUInt32.toUInt16⟩
  let connected ← GatewayOp.ask (.conn socket)
  if !connected then
    return -1
  GatewayOp.ask (.issueHttpRequest (.text socket (ascii "POST") (ascii "/function/exp01Fne") request_payload))
  gatewayResponse g start_time

/-- `faas_func_call` of `fn_a`. -/
def fnA (g : Gateway) (input : Bytes) : GatewayBody Int32 := do
  let will_generate_payload_size ← Prog.ofExcept (parsePayloadSize input)
  if will_generate_payload_size = -1 then
    return -1
  let length ← Prog.ofExcept (checkedLong (will_generate_payload_size.toInt + 1))
  match ← GatewayOp.ask (.alloc length.toUInt64.toNat) with
  | none => return -1
  | some _ =>
    let memory ← GatewayOp.ask (.newArray length.toUInt64.toNat)
    GatewayOp.ask (.memset will_generate_payload_size.toUInt64.toNat)
    GatewayOp.ask (.writeNul input.length)
    let request_payload ← Prog.ofExcept
      (requestPayload memory will_generate_payload_size.toUInt64.toNat input.length)
    gatewayCall g request_payload

/-! ## The payload that is carried -/

section Carries

/-- Allocations succeed and give memory of the size that was asked for. -/
def Allocated : (o : Faas.Op Func) × o.Res → Prop
  | ⟨.alloc size, memory⟩ => ∃ s : Bytes, memory = some s ∧ s.length = size
  | _ => True

/-- An allocation has given as much memory as was asked for. -/
def GatewayAllocated : (o : GatewayOp) × o.Res → Prop
  | ⟨.alloc size, memory⟩ => ∃ s : Bytes, memory = some s ∧ s.length = size
  | ⟨.newArray size, memory⟩ => List.length memory = size
  | _ => True

/-- The invoked function is handed `n` bytes. -/
def HandsOn (n : ℕ) : Faas.Op Func → Prop
  | .invoke _ payload => payload.length = n
  | _ => True

/-- The buffer of `n + 1` bytes is written inside its bounds, and the request has a body of `n` bytes
and announces as many. -/
def SendsOn (n : ℕ) : GatewayOp → Prop
  | .memset count => count ≤ n + 1
  | .writeNul i => i < n + 1
  | .issueHttpRequest request => request.body.length = n ∧ request.contentLength = n
  | _ => True

/-- The function hands on `n` bytes whenever allocations succeed. -/
def CarriedBy (n : ℕ) (p : Faas.Body Func Int32) : Prop :=
  ∀ es out, p.Path es out → (∀ e ∈ es, Allocated e) → ∀ e ∈ es, HandsOn n e.1

/-- All transports carry `n` bytes for this request, provided that allocations succeed. -/
structure CarriesSize (g : Gateway) (input : Bytes) (n : ℕ) : Prop where
  gateway : ∀ es out, (fnA g input).Path es out → (∀ e ∈ es, GatewayAllocated e) → ∀ e ∈ es, SendsOn n e.1
  ipc : CarriedBy n (fnB input)
  fabric : CarriedBy n (fnD input)
  drc_fabric : CarriedBy n (fnF input)

end Carries

end Latency
