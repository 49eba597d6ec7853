import Fuyao.Cpp.Strings
import Fuyao.Faas.Faas
import Fuyao.Utils.PayloadSize

/-!
# The function chain

`exp06Frontend` takes a request like `4 16B`: the length of the chain and the size of the payload that
travels along it. `exp06Backend` finds the remaining length in the first four bytes of its input; unless
it is the last one it counts the length down in place and invokes itself with the same payload.
-/

namespace FunctionChain

open Cpp Concurrency Faas Utils

/-- The functions of the benchmark. -/
inductive Func where
  | exp06Frontend
  | exp06Backend
  deriving DecidableEq

/-! ## `exp06Backend` -/

/-- `faas_func_call` of `exp06Backend`. -/
def exp06Backend (input : Bytes) : Body Func Int32 := do
  if input.length < 4 then
    return -1
  let chain_length := loadInt input
  if chain_length < 1 ∨ 128 < chain_length then
    return -1
  if chain_length = 1 then
    let end_time ← ask .clock
    ask (.append (toStr end_time.toInt))
    return 0
  let payload := storeInt (chain_length - 1) input
  let ret ← ask (.invoke .exp06Backend payload)
  if ret ≠ 0 then
    return -1
  ask (.append (← ask (.output 0)))
  return 0

/-! ## `exp06Frontend` -/

/-- The first step of `exp06Frontend`: the length of the chain and the size of the payload, `none` if
the request is rejected. -/
def parseRequest (val : Bytes) : Except Exn (Option (Int32 × Int64)) :=
  let num_str := val.takeWhile (· != 32)
  match val.dropWhile (· != 32) with
  | [] => .ok none
  | _ :: payload_size_str =>
    if num_str = [] then .ok none
    else do
      let will_generate_payload_size ← parsePayloadSize payload_size_str
      match stoi num_str with
      | .error _ => .ok none
      | .ok chain_length =>
        if will_generate_payload_size = -1 then .ok none
        else .ok (some (chain_length, will_generate_payload_size))

/-- Room for the length of the chain is reserved. The comparison is one of unsigned numbers. -/
def reservedSize (will_generate_payload_size : Int64) : ℕ :=
  if will_generate_payload_size.toUInt64 < 4 then 4 else will_generate_payload_size.toUInt64.toNat

/-- What `exp06Frontend` prints into its `fn_b_output`. -/
def report (chain_length : Int32) (elapsed : Int64) : Bytes :=
  ascii "invoke a function chain of length " ++ toStr chain_length.toInt ++ ascii " takes " ++
    toStr elapsed.toInt ++ ascii "\n"

/-- `exp06Frontend` after the invocation. The output is read before the return code is looked at. -/
def reportChain (chain_length : Int32) (start_time : Int64) (ret : Int32) : Body Func Int32 := do
  match stol (← ask (.output 0)) with
  | .error _ => return -1
  | .ok end_time =>
    if ret ≠ 0 then
      return -1
    let elapsed ← Prog.ofExcept (checkedLong (end_time.toInt - start_time.toInt))
    let fn_b_output ← Prog.ofExcept (sprintf 60 (report chain_length elapsed))
    ask (.append fn_b_output)
    return 0

/-- `exp06Frontend` after the request has been parsed. -/
def runChain (chain_length : Int32) (will_generate_payload_size : Int64) : Body Func Int32 := do
  match ← ask (.alloc (reservedSize will_generate_payload_size)) with
  | none => return -1
  | some generate_payload =>
    let start_time ← ask .clock
    let ret ← ask (.invoke .exp06Backend (storeInt chain_length generate_payload))
    reportChain chain_length start_time ret

/-- `faas_func_call` of `exp06Frontend`. -/
def exp06Frontend (input : Bytes) : Body Func Int32 := do
  match ← Prog.ofExcept (parseRequest input) with
  | none => return -1
  | some (chain_length, will_generate_payload_size) => runChain chain_length will_generate_payload_size

/-- The function with a given name. -/
def body : Func → Bytes → Body Func Int32
  | .exp06Frontend => exp06Frontend
  | .exp06Backend => exp06Backend

/-- The length of the chain and the time between two readings of the clock have at most 17 characters
together: the other 42 of the report and its NUL take up the rest of the buffer. -/
def ElapsedFits (chain_length : Int32) (start_time end_time : Int64) : Prop :=
  (toStr chain_length.toInt).length + (toStr (end_time.toInt - start_time.toInt)).length ≤ 17

end FunctionChain
