import Fuyao.Faas.Faas
import Fuyao.Utils.PayloadSize

/-!
# Measuring the latency of an invocation

`fn_b` and `fn_c` generate a payload of the requested size, invoke `exp01Fne` with it, and print the
difference between the time that `exp01Fne` has printed and the time before the invocation. They differ
in where the payload is allocated and in the text they print. `fn_d` and `fn_f` take the time after the
invocation instead.
-/

namespace Latency

open Cpp Concurrency Faas Utils

/-- The functions of the benchmark. -/
inductive Func where
  | exp01Fne
  deriving DecidableEq

/-- What both functions do with the memory they have obtained, if they have obtained any; `text` is
printed before the latency. The output is read before the return code is looked at. -/
def measure (text : Bytes) : Option Bytes → Body Func Int32
  | none => return -1
  | some generate_payload => do
    let start_time ← ask .clock
    -- the whole buffer has been set to 1
    let ret ← ask (.invoke .exp01Fne (List.replicate generate_payload.length 1))
    let end_time ← Prog.ofExcept (stol (← ask (.output 0)))
    if ret ≠ 0 then
      return -1
    let elapsed ← Prog.ofExcept (checkedLong (end_time.toInt - start_time.toInt))
    let output ← Prog.ofExcept (sprintf 60 (text ++ toStr elapsed.toInt ++ ascii "\n"))
    ask (.append output)
    return 0

/-- `faas_func_call` of `fn_b`, which allocates with `posix_memalign`. -/
def fnB (input : Bytes) : Body Func Int32 := do
  let will_generate_payload_size ← Prog.ofExcept (parsePayloadSize input)
  if will_generate_payload_size = -1 then
    return -1
  let generate_payload ← ask (.alloc will_generate_payload_size.toUInt64.toNat)
  measure (ascii "Via IPC: interaction latency : ") generate_payload

/-- `faas_func_call` of `fn_c`, which allocates with `mem_alloc_fn`. -/
def fnC (input : Bytes) : Body Func Int32 := do
  let will_generate_payload_size ← Prog.ofExcept (parsePayloadSize input)
  if will_generate_payload_size = -1 then
    return -1
  let generate_payload ← ask (.allocFor .exp01Fne will_generate_payload_size.toUInt64.toNat)
  measure (ascii "Via DRC_OVER_IPC: interaction latency : ") generate_payload

/-- What `fn_d` and `fn_f` do with the memory they have obtained. -/
def measureRoundTrip (text : Bytes) : Option Bytes → Body Func Int32
  | none => return -1
  | some generate_payload => do
    let start_time ← ask .clock
    let ret ← ask (.invoke .exp01Fne (List.replicate generate_payload.length 1))
    let end_time ← ask .clock
    if ret ≠ 0 then
      return -1
    let elapsed ← Prog.ofExcept (checkedLong (end_time.toInt - start_time.toInt))
    let output ← Prog.ofExcept (sprintf 60 (text ++ toStr elapsed.toInt ++ ascii "\n"))
    ask (.append output)
    return 0

/-- `faas_func_call` of `fn_d`. -/
def fnD (input : Bytes) : Body Func Int32 := do
  let will_generate_payload_size ← Prog.ofExcept (parsePayloadSize input)
  if will_generate_payload_size = -1 then
    return -1
  let generate_payload ← ask (.alloc will_generate_payload_size.toUInt64.toNat)
  measureRoundTrip (ascii "Via Fabric: interaction latency : ") generate_payload

/-- `faas_func_call` of `fn_f`. -/
def fnF (input : Bytes) : Body Func Int32 := do
  let will_generate_payload_size ← Prog.ofExcept (parsePayloadSize input)
  if will_generate_payload_size = -1 then
    return -1
  let generate_payload ← ask (.alloc will_generate_payload_size.toUInt64.toNat)
  measureRoundTrip (ascii "Via DRC_OVER_Fabric: interaction latency : ") generate_payload

end Latency
