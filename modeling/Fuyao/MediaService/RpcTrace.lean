import Fuyao.Concurrency.Prog
import Fuyao.Cpp.Strings

/-!
# Tracing of RPCs

With tracing enabled, `StartRpcTrace` looks up the name of a method in a table, or enters it, takes a slot
for a trace from the blocks of that method and counts one RPC more; all of this is one critical section.
Then it fills in the slot and makes the guard it returns. The guard's destructor writes the duration and
counts one RPC less.

The state machine has one step for the critical section, one for the rest of `StartRpcTrace` and one for
each use of a guard, so that calls and destructions of different threads are interleaved in all ways. A
slot is an address. The number of slots in a block, 65536 unless the constructor is told otherwise, is a
parameter.
-/

namespace MediaService

open Cpp

/-! ## Blocks of traces -/

/-- `RpcTrace`. -/
structure RpcTrace where
  start_timestamp : UInt64
  duration : UInt32
  client_id : UInt16
  status : UInt16

/-- `sizeof(RpcTrace)`. -/
def sizeofRpcTrace : ℕ := 16

/-- The addresses of the first `n` traces of a block. -/
def slots (block n : ℕ) : List ℕ := (List.range n).map fun i => block + sizeofRpcTrace * i

/-- `RpcTraceBlocks`; there is always a last block. -/
structure RpcTraceBlocks where
  current : ℕ
  blocks : List ℕ
  nonempty : blocks ≠ []

namespace RpcTraceBlocks

/-- The constructor, with the block that it allocates. -/
def construct (block : ℕ) : RpcTraceBlocks := ⟨0, [block], List.cons_ne_nil _ _⟩

/-- The last block. -/
def back (b : RpcTraceBlocks) : ℕ := b.blocks.getLast b.nonempty

/-- A new block becomes the last one. -/
def pushBlock (b : RpcTraceBlocks) (block : ℕ) : RpcTraceBlocks :=
  ⟨0, b.blocks ++ [block], List.append_ne_nil_of_right_ne_nil _ (List.cons_ne_nil _ _)⟩

/-- `NewRpcTrace`; `allocated` is what `new RpcTrace[_block_size]` yields if it comes to that, or `none`
if it throws. -/
def newRpcTrace (b : RpcTraceBlocks) (block_size : ℕ) (allocated : Option ℕ) :
    Option (ℕ × RpcTraceBlocks) := do
  let b ← if b.current = block_size then allocated.map b.pushBlock else some b
  return (b.back + sizeofRpcTrace * b.current, { b with current := b.current + 1 })

/-- `FlushRpcTrace`: the addresses of the traces in the order in which they are written. -/
def flushRpcTrace (b : RpcTraceBlocks) (block_size : ℕ) : List ℕ :=
  b.blocks.zipIdx.flatMap fun (block, i) =>
    if i + 1 = b.blocks.length then
      if 0 < b.current then slots block b.current else []
    else slots block block_size

end RpcTraceBlocks

/-! ## The table of methods -/

/-- The search of `StartRpcTrace`. The index becomes an `int`, and -1 stands for a name that is not there. -/
def findMethod (method_names : List Bytes) (method_name : Bytes) : Int32 :=
  ((method_names.findIdx? (· == method_name)).map Int32.ofNat).getD (-1)

/-- The fields of `ClientPool` for tracing and the traces in memory; the last four fields are kept for
the statements. -/
structure TraceState where
  method_names : List Bytes
  traces : List RpcTraceBlocks
  onfly_rpcs : Int64
  memory : ℕ → RpcTrace
  /-- The slots of the calls that have left the critical section and not returned yet. -/
  starting : List ℕ
  /-- The slots of the live guards. -/
  guards : List ℕ
  /-- The slots that have been handed out, with the method, in their order. -/
  handed : List (Bytes × ℕ)
  /-- An element outside the vector has been accessed. -/
  faulted : Bool

namespace TraceState

/-- A tracer without traces. -/
def initial (memory : ℕ → RpcTrace) : TraceState := ⟨[], [], 0, memory, [], [], [], false⟩

/-- All blocks that have been allocated. -/
def blocks (s : TraceState) : List ℕ := s.traces.flatMap RpcTraceBlocks.blocks

/-- The slots that have been handed out for a method, in their order. -/
def handedTo (s : TraceState) (method_name : Bytes) : List ℕ :=
  (s.handed.filter fun h => h.1 = method_name).map Prod.snd

/-- The end of the critical section, where the index is used. -/
def handOut (s : TraceState) (block_size : ℕ) (method_name : Bytes) (method_idx : Int32)
    (allocated : Option ℕ) : TraceState :=
  let i := sizeOfInt method_idx
  match s.traces[i]? with
  | none => { s with faulted := true }
  | some b =>
    match b.newRpcTrace block_size allocated with
    | none => s
    | some (rpc_trace, b) => { s with
        traces := s.traces.set i b
        onfly_rpcs := s.onfly_rpcs + 1
        starting := rpc_trace :: s.starting
        handed := s.handed ++ [(method_name, rpc_trace)] }

/-- A method is entered into the table, with the block that the constructor of its traces allocates. -/
def addMethod (s : TraceState) (method_name : Bytes) (block : ℕ) : TraceState :=
  { s with
    method_names := s.method_names ++ [method_name]
    traces := s.traces ++ [.construct block] }

/-- The critical section. A call allocates at most one block, so there is only one `allocated`. -/
def enter (s : TraceState) (block_size : ℕ) (method_name : Bytes) (allocated : Option ℕ) : TraceState :=
  let method_idx := findMethod s.method_names method_name
  if method_idx = -1 then
    match allocated with
    -- the constructor throws when the name is already in the table
    | none => { s with method_names := s.method_names ++ [method_name] }
    | some block =>
      (s.addMethod method_name block).handOut block_size method_name (Int32.ofNat s.method_names.length) allocated
  else s.handOut block_size method_name method_idx allocated

/-- The trace at an address is changed. -/
def write (s : TraceState) (rpc_trace : ℕ) (f : RpcTrace → RpcTrace) : TraceState :=
  { s with memory := Function.update s.memory rpc_trace (f (s.memory rpc_trace)) }

/-- The rest of `StartRpcTrace`; `made` says whether there is memory for the guard. -/
def finish (s : TraceState) (rpc_trace : ℕ) (client_id : UInt16) (timestamp : UInt64) (made : Bool) :
    TraceState :=
  let s := { s with starting := s.starting.erase rpc_trace }
  let s := s.write rpc_trace fun t => { t with client_id := client_id, status := 0 }
  if made then
    let s := s.write rpc_trace fun t => { t with start_timestamp := timestamp }
    { s with guards := rpc_trace :: s.guards }
  else s

/-- The destructor of a guard. -/
def destroy (s : TraceState) (rpc_trace : ℕ) (timestamp : UInt64) : TraceState :=
  let s := s.write rpc_trace fun t => { t with duration := (timestamp - t.start_timestamp).toUInt32 }
  { s with
    onfly_rpcs := s.onfly_rpcs - 1
    guards := s.guards.erase rpc_trace }

end TraceState

/-- The calls of the tracer. -/
inductive TraceLabel where
  /-- `method_name` is a C string. -/
  | enter (method_name : Bytes) (allocated : Option ℕ)
  | finish (rpc_trace : ℕ) (client_id : UInt16) (timestamp : UInt64) (made : Bool)
  | setStatus (rpc_trace : ℕ) (status : UInt16)
  | destroy (rpc_trace : ℕ) (timestamp : UInt64)

namespace TraceState

/-- After a fault there is no defined continuation. -/
def step (block_size : ℕ) (s : TraceState) : TraceLabel → Option TraceState
  | .enter method_name allocated =>
    if s.faulted then none else some (s.enter block_size (cStr method_name) allocated)
  | .finish rpc_trace client_id timestamp made =>
    if s.faulted ∨ rpc_trace ∉ s.starting then none else some (s.finish rpc_trace client_id timestamp made)
  | .setStatus rpc_trace status =>
    if s.faulted ∨ rpc_trace ∉ s.guards then none
    else some (s.write rpc_trace fun t => { t with status := status })
  | .destroy rpc_trace timestamp =>
    if s.faulted ∨ rpc_trace ∉ s.guards then none else some (s.destroy rpc_trace timestamp)

/-! ## Runs -/

/-- Two pieces of memory of `n` bytes do not overlap. -/
def Apart (n a b : ℕ) : Prop := a + n ≤ b ∨ b + n ≤ a

/-- What `new` yields lies in the address space and does not overlap what it has yielded before. -/
def Fresh (block_size : ℕ) (s : TraceState) (block : ℕ) : Prop :=
  block + sizeofRpcTrace * block_size ≤ 2 ^ 64 ∧ ∀ b ∈ s.blocks, Apart (sizeofRpcTrace * block_size) b block

/-- The runs of the program with any allocator. -/
def Allocator (block_size : ℕ) (s : TraceState) : TraceLabel → Prop
  | .enter _ (some block) => s.Fresh block_size block
  | _ => True

/-- A call with this name needs a new block. -/
def NeedsBlock (block_size : ℕ) (s : TraceState) (method_name : Bytes) : Prop :=
  method_name ∉ s.method_names ∨
    ∃ (i : ℕ) (b : RpcTraceBlocks), s.method_names[i]? = some method_name ∧ s.traces[i]? = some b ∧
      b.current = block_size

/-- Memory that is needed is there. -/
def Provided (block_size : ℕ) (s : TraceState) : TraceLabel → Prop
  | .enter method_name allocated => s.NeedsBlock block_size (cStr method_name) → allocated ≠ none
  | .finish _ _ _ made => made = true
  | _ => True

/-- The index of the method is an `int`. -/
def Indexed (s : TraceState) : TraceLabel → Prop
  | .enter method_name _ => cStr method_name ∈ s.method_names ∨ s.method_names.length < 2 ^ 31
  | _ => True

/-! ## What the traces are meant to be -/

/-- Traces are neither lost nor overlapped. -/
structure Sound (block_size : ℕ) (s : TraceState) : Prop where
  defined : s.faulted = false
  /-- No name is in the table twice. -/
  nodup : s.method_names.Nodup
  aligned : s.method_names.length = s.traces.length
  /-- Every slot that was handed out lies in a block of its method. -/
  inside : ∀ method_name rpc_trace, (method_name, rpc_trace) ∈ s.handed →
    ∃ (i : ℕ) (b : RpcTraceBlocks), s.method_names[i]? = some method_name ∧ s.traces[i]? = some b ∧
      ∃ block ∈ b.blocks, ∃ k < block_size, rpc_trace = block + sizeofRpcTrace * k
  apart : (s.handed.map Prod.snd).Pairwise (Apart sizeofRpcTrace)
  /-- For each method, what is written are the slots that were handed out for it, in their order. -/
  flushed : ∀ (i : ℕ) method_name (b : RpcTraceBlocks), s.method_names[i]? = some method_name →
    s.traces[i]? = some b → b.flushRpcTrace block_size = s.handedTo method_name
  /-- The counter is the number of live guards, and of those that are about to be made. -/
  onfly : s.onfly_rpcs.toInt = s.guards.length + s.starting.length

end TraceState

end MediaService
