import Fuyao.Concurrency.ThreadPool
import Fuyao.Cpp.Strings

/-!
# Fan-out and join of `exp11MarginBalance`

A request asks for a number of audits. `faas_func_call` constructs a job for each of them, hands the
jobs to a thread pool that all requests share, waits for the futures and then looks at the flags that
the workers left in the jobs. A task of the pool is only the address of a job; the jobs live on the
heap until the call that constructed them returns, and an access to a job that is not there is a fault.

Only the build without `__ENABLE_ACROSS` exists: the `#elif` of the other one lacks its condition.
-/

namespace FanOut

open Cpp Concurrency

/-- How a call can end other than by returning. -/
inductive Exn where
  | parseError
  | typeError
  /-- Signed overflow; undefined, nothing is said about what follows. -/
  | overflow
  /-- `enqueue on stopped ThreadPool`. -/
  | runtimeError
  deriving DecidableEq

/-! ## The request -/

/-- What `faas_func_call` uses of the JSON library, for documents of type `Doc`. -/
structure JsonLib (Doc : Type) where
  parse : Bytes → Except Exn Doc
  contains : Doc → Bytes → Bool
  /-- `at(key).get<long long>()`. -/
  getLongLong : Doc → Bytes → Except Exn Int64

/-- The request number and the number of audits, `none` if the request is rejected. -/
def parseRequest {Doc : Type} (json : JsonLib Doc) (input : Bytes) :
    Except Exn (Option (Int64 × Int64)) := do
  let input_json ← json.parse input
  if !json.contains input_json (ascii "req_id") || !json.contains input_json (ascii "fanout_num") then
    return none
  let req_id ← json.getLongLong input_json (ascii "req_id")
  let fanout_num ← json.getLongLong input_json (ascii "fanout_num")
  return some (req_id, fanout_num)

/-! ## Jobs -/

/-- The ways to pass a message to a function. -/
inductive PassingMethod where
  | IPC
  | DRC_OVER_IPC
  | DRC_OVER_Fabric
  | Fabric
  deriving DecidableEq

/-- `ChooseMessagePassingMethod`, from the environment variable `MessagePathingMethod`. -/
def chooseMessagePassingMethod (var : Option Bytes) : PassingMethod :=
  let method := var.getD (ascii "IPC")
  if method = ascii "DRC_OVER_IPC" then .DRC_OVER_IPC
  else if method = ascii "DRC_OVER_Fabric" then .DRC_OVER_Fabric
  else if method = ascii "Fabric" then .Fabric
  else .IPC

/-- A job in the heap: the function that it invokes, and whether that has succeeded. -/
structure Job where
  func_name : Bytes
  succeed : Bool

/-- The jobs on the heap, and whether a job was used that is not there. -/
structure Heap where
  job : ℕ → Option Job
  fault : Bool

/-- A heap without jobs. -/
def Heap.empty : Heap := ⟨fun _ => none, false⟩

/-- What the function does outside of its own memory. -/
inductive Op where
  /-- `get_timestamp_us`. The clock is not set before the epoch, so that the difference of two readings
  is a `long` again. -/
  | clock
  /-- `std::make_shared<Job>`, answered by the address of the job. -/
  | makeJob (func_name : Bytes)
  /-- Read `job->func_name`. -/
  | funcName (job : ℕ)
  /-- `invoke_func_fn`, answered by its return code. -/
  | invoke (func_name payload : Bytes) (method : PassingMethod)
  /-- Write `job->succeed`. -/
  | setSucceed (job : ℕ) (succeed : Bool)
  /-- Read `job->succeed`. -/
  | succeed (job : ℕ)
  /-- The last pointer to the job is gone. -/
  | release (job : ℕ)
  | print (text : Bytes)
  /-- `append_output_fn`. -/
  | append (output : Bytes)

/-- The answers of the operations. -/
@[reducible]
def Op.Res : Op → Type
  | .clock => ℕ
  | .makeJob _ => ℕ
  | .funcName _ => Bytes
  | .invoke _ _ _ => Int32
  | .setSucceed _ _ => Unit
  | .succeed _ => Bool
  | .release _ => Unit
  | .print _ => Unit
  | .append _ => Unit

/-- What is open: the time, where the allocator puts a job, the return code of an invocation. -/
structure Choice where
  time : ℕ
  address : ℕ
  code : Int32

/-- The heap as a machine. Access to a job that has been freed is a fault. -/
def machine : Machine Op Op.Res Heap Choice Empty where
  exec
    | .clock, ch, h => some (ch.time, h)
    | .makeJob func_name, ch, h =>
      match h.job ch.address with
      | some _ => none
      | none => some (ch.address, { h with
          job := Function.update h.job ch.address (some ⟨func_name, false⟩) })
    | .funcName job, _, h =>
      match h.job job with
      | some j => some (j.func_name, h)
      | none => some ([], { h with fault := true })
    | .invoke _ _ _, ch, h => some (ch.code, h)
    | .setSucceed job succeed, _, h =>
      match h.job job with
      | some j => some ((), { h with job := Function.update h.job job (some { j with succeed := succeed }) })
      | none => some ((), { h with fault := true })
    | .succeed job, _, h =>
      match h.job job with
      | some j => some (j.succeed, h)
      | none => some (false, { h with fault := true })
    | .release job, _, h =>
      match h.job job with
      | some _ => some ((), { h with job := Function.update h.job job none })
      | none => some ((), { h with fault := true })
    | .print _, _, h => some ((), h)
    | .append _, _, h => some ((), h)
  env e := e.elim

/-! ## The functions -/

/-- `invoke`, which the workers execute for each job. -/
def invoke (var : Option Bytes) (job : ℕ) : Prog Op Op.Res Exn Int32 := do
  let func_name ← Prog.call (Op.funcName job)
  let ret ← Prog.call (Op.invoke func_name (ascii "2") (chooseMessagePassingMethod var))
  Prog.call (Op.setSucceed job (ret ≠ -1))
  return 0

/-- Programs of requests: they use the heap and the pool. -/
abbrev Call (α : Type) := Prog (PoolOp ℕ Op) (PoolOp.Res Op.Res Exn Int32) Exn α

/-- An operation on the heap, as one of a program that also uses the thread pool. -/
def perform (o : Op) : Call (Op.Res o) := Prog.call (PoolOp.base o)

/-- `result.get()`, which rethrows the exception of the task. -/
def getResult (result : ℕ) : Call Int32 := do
  let out ← Prog.call (PoolOp.get result)
  Prog.ofExcept out

/-- The function that the job of round `i` invokes. -/
def auditName (i : ℕ) : Bytes := ascii "exp11RunAudit" ++ toStr (i + 1)

/-- The vector `jobs` is destroyed. -/
def releaseJobs : List ℕ → Call Unit
  | [] => return ()
  | job :: jobs => do
    perform (.release job)
    releaseJobs jobs

/-- `enqueue`, which throws if the pool has been stopped; the vector `jobs` is destroyed on the way
out. -/
def enqueue (jobs : List ℕ) (job : ℕ) : Call ℕ := do
  match ← Prog.call (PoolOp.enqueue job) with
  | some result => return result
  | none =>
    releaseJobs jobs
    .raise .runtimeError

/-- The loop that starts the jobs, `n` rounds from round `i` on. Its counter is an `int`, and the name
of round `2 ^ 31 - 1` needs the number after it. -/
def enqueueJobs : (n i : ℕ) → (jobs results : List ℕ) → Call (List ℕ × List ℕ)
  | 0, _, jobs, results => return (jobs, results)
  | n + 1, i, jobs, results =>
    if i = 2 ^ 31 - 1 then .raise .overflow
    else do
      let job ← perform (.makeJob (auditName i))
      let result ← enqueue (jobs ++ [job]) job
      enqueueJobs n (i + 1) (jobs ++ [job]) (results ++ [result])

/-- The loop that waits for all futures. -/
def getResults : List ℕ → Call Unit
  | [] => return ()
  | result :: results => do
    let _ ← getResult result
    getResults results

/-- Whether all jobs succeeded; the loop ends at the first that did not. -/
def allSucceed : List ℕ → Call Bool
  | [] => return true
  | job :: jobs => do
    if ← perform (.succeed job) then allSucceed jobs else return false

/-- What is appended to the output of a call that returns 0. -/
def message : Bytes := ascii "All jobs are completed!\n"

/-- The line that is printed at the end. -/
def report (req_id : Int64) (elapsed : Int) : Bytes :=
  ascii "req_id = " ++ toStr req_id.toInt ++ ascii ", token = " ++ toStr elapsed ++ ascii " us\n"

/-- `faas_func_call` after the futures have been waited for. -/
def conclude (req_id : Int64) (start_time : ℕ) (jobs : List ℕ) : Call Int32 := do
  if ← allSucceed jobs then
    let end_time ← perform .clock
    perform (.print (report req_id (end_time - start_time : Int)))
    perform (.append message)
    releaseJobs jobs
    return 0
  else
    releaseJobs jobs
    return -1

/-- `faas_func_call` after the request has been parsed. -/
def fanOut (req_id fanout_num : Int64) : Call Int32 := do
  let start_time ← perform .clock
  let (jobs, results) ← enqueueJobs fanout_num.toInt.toNat 0 [] []
  getResults results
  conclude req_id start_time jobs

/-- `faas_func_call`. -/
def faasFuncCall {Doc : Type} (json : JsonLib Doc) (input : Bytes) : Call Int32 := do
  match ← Prog.ofExcept (parseRequest json input) with
  | none => return -1
  | some (req_id, fanout_num) => fanOut req_id fanout_num

/-! ## Runs -/

/-- `new ThreadPool(80)`. -/
abbrev WorkerPool := Pool (Fin 80) ℕ Op Op.Res Exn Int32

section Runs

variable {ι Doc : Type}

/-- Requests `ι` on one pool. -/
abbrev System (ι : Type) :=
  Config ι (PoolOp ℕ Op) (PoolOp.Res Op.Res Exn Int32) Exn Int32 (Heap × WorkerPool)

/-- All calls are about to begin, with one thread pool for them all. -/
def System.initial (json : JsonLib Doc) (input : ι → Bytes) : System ι :=
  Config.initial (Heap.empty, Pool.initial) fun q => faasFuncCall json (input q)

variable [DecidableEq ι]

/-- One step of a request or of a worker. -/
def System.step (var : Option Bytes) :
    System ι → Label ι Choice (PoolMove (Fin 80) Choice Empty) → Option (System ι) :=
  Config.step (machine.withPool (invoke var))

/-- The states of all calls, the pool and the heap that some interleaving leads to. -/
def Reachable (json : JsonLib Doc) (var : Option Bytes) (input : ι → Bytes) (c : System ι) : Prop :=
  Reach (System.step var) (fun _ _ => True) (.initial json input) c

/-- A job that has been handed to the pool. -/
structure Task where
  job : ℕ
  future : ℕ
  deriving DecidableEq

/-- The task that an operation of a request created. -/
def enqueued : ((o : PoolOp ℕ Op) × o.Res Op.Res Exn Int32) → Option Task
  | ⟨.enqueue job, some future⟩ => some ⟨job, future⟩
  | _ => none

/-- The output that an operation of a request appended. -/
def appended : ((o : PoolOp ℕ Op) × o.Res Op.Res Exn Int32) → Option Bytes
  | ⟨.base (.append output), _⟩ => some output
  | _ => none

/-- The tasks of request `q`, in the order of its rounds. -/
def System.tasksOf (c : System ι) (q : ι) : List Task := (Config.answers q c.trace).filterMap enqueued

/-- What request `q` has appended to its output. -/
def System.outputOf (c : System ι) (q : ι) : List Bytes :=
  (Config.answers q c.trace).filterMap appended

/-- An invocation with its return code. -/
structure Invocation where
  func_name : Bytes
  payload : Bytes
  ret : Int32
  deriving DecidableEq

/-- The invocation that an event is, if it is one. -/
def invocation : ((o : Op) × o.Res) → Option Invocation
  | ⟨.invoke func_name payload _, ret⟩ => some ⟨func_name, payload, ret⟩
  | _ => none

/-- The invocations that workers have made for request `q`. -/
def System.invocationsOf (c : System ι) (q : ι) : List Invocation :=
  c.shared.2.log.filterMap fun x =>
    if x.1 ∈ (c.tasksOf q).map Task.future then invocation x.2 else none

end Runs

end FanOut
