import Fuyao.FanOut.FanOut

/-!
# The phases of a call

A call of `faas_func_call` goes through phases, each of which is about to perform one operation. A phase
knows the tasks created so far; `Phase.Step` says what an operation and its answer make of it, and
`Phase.resume` which part of the program is left.
-/

namespace FanOut

open Cpp Concurrency

/-- Where a call is. -/
inductive Phase where
  /-- The clock is read. -/
  | starting
  /-- A round begins; the earlier ones created `ts`. -/
  | making (ts : List Task)
  | enqueuing (ts : List Task) (job : ℕ)
  /-- The futures of `got` have been waited for, and that of `t` is next. -/
  | waiting (got : List Task) (t : Task) (rest : List Task)
  /-- The jobs of `passed` had succeeded, and that of `t` is next. -/
  | checking (passed : List Task) (t : Task) (rest : List Task)
  | stamping (ts : List Task)
  | printing (ts : List Task) (text : Bytes)
  | appending (ts : List Task)
  /-- The call returns `code`; the job of `t` is destroyed next. -/
  | releasing (freed : List Task) (t : Task) (rest : List Task) (code : Int32)
  | ended (ts : List Task) (code : Int32)
  /-- The counter overflowed. -/
  | aborted (ts : List Task)
  /-- The request was not one for audits. -/
  | rejected

namespace Phase

/-- The phase when the jobs of `freed` have been released. -/
def free (freed rest : List Task) (code : Int32) : Phase :=
  match rest with
  | [] => .ended freed code
  | t :: rest => .releasing freed t rest code

/-- The phase when the jobs of `passed` had succeeded. -/
def check (passed rest : List Task) : Phase :=
  match rest with
  | [] => .stamping passed
  | t :: rest => .checking passed t rest

/-- The phase when the futures of `got` have been waited for. -/
def wait (got rest : List Task) : Phase :=
  match rest with
  | [] => check [] got
  | t :: rest => .waiting got t rest

/-- The phase between two of `n` rounds. -/
def round (n : ℕ) (ts : List Task) : Phase :=
  if n ≤ ts.length then wait [] ts
  else if ts.length = 2 ^ 31 - 1 then .aborted ts
  else .making ts

/-- What an operation with its answer does to the phase of a call for `n` functions. -/
inductive Step (n : ℕ) : Phase → ((o : PoolOp ℕ Op) × o.Res Op.Res Exn Int32) → Phase → Prop where
  | start (time : ℕ) : Step n .starting ⟨.base .clock, time⟩ (round n [])
  | make (ts : List Task) (job : ℕ) :
      Step n (.making ts) ⟨.base (.makeJob (auditName ts.length)), job⟩ (.enqueuing ts job)
  | enqueue (ts : List Task) (job future : ℕ) :
      Step n (.enqueuing ts job) ⟨.enqueue job, some future⟩ (round n (ts ++ [⟨job, future⟩]))
  | get (got : List Task) (t : Task) (rest : List Task) (code : Int32) :
      Step n (.waiting got t rest) ⟨.get t.future, .ok code⟩ (wait (got ++ [t]) rest)
  | pass (passed : List Task) (t : Task) (rest : List Task) :
      Step n (.checking passed t rest) ⟨.base (.succeed t.job), true⟩ (check (passed ++ [t]) rest)
  | fail (passed : List Task) (t : Task) (rest : List Task) :
      Step n (.checking passed t rest) ⟨.base (.succeed t.job), false⟩
        (free [] (passed ++ t :: rest) (-1))
  | stamp (ts : List Task) (time : ℕ) (text : Bytes) :
      Step n (.stamping ts) ⟨.base .clock, time⟩ (.printing ts text)
  | print (ts : List Task) (text : Bytes) :
      Step n (.printing ts text) ⟨.base (.print text), ()⟩ (.appending ts)
  | append (ts : List Task) :
      Step n (.appending ts) ⟨.base (.append message), ()⟩ (free [] ts 0)
  | release (freed : List Task) (t : Task) (rest : List Task) (code : Int32) :
      Step n (.releasing freed t rest code) ⟨.base (.release t.job), ()⟩ (free (freed ++ [t]) rest code)

/-- The tasks created so far. -/
def tasks : Phase → List Task
  | starting | rejected => []
  | making ts | enqueuing ts _ | stamping ts | printing ts _ | appending ts | ended ts _ | aborted ts =>
    ts
  | waiting done t rest | checking done t rest | releasing done t rest _ => done ++ t :: rest

/-- The jobs that the call has constructed and not destroyed. -/
def live : Phase → List ℕ
  | enqueuing ts job => ts.map Task.job ++ [job]
  | releasing _ t rest _ => (t :: rest).map Task.job
  | ended _ _ => []
  | ph => ph.tasks.map Task.job

/-- What the call has appended to its output. -/
def output : Phase → List Bytes
  | releasing _ _ _ code | ended _ code => if code = 0 then [message] else []
  | _ => []

/-- The number of tasks fits the phase of a call with `n` rounds. -/
def Fits (n : ℕ) : Phase → Prop
  | starting => True
  | making ts | enqueuing ts _ => ts.length < n ∧ ts.length ≠ 2 ^ 31 - 1
  | aborted ts => ts.length < n ∧ ts.length = 2 ^ 31 - 1
  | rejected => False
  | ph => ph.tasks.length = n

/-! ## The program that is left -/

/-- `faas_func_call` after the jobs have been checked. -/
def close (req_id : Int64) (start_time : ℕ) (jobs : List ℕ) (succeeded : Bool) : Call Int32 :=
  if succeeded then do
    let end_time ← perform .clock
    perform (.print (report req_id (end_time - start_time : Int)))
    perform (.append message)
    releaseJobs jobs
    return 0
  else do
    releaseJobs jobs
    return -1

/-- `faas_func_call` after the jobs have been started. -/
def join (req_id : Int64) (start_time : ℕ) (x : List ℕ × List ℕ) : Call Int32 := do
  getResults x.2
  conclude req_id start_time x.1

/-- What is left of a call with `n` rounds that started at `start_time`. -/
def resume (req_id : Int64) (n start_time : ℕ) : Phase → Call Int32
  | starting => do join req_id (← perform .clock) (← enqueueJobs n 0 [] [])
  | making ts => do
    join req_id start_time
      (← enqueueJobs (n - ts.length) ts.length (ts.map Task.job) (ts.map Task.future))
  | enqueuing ts job => do
    let future ← enqueue (ts.map Task.job ++ [job]) job
    join req_id start_time (← enqueueJobs (n - ts.length - 1) (ts.length + 1)
      (ts.map Task.job ++ [job]) (ts.map Task.future ++ [future]))
  | waiting got t rest =>
    join req_id start_time ((got ++ t :: rest).map Task.job, (t :: rest).map Task.future)
  | checking passed t rest => do
    close req_id start_time ((passed ++ t :: rest).map Task.job)
      (← allSucceed ((t :: rest).map Task.job))
  | stamping ts => close req_id start_time (ts.map Task.job) true
  | printing ts text => do
    perform (.print text)
    perform (.append message)
    releaseJobs (ts.map Task.job)
    return 0
  | appending ts => do
    perform (.append message)
    releaseJobs (ts.map Task.job)
    return 0
  | releasing _ t rest code => do
    releaseJobs ((t :: rest).map Task.job)
    return code
  | ended _ code => return code
  | aborted _ => .raise .overflow
  | rejected => return -1

/-- The program that is left of a call on the given input, in the given phase. -/
def Runs {Doc : Type} (json : JsonLib Doc) (input : Bytes) (ph : Phase) (p : Call Int32) : Prop :=
  match parseRequest json input with
  | .error e => ph = .rejected ∧ p = .raise e
  | .ok none => ph = .rejected ∧ p = .ret (-1)
  | .ok (some (req_id, fanout_num)) =>
    ph.Fits fanout_num.toInt.toNat ∧
      ∃ start_time, p = ph.resume req_id fanout_num.toInt.toNat start_time

end Phase

end FanOut
