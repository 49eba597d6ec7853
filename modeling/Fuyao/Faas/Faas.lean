import Fuyao.Concurrency.Prog
import Fuyao.Cpp.Strings

/-!
# Functions of a serverless platform

The body of a function is a program over what its runtime offers: to invoke another function, to look
at the output an invocation has left, to append to its own output, to read the clock and to allocate
memory. `Func` names the functions.

There are two ways to look at such a program. `Prog.Path` lets every answer be arbitrary; the second
half of this file says on paths what it means to treat the output of a failed invocation properly.
`call` is a runtime: it delivers the payload of an invocation unchanged to one execution of the invoked
function and hands back its return code and what it appended. It keeps a log of all executions, and it
gives up when invocations are nested more deeply than its fuel.
-/

namespace Faas

open Cpp Concurrency

section Syntax

variable (Func : Type)

/-- What the runtime offers to a function. -/
inductive Op where
  /-- An invocation, answered by its return code. -/
  | invoke (f : Func) (payload : Bytes)
  /-- A look at the output of the `k`-th invocation of this execution. -/
  | output (k : ℕ)
  | append (s : Bytes)
  | clock
  /-- Memory of the given size, with whatever it contains. -/
  | alloc (size : ℕ)
  /-- Memory for a message to `f`. The runtime may change the size. -/
  | allocFor (f : Func) (size : ℕ)

variable {Func} in
/-- The answers of the operations; `none` is a null pointer. -/
@[reducible] def Op.Res : Op Func → Type
  | .invoke _ _ => Int32
  | .output _ => Bytes
  | .append _ => Unit
  | .clock => Int64
  | .alloc _ => Option Bytes
  | .allocFor _ _ => Option Bytes

/-- The body of a function on some input returns a code or ends by an exception: it is a
`Body Func Int32`. -/
abbrev Body (Func : Type) := Prog (Op Func) Op.Res Exn

/-- The program that performs one operation. -/
def ask {Func : Type} (o : Op Func) : Body Func o.Res := Prog.call o

end Syntax

/-! ## A runtime -/

section Runtime

/-- What the runtime finds outside: the readings of the clock in their order, and memory. -/
structure Host (Func : Type) where
  clock : ℕ → Int64
  alloc : ℕ → Option Bytes
  allocFor : Func → ℕ → Option Bytes
  length_alloc : ∀ n s, alloc n = some s → s.length = n

/-- An execution begins with its input, or ends with its code and its output. -/
inductive LogEntry (Func : Type) where
  | start (f : Func) (input : Bytes)
  | finish (f : Func) (code : Int32) (output : Bytes)
  deriving DecidableEq

/-- The state of the platform: how often the clock has been read, and the executions so far. -/
structure Site (Func : Type) where
  ticks : ℕ
  log : List (LogEntry Func)

/-- The state of one execution: the outputs its invocations have left, and its own output. -/
structure Frame where
  outputs : List Bytes
  appended : Bytes

/-- An execution that has not done anything. -/
def Frame.empty : Frame := ⟨[], []⟩

variable {Func : Type}

/-- The platform before the first execution. -/
def Site.initial : Site Func := ⟨0, []⟩

/-- The log gets an entry. -/
def Site.note (s : Site Func) (e : LogEntry Func) : Site Func := { s with log := s.log ++ [e] }

/-- What an invocation leaves: its return code, its output and the state of the platform. -/
structure Response (Func : Type) where
  code : Int32
  output : Bytes
  site : Site Func

/-- How an execution ends. -/
structure Ending (Func : Type) where
  outcome : Except Exn Int32
  frame : Frame
  site : Site Func

/-- The return code an invocation reports: a function that ends by an exception has failed. -/
def returnCode : Except Exn Int32 → Int32
  | .ok code => code
  | .error _ => -1

/-- Run a body, where `invoked` runs the functions it invokes. -/
def interp (host : Host Func) (invoked : Func → Bytes → Site Func → Option (Response Func)) :
    Body Func Int32 → Frame → Site Func → Option (Ending Func)
  | .ret code, fr, s => some ⟨.ok code, fr, s⟩
  | .raise e, fr, s => some ⟨.error e, fr, s⟩
  | .op (.invoke f payload) k, fr, s =>
    (invoked f payload s).bind fun r =>
      interp host invoked (k r.code) { fr with outputs := fr.outputs ++ [r.output] } r.site
  | .op (.output i) k, fr, s => interp host invoked (k (fr.outputs.getD i [])) fr s
  | .op (.append out) k, fr, s =>
    interp host invoked (k ()) { fr with appended := fr.appended ++ out } s
  | .op .clock k, fr, s => interp host invoked (k (host.clock s.ticks)) fr { s with ticks := s.ticks + 1 }
  | .op (.alloc size) k, fr, s => interp host invoked (k (host.alloc size)) fr s
  | .op (.allocFor f size) k, fr, s => interp host invoked (k (host.allocFor f size)) fr s

/-- One execution of `f`, with at most `fuel` executions nested in each other. -/
def call (host : Host Func) (body : Func → Bytes → Body Func Int32) :
    ℕ → Func → Bytes → Site Func → Option (Response Func)
  | 0, _, _, _ => none
  | fuel + 1, f, input, s =>
    (interp host (call host body fuel) (body f input) .empty (s.note (.start f input))).map fun e =>
      let code := returnCode e.outcome
      ⟨code, e.frame.appended, e.site.note (.finish f code e.frame.appended)⟩

end Runtime

/-! ## Failed invocations -/

section Failures

variable {Func : Type}

/-- The operation is an invocation. -/
def Op.isInvoke : Op Func → Bool
  | .invoke _ _ => true
  | _ => false

/-- The operation looks at the output of an invocation. -/
def Op.isOutput : Op Func → Bool
  | .output _ => true
  | _ => false

/-- The operation appends to the output. -/
def Op.isAppend : Op Func → Bool
  | .append _ => true
  | _ => false

/-- The operation has nothing to do with other functions. -/
def Op.Quiet (o : Op Func) : Prop := o.isInvoke = false ∧ o.isOutput = false

/-- The return code of an invocation. -/
def codeOf : (o : Op Func) × o.Res → Option Int32
  | ⟨.invoke _ _, code⟩ => some code
  | _ => none

/-- The return codes of the invocations on a path, in their order. -/
def codes (es : List ((o : Op Func) × o.Res)) : List Int32 := es.filterMap codeOf

/-- Only outputs of invocations that have returned 0 are looked at. -/
def ReadsDefined (es : List ((o : Op Func) × o.Res)) : Prop :=
  ∀ before k out rest, es = before ++ ⟨.output k, out⟩ :: rest → (codes before)[k]? = some 0

/-- The output of a failed invocation is not used: nobody looks at it, and the execution returns a code
other than 0 and appends nothing. -/
def FailuresContained (es : List ((o : Op Func) × o.Res)) (out : Except Exn Int32) : Prop :=
  ReadsDefined es ∧ ((∃ code ∈ codes es, code ≠ 0) →
    (∃ code, out = .ok code ∧ code ≠ 0) ∧ ∀ e ∈ es, e.1.isAppend = false)

end Failures

end Faas
