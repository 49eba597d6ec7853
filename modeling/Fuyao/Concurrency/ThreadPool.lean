import Fuyao.Concurrency.Prog

/-!
# A pool of worker threads

Programs hand tasks to a pool and receive a future for each of them. A task is an argument of type `τ`
for the one function `body` that the workers execute. The pool keeps the tasks in a queue, first in
first out; an idle worker takes the front of the queue, performs the operations of the task one by one
in any interleaving with everything else, and then sets the future. A program that asks for the result
of a future blocks until it is set.

`Machine.withPool` adds the pool to a machine. The workers move on their own, so their moves are moves
of the surroundings of the programs that use the pool. The pool logs the operations its workers
perform, each with the future of the task it belongs to.
-/

namespace Concurrency

/-- What a worker thread is doing. -/
inductive Worker (Op : Type) (Res : Op → Type) (ε β : Type) where
  | idle
  /-- Inside the task of the future `f`, with `p` left to do. -/
  | running (f : ℕ) (p : Prog Op Res ε β)
  /-- The worker found the pool stopped and its queue empty. -/
  | exited

/-- A pool with workers `W`. -/
structure Pool (W τ Op : Type) (Res : Op → Type) (ε β : Type) where
  tasks : List (ℕ × τ)
  worker : W → Worker Op Res ε β
  /-- The futures below this one have been handed out. -/
  next : ℕ
  /-- How the task of a future ended, once it has. -/
  results : ℕ → Option (Except ε β)
  stop : Bool
  log : List (ℕ × ((o : Op) × Res o))

/-- The operations of a program that uses a pool. -/
inductive PoolOp (τ Op : Type) where
  | base (o : Op)
  /-- Hand over a task; the answer is its future, or `none` if the pool has been stopped. -/
  | enqueue (arg : τ)
  /-- The result of a future. -/
  | get (f : ℕ)

/-- The answers of the operations. `enqueue` on a stopped pool throws, and `get` rethrows. -/
@[reducible]
def PoolOp.Res {τ Op : Type} (Res : Op → Type) (ε β : Type) : PoolOp τ Op → Type
  | .base o => Res o
  | .enqueue _ => Option ℕ
  | .get _ => Except ε β

/-- The moves of the workers, and those of the surroundings of the machine without the pool. -/
inductive PoolMove (W Choice Env : Type) where
  | take (w : W)
  | work (w : W) (ch : Choice)
  | finish (w : W)
  | env (e : Env)

namespace Pool

variable {W τ Op : Type} {Res : Op → Type} {ε β σ Choice Env : Type}

/-- A pool without tasks whose workers are idle. -/
def initial : Pool W τ Op Res ε β := ⟨[], fun _ => .idle, 0, fun _ => none, false, []⟩

/-- The operations performed for the future `f`, with their answers. -/
def answers (f : ℕ) (log : List (ℕ × ((o : Op) × Res o))) : List ((o : Op) × Res o) :=
  log.filterMap fun x => if x.1 = f then some x.2 else none

/-- The pool after one more task has been queued. -/
def push (pool : Pool W τ Op Res ε β) (arg : τ) : Pool W τ Op Res ε β :=
  { pool with tasks := pool.tasks ++ [(pool.next, arg)], next := pool.next + 1 }

/-- The pool after the answer `r` to the operation `o` of the task of `f` has been logged. -/
def record (pool : Pool W τ Op Res ε β) (f : ℕ) (o : Op) (r : Res o) : Pool W τ Op Res ε β :=
  { pool with log := pool.log ++ [(f, ⟨o, r⟩)] }

variable [DecidableEq W]

/-- A worker changes. -/
def setWorker (pool : Pool W τ Op Res ε β) (w : W) (x : Worker Op Res ε β) : Pool W τ Op Res ε β :=
  { pool with worker := Function.update pool.worker w x }

/-- An idle worker takes the front of the queue; it waits while there is none. -/
def take (body : τ → Prog Op Res ε β) (w : W) (pool : Pool W τ Op Res ε β) :
    Option (Pool W τ Op Res ε β) :=
  match pool.worker w with
  | .idle =>
    match pool.tasks with
    | (f, arg) :: tasks => some ({ pool with tasks := tasks }.setWorker w (.running f (body arg)))
    | [] => if pool.stop then some (pool.setWorker w .exited) else none
  | _ => none

/-- A worker performs the next operation of its task. -/
def work (M : Machine Op Res σ Choice Env) (w : W) (ch : Choice) (s : σ)
    (pool : Pool W τ Op Res ε β) : Option (σ × Pool W τ Op Res ε β) :=
  match pool.worker w with
  | .running f (.op o k) =>
    (M.exec o ch s).map fun x => (x.2, (pool.record f o x.1).setWorker w (.running f (k x.1)))
  | _ => none

/-- A worker whose task has ended sets the future. -/
def finish (w : W) (pool : Pool W τ Op Res ε β) : Option (Pool W τ Op Res ε β) :=
  match pool.worker w with
  | .running f p => p.outcome.map fun out =>
      { pool with results := Function.update pool.results f (some out) }.setWorker w .idle
  | _ => none

end Pool

/-- The machine `M` with a pool whose workers execute `body`. -/
def Machine.withPool {W τ Op : Type} {Res : Op → Type} {ε β σ Choice Env : Type} [DecidableEq W]
    (M : Machine Op Res σ Choice Env) (body : τ → Prog Op Res ε β) :
    Machine (PoolOp τ Op) (PoolOp.Res Res ε β) (σ × Pool W τ Op Res ε β) Choice
      (PoolMove W Choice Env) where
  exec
    | .base o, ch, (s, pool) => (M.exec o ch s).map fun x => (x.1, x.2, pool)
    | .enqueue arg, _, (s, pool) =>
      if pool.stop then some (none, s, pool) else some (some pool.next, s, pool.push arg)
    | .get f, _, (s, pool) => (pool.results f).map fun out => (out, s, pool)
  env
    | .take w, (s, pool) => (pool.take body w).map fun pool' => (s, pool')
    | .work w ch, (s, pool) => pool.work M w ch s
    | .finish w, (s, pool) => (pool.finish w).map fun pool' => (s, pool')
    | .env e, (s, pool) => (M.env e s).map fun s' => (s', pool)

/-- The program needs at most `n` units, where the operation `o` takes `cost o` of them, and every value
it returns satisfies `Q`. -/
def Prog.Within {Op : Type} {Res : Op → Type} {ε α : Type} (cost : Op → ℕ) (Q : α → Prop) :
    Prog Op Res ε α → ℕ → Prop
  | .ret a, _ => Q a
  | .raise _, _ => True
  | .op o k, n => ∃ m, cost o + m ≤ n ∧ ∀ r, (k r).Within cost Q m

end Concurrency
