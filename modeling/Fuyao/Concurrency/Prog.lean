import Mathlib.Logic.Function.Basic
import Mathlib.Data.List.Basic

/-!
# Programs over atomic operations, and their interleavings

A sequential program is a tree: it has returned a value, it has ended by an exception, or it asks
for one atomic operation and continues with the answer. Nothing else is assumed about what an
operation is; a `Machine` says how each of them acts on the state the threads share.

A configuration is the shared state, one program for each thread and the history of the operations
performed so far. A label chooses which thread moves and how the choice the machine leaves open is
resolved (a failure, a value read from outside), or lets the surroundings change the shared state on
their own. The index type of the threads is arbitrary, so nothing bounds their number.
-/

namespace Concurrency

/-! ## Transition systems -/

section Lts

variable {S L : Type}

/-- The states reached from `s₀` by steps that were admissible in the state they were taken from. -/
inductive Reach (step : S → L → Option S) (adm : S → L → Prop) (s₀ : S) : S → Prop where
  | init : Reach step adm s₀ s₀
  | step {s s' : S} {l : L} (h : Reach step adm s₀ s) (ha : adm s l) (hs : step s l = some s') :
      Reach step adm s₀ s'

/-- The state after a list of labels, if every one of them is enabled. -/
def runLabels (step : S → L → Option S) : List L → S → Option S
  | [], s => some s
  | l :: ls, s => (step s l).bind (runLabels step ls)

/-- Every label of the list is admissible in the state it is taken from. -/
def AdmissibleRun (step : S → L → Option S) (adm : S → L → Prop) : List L → S → Prop
  | [], _ => True
  | l :: ls, s => adm s l ∧ ∀ s', step s l = some s' → AdmissibleRun step adm ls s'

/-- The system with a record beside the state, which every step brings up to date and none looks at. -/
def recording {H : Type} (step : S → L → Option S) (record : S → L → H → H) (x : S × H) (l : L) :
    Option (S × H) :=
  (step x.1 l).map fun s' => (s', record x.1 l x.2)

end Lts

/-! ## Programs -/

/-- A program over the operations `Op`, where `o` is answered by a value of `Res o`; it may end by an
exception of type `ε`. -/
inductive Prog (Op : Type) (Res : Op → Type) (ε α : Type) where
  | ret (a : α)
  | raise (e : ε)
  | op (o : Op) (k : Res o → Prog Op Res ε α)

namespace Prog

variable {Op : Type} {Res : Op → Type} {ε α β : Type}

/-- Run `p`, then `f` on its value; an exception of `p` skips `f`. -/
def bind : Prog Op Res ε α → (α → Prog Op Res ε β) → Prog Op Res ε β
  | .ret a, f => f a
  | .raise e, _ => .raise e
  | .op o k, f => .op o fun r => (k r).bind f

instance : Monad (Prog Op Res ε) where
  pure := .ret
  bind := Prog.bind

/-- The program that performs one operation and returns its answer. -/
def call (o : Op) : Prog Op Res ε (Res o) := .op o .ret

/-- The program that goes on with the value of a computation, or raises its exception. -/
def ofExcept : Except ε α → Prog Op Res ε α
  | .ok a => .ret a
  | .error e => .raise e

/-- Run `p` and hand over its exception as a value. -/
def attempt : Prog Op Res ε α → Prog Op Res ε (Except ε α)
  | .ret a => .ret (.ok a)
  | .raise e => .ret (.error e)
  | .op o k => .op o fun r => (k r).attempt

/-- The operation that a program performs next. -/
def head : Prog Op Res ε α → Option Op
  | .op o _ => some o
  | _ => none

/-- How a program has ended, if it has: by a value or by an exception. -/
def outcome : Prog Op Res ε α → Option (Except ε α)
  | .ret a => some (.ok a)
  | .raise e => some (.error e)
  | .op _ _ => none

/-- Whatever the answers, every operation the program asks for satisfies `S`, and every value it
returns satisfies `Q`. -/
def Uses (S : Op → Prop) (Q : α → Prop) : Prog Op Res ε α → Prop
  | .ret a => Q a
  | .raise _ => True
  | .op o k => S o ∧ ∀ r, (k r).Uses S Q

/-- The program may perform exactly the operations of the list, with these answers, and end with
`out`. -/
def Path : Prog Op Res ε α → List ((o : Op) × Res o) → Except ε α → Prop
  | .ret a, es, out => es = [] ∧ out = .ok a
  | .raise e, es, out => es = [] ∧ out = .error e
  | .op o k, es, out => ∃ r es', es = ⟨o, r⟩ :: es' ∧ (k r).Path es' out

/-- After the operations of the list, with these answers, the program `p` has become `q`. -/
inductive After (p : Prog Op Res ε α) : List ((o : Op) × Res o) → Prog Op Res ε α → Prop where
  | nil : After p [] p
  | snoc {es : List ((o : Op) × Res o)} {o : Op} {k : Res o → Prog Op Res ε α}
      (h : After p es (.op o k)) (r : Res o) : After p (es ++ [⟨o, r⟩]) (k r)

end Prog

/-! ## Machines and configurations -/

/-- How the operations act on the shared state `σ`. The choice resolves what the state leaves open;
`none` means that the operation cannot be performed now (it blocks). -/
structure Machine (Op : Type) (Res : Op → Type) (σ Choice Env : Type) where
  exec : (o : Op) → Choice → σ → Option (Res o × σ)
  /-- A change of the shared state that no thread makes. -/
  env : Env → σ → Option σ

/-- One performed operation: who, what, the answer, and the shared state on both sides. -/
structure Event (ι Op : Type) (Res : Op → Type) (σ : Type) where
  thread : ι
  op : Op
  res : Res op
  pre : σ
  post : σ

/-- The shared state, the programs of the threads and the history, oldest event first. -/
structure Config (ι Op : Type) (Res : Op → Type) (ε α σ : Type) where
  shared : σ
  threads : ι → Prog Op Res ε α
  trace : List (Event ι Op Res σ)

/-- Who moves next. -/
inductive Label (ι Choice Env : Type) where
  /-- Thread `i` performs its next operation, with the given choice. -/
  | run (i : ι) (ch : Choice)
  | env (e : Env)

namespace Config

variable {ι Op : Type} {Res : Op → Type} {ε α σ Choice Env : Type} [DecidableEq ι]

/-- The operations of thread `i` in a history, with their answers. -/
def answers (i : ι) (T : List (Event ι Op Res σ)) : List ((o : Op) × Res o) :=
  T.filterMap fun e => if e.thread = i then some ⟨e.op, e.res⟩ else none

/-- The threads before their first steps. -/
def initial (s : σ) (threads : ι → Prog Op Res ε α) : Config ι Op Res ε α σ :=
  ⟨s, threads, []⟩

/-- The configuration after thread `i` got the answer `r` to `o` and continues with `p`. -/
def perform (c : Config ι Op Res ε α σ) (i : ι) (o : Op) (r : Res o) (s' : σ)
    (p : Prog Op Res ε α) : Config ι Op Res ε α σ :=
  ⟨s', Function.update c.threads i p, c.trace ++ [⟨i, o, r, c.shared, s'⟩]⟩

/-- One step of the interleaving semantics. -/
def step (M : Machine Op Res σ Choice Env) (c : Config ι Op Res ε α σ) :
    Label ι Choice Env → Option (Config ι Op Res ε α σ)
  | .run i ch =>
    match c.threads i with
    | .op o k => (M.exec o ch c.shared).map fun x => c.perform i o x.1 x.2 (k x.1)
    | _ => none
  | .env e => (M.env e c.shared).map fun s' => { c with shared := s' }

end Config

end Concurrency
