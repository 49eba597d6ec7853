import Fuyao.Concurrency.Prog

/-!
# Contracts between programs and a machine

A contract says what a program may ask for and what it may rely on in the answers. A program that meets
it asks for nothing else as long as the answers are as agreed; a machine that keeps it gives such
answers as long as nobody asks for anything else. Then the programs can be looked at one by one: what
each of them does on its own, it does in every interleaving.
-/

namespace Concurrency

variable {Op : Type} {Res : Op → Type} {ε α σ Choice Env : Type}

/-- What a program may ask of its operations, and what it may rely on in their answers. -/
structure Contract (Op : Type) (Res : Op → Type) where
  /-- What a program may ask for. -/
  asks : Op → Prop
  /-- What a program may rely on. -/
  gets : (o : Op) → Res o → Prop

namespace Contract

variable (C : Contract Op Res)

/-- The program meets its side of the contract, and when it ends, the operations it has performed and its
outcome satisfy `Q`. -/
def Meets : Prog Op Res ε α → (List ((o : Op) × Res o) → Except ε α → Prop) → Prop
  | .ret a, Q => Q [] (.ok a)
  | .raise e, Q => Q [] (.error e)
  | .op o k, Q => C.asks o ∧ ∀ r, C.gets o r → Meets (k r) fun es out => Q (⟨o, r⟩ :: es) out

/-- The machine keeps its side of the contract in the states that satisfy `I`, and these are not left. -/
structure KeptBy (M : Machine Op Res σ Choice Env) (I : σ → Prop) : Prop where
  exec {o : Op} {ch : Choice} {s s' : σ} {r : Res o} (ho : C.asks o) (hs : I s)
    (h : M.exec o ch s = some (r, s')) : C.gets o r ∧ I s'
  env {e : Env} {s s' : σ} (hs : I s) (h : M.env e s = some s') : I s'

end Contract

end Concurrency
