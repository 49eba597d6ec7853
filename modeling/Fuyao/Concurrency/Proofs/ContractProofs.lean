import Fuyao.Concurrency.Contract
import Fuyao.Concurrency.Proofs.ProgProofs

/-!
# Proofs: contracts

The rules for programs that are put together, and what a contract that both sides keep gives for every
run.
-/

namespace Concurrency

namespace Contract

variable {Op : Type} {Res : Op → Type} {ε α β σ Choice Env : Type} {C : Contract Op Res}

theorem Meets.mono {p : Prog Op Res ε α} {Q Q' : List ((o : Op) × Res o) → Except ε α → Prop}
    (h : C.Meets p Q) (hQ : ∀ es out, Q es out → Q' es out) : C.Meets p Q' := by
  induction p generalizing Q Q' with
  | ret a => exact hQ _ _ h
  | raise e => exact hQ _ _ h
  | op o k ih => exact ⟨h.1, fun r hr => ih r (h.2 r hr) fun es out => hQ _ _⟩

/-- A sequence: the second part starts with what the first one has done. -/
theorem Meets.bind {p : Prog Op Res ε α} {f : α → Prog Op Res ε β}
    {P : List ((o : Op) × Res o) → Except ε α → Prop}
    {Q : List ((o : Op) × Res o) → Except ε β → Prop} (hp : C.Meets p P)
    (hf : ∀ es a, P es (.ok a) → C.Meets (f a) fun es' out => Q (es ++ es') out)
    (he : ∀ es e, P es (.error e) → Q es (.error e)) : C.Meets (p >>= f) Q := by
  induction p generalizing P Q with
  | ret a => exact hf [] a hp
  | raise e => exact he [] e hp
  | op o k ih =>
    exact ⟨hp.1, fun r hr => ih r (hp.2 r hr) (fun es a => hf (⟨o, r⟩ :: es) a)
      fun es e => he (⟨o, r⟩ :: es) e⟩

theorem meets_ofExcept {x : Except ε α} {f : α → Prog Op Res ε β}
    {Q : List ((o : Op) × Res o) → Except ε β → Prop} (hok : ∀ a, x = .ok a → C.Meets (f a) Q)
    (herr : ∀ e, x = .error e → Q [] (.error e)) : C.Meets (Prog.ofExcept x >>= f) Q := by
  cases x with
  | ok a => exact hok a rfl
  | error e => exact herr e rfl

/-- In every run of programs that meet the contract, on a machine that keeps it, only agreed operations
are performed and only agreed answers are given, and every program does what it does on its own. -/
theorem KeptBy.sound {ι : Type} [DecidableEq ι] {M : Machine Op Res σ Choice Env} {I : σ → Prop}
    (hM : C.KeptBy M I) {s₀ : σ} (h0 : I s₀) {p : ι → Prog Op Res ε α}
    {Q : ι → List ((o : Op) × Res o) → Except ε α → Prop} (hp : ∀ i, C.Meets (p i) (Q i))
    {adm : Config ι Op Res ε α σ → Label ι Choice Env → Prop} {c : Config ι Op Res ε α σ}
    (h : Reach (Config.step M) adm (Config.initial s₀ p) c) :
    I c.shared ∧ (∀ e ∈ c.trace, C.asks e.op ∧ C.gets e.op e.res) ∧
      ∀ i, C.Meets (c.threads i) fun es out => Q i (Config.answers i c.trace ++ es) out := by
  induction h with
  | init => exact ⟨h0, by simp [Config.initial], hp⟩
  | @step c c' l _ _ hst ih =>
    obtain ⟨hI, htrace, hthreads⟩ := ih
    cases l with
    | run i ch =>
      obtain ⟨o, k, r, s', ho, hex, rfl⟩ := step_run_cases hst
      have hi := hthreads i
      rw [ho] at hi
      obtain ⟨hask, hgo⟩ := hi
      obtain ⟨hget, hI'⟩ := hM.exec hask hI hex
      refine ⟨hI', ?_, fun j => ?_⟩
      · intro e he
        rcases List.mem_append.mp he with he | he
        · exact htrace e he
        · obtain rfl := List.mem_singleton.mp he
          exact ⟨hask, hget⟩
      · by_cases hj : j = i
        · subst hj
          simpa [Config.perform, Config.answers] using hgo r hget
        · simpa [Config.perform, Config.answers, Function.update_of_ne hj, Ne.symm hj] using hthreads j
    | env e =>
      obtain ⟨s', he, rfl⟩ := step_env_cases hst
      exact ⟨hM.env hI he, htrace, hthreads⟩

/-- What a program that has ended has done. -/
theorem KeptBy.ended {ι : Type} [DecidableEq ι] {M : Machine Op Res σ Choice Env} {I : σ → Prop}
    (hM : C.KeptBy M I) {s₀ : σ} (h0 : I s₀) {p : ι → Prog Op Res ε α}
    {Q : ι → List ((o : Op) × Res o) → Except ε α → Prop} (hp : ∀ i, C.Meets (p i) (Q i))
    {adm : Config ι Op Res ε α σ → Label ι Choice Env → Prop} {c : Config ι Op Res ε α σ}
    (h : Reach (Config.step M) adm (Config.initial s₀ p) c) {i : ι} {out : Except ε α}
    (hout : (c.threads i).outcome = some out) : Q i (Config.answers i c.trace) out := by
  have hi := (hM.sound h0 hp h).2.2 i
  generalize c.threads i = q at hi hout
  cases q with
  | ret a =>
    obtain rfl : Except.ok a = out := Option.some.inj hout
    simpa [Meets] using hi
  | raise e =>
    obtain rfl : Except.error e = out := Option.some.inj hout
    simpa [Meets] using hi
  | op o k => cases hout

end Contract

end Concurrency
