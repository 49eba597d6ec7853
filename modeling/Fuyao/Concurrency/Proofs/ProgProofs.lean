import Fuyao.Concurrency.Prog
import Mathlib.Algebra.BigOperators.Group.Finset.Piecewise

/-!
# Proofs: reasoning about interleaved programs thread by thread

An argument about interleavings fixes an invariant of the shared state and the history, stated with
the help of a ghost state `A` that the programs do not see, and a part of it (`view i`) that only the
steps of thread `i` may change. The weakest precondition `Logic.wp` of a program asks, for each of its
operations, that the invariant is kept whatever the other threads did before, and that the rest of the
program is again fine in its new view. What a thread learnt from the history stays known, since the
history only grows. `Logic.sound` turns these sequential facts into a fact about every reachable
configuration.
-/

namespace Concurrency

/-- A sum over all threads after the share of one of them has changed. -/
theorem sum_update_add {ι A : Type} [Fintype ι] [DecidableEq ι] [AddCommMonoid A] (f : ι → A) (i : ι)
    (x : A) : ∑ j, Function.update f i x j + f i = ∑ j, f j + x := by
  rw [Finset.sum_update_of_mem (Finset.mem_univ i),
    Finset.sum_eq_add_sum_sdiff_singleton_of_mem (Finset.mem_univ i) f]
  ac_rfl

/-! ## Reachability -/

section Lts

variable {S L : Type} {step : S → L → Option S} {adm adm' : S → L → Prop} {s₀ s : S}

/-- The invariant rule: what holds initially and is kept by every admissible step holds of every
reachable state. -/
theorem Reach.invariant {J : S → Prop} (h : Reach step adm s₀ s) (h0 : J s₀)
    (hs : ∀ s s' l, J s → adm s l → step s l = some s' → J s') : J s := by
  induction h with
  | init => exact h0
  | step _ ha hst ih => exact hs _ _ _ ih ha hst

theorem Reach.mono (h : Reach step adm s₀ s) (hadm : ∀ s l, adm s l → adm' s l) :
    Reach step adm' s₀ s := by
  induction h with
  | init => exact .init
  | step _ ha hst ih => exact .step ih (hadm _ _ ha) hst

theorem Reach.trans {s₁ : S} (h₁ : Reach step adm s₀ s₁) (h₂ : Reach step adm s₁ s) :
    Reach step adm s₀ s := by
  induction h₂ with
  | init => exact h₁
  | step _ ha hst ih => exact .step ih ha hst

theorem reach_of_runLabels (ls : List L) (hadm : AdmissibleRun step adm ls s₀)
    (hrun : runLabels step ls s₀ = some s) : Reach step adm s₀ s := by
  induction ls generalizing s₀ with
  | nil =>
    obtain rfl : s₀ = s := by simpa [runLabels] using hrun
    exact .init
  | cons l ls ih =>
    obtain ⟨ha, hrest⟩ := hadm
    obtain ⟨s₁, hs₁, hrun⟩ := Option.bind_eq_some_iff.mp hrun
    exact Reach.trans (.step .init ha hs₁) (ih (hrest s₁ hs₁) hrun)

/-- Admissibility that only looks at the labels can be checked label by label. -/
theorem admissibleRun_of_labels {P : L → Prop} {ls : List L} (h : ∀ l ∈ ls, P l) :
    AdmissibleRun step (fun _ l => P l) ls s₀ := by
  induction ls generalizing s₀ with
  | nil => trivial
  | cons l ls ih =>
    exact ⟨h l (List.mem_cons_self ..), fun s' _ => ih fun l' hl' => h l' (List.mem_cons_of_mem _ hl')⟩

/-- Whether a list of labels is an admissible run can be computed. -/
instance AdmissibleRun.decidable [∀ s l, Decidable (adm s l)] :
    (ls : List L) → (s : S) → Decidable (AdmissibleRun step adm ls s)
  | [], _ => isTrue trivial
  | l :: ls, s =>
    match hst : step s l with
    | none => decidable_of_iff (adm s l) (by simp [AdmissibleRun, hst])
    | some s' =>
      have := AdmissibleRun.decidable ls s'
      decidable_of_iff (adm s l ∧ AdmissibleRun step adm ls s') (by simp [AdmissibleRun, hst])

section Recording

variable {H : Type} {record : S → L → H → H} {x x' : S × H} {l : L}

theorem recording_cases (h : recording step record x l = some x') :
    step x.1 l = some x'.1 ∧ x'.2 = record x.1 l x.2 := by
  obtain ⟨s', hst, rfl⟩ := Option.map_eq_some_iff.mp h
  exact ⟨hst, rfl⟩

/-- A record restricts no run: with it and without it the same states are reached. -/
theorem reach_recording_iff (x₀ : H) :
    Reach step adm s₀ s ↔ ∃ x, Reach (recording step record) (fun y l => adm y.1 l) (s₀, x₀) (s, x) := by
  constructor
  · intro h
    induction h with
    | init => exact ⟨x₀, .init⟩
    | @step s s' l _ ha hst ih =>
      obtain ⟨x, hx⟩ := ih
      exact ⟨record s l x, .step hx ha (by simp [recording, hst])⟩
  · rintro ⟨x, hx⟩
    refine hx.invariant (J := fun y => Reach step adm s₀ y.1) .init fun y y' l h ha hst => ?_
    exact .step h ha (recording_cases hst).1

end Recording

end Lts

/-! ## Programs -/

namespace Prog

variable {Op : Type} {Res : Op → Type} {ε α β : Type}

@[simp] theorem pure_eq (a : α) : (pure a : Prog Op Res ε α) = .ret a := rfl

@[simp] theorem ret_bind (a : α) (f : α → Prog Op Res ε β) : (Prog.ret a >>= f) = f a := rfl

@[simp] theorem raise_bind (e : ε) (f : α → Prog Op Res ε β) : (Prog.raise e >>= f) = .raise e := rfl

@[simp] theorem op_bind (o : Op) (k : Res o → Prog Op Res ε α) (f : α → Prog Op Res ε β) :
    (Prog.op o k >>= f) = .op o fun r => k r >>= f := rfl

@[simp] theorem call_bind (o : Op) (f : Res o → Prog Op Res ε β) : (call o >>= f) = .op o f := rfl

theorem bind_assoc {γ : Type} (p : Prog Op Res ε α) (f : α → Prog Op Res ε β)
    (g : β → Prog Op Res ε γ) : (p >>= f >>= g) = p >>= fun a => f a >>= g := by
  induction p with
  | ret a => rfl
  | raise e => rfl
  | op o k ih => exact congrArg (Prog.op o) (funext ih)

@[simp] theorem ofExcept_ok (a : α) : (ofExcept (.ok a) : Prog Op Res ε α) = .ret a := rfl

@[simp] theorem ofExcept_error (e : ε) : (ofExcept (.error e) : Prog Op Res ε α) = .raise e := rfl

theorem Uses.mono {S S' : Op → Prop} {Q Q' : α → Prop} {p : Prog Op Res ε α} (h : p.Uses S Q)
    (hS : ∀ o, S o → S' o) (hQ : ∀ a, Q a → Q' a) : p.Uses S' Q' := by
  induction p with
  | ret a => exact hQ a h
  | raise e => trivial
  | op o k ih => exact ⟨hS o h.1, fun r => ih r (h.2 r)⟩

theorem Uses.bind {S : Op → Prop} {Q : α → Prop} {Q' : β → Prop} {p : Prog Op Res ε α}
    {f : α → Prog Op Res ε β} (h : p.Uses S Q) (hf : ∀ a, Q a → (f a).Uses S Q') :
    (p >>= f).Uses S Q' := by
  induction p with
  | ret a => exact hf a h
  | raise e => trivial
  | op o k ih => exact ⟨h.1, fun r => ih r (h.2 r)⟩

theorem Uses.attempt {S : Op → Prop} {Q : α → Prop} {Q' : Except ε α → Prop} {p : Prog Op Res ε α}
    (h : p.Uses S Q) (hok : ∀ a, Q a → Q' (.ok a)) (herr : ∀ e, Q' (.error e)) :
    p.attempt.Uses S Q' := by
  induction p with
  | ret a => exact hok a h
  | raise e => exact herr e
  | op o k ih => exact ⟨h.1, fun r => ih r (h.2 r)⟩

theorem uses_ofExcept {S : Op → Prop} {Q : α → Prop} {x : Except ε α} (h : ∀ a, x = .ok a → Q a) :
    (ofExcept x : Prog Op Res ε α).Uses S Q := by
  cases x with
  | ok a => exact h a rfl
  | error e => trivial

theorem uses_ofExcept_bind {S : Op → Prop} {Q : β → Prop} {x : Except ε α} {f : α → Prog Op Res ε β}
    (h : ∀ a, x = .ok a → (f a).Uses S Q) : (ofExcept x >>= f).Uses S Q :=
  Uses.bind (uses_ofExcept fun _ => id) h

theorem uses_trivial (p : Prog Op Res ε α) : p.Uses (fun _ => True) fun _ => True := by
  induction p with
  | ret a => trivial
  | raise e => trivial
  | op o k ih => exact ⟨trivial, ih⟩

/-! ### Paths -/

/-- A path of a sequence is one of its first part that ends by an exception, or paths of both parts. -/
theorem path_bind {p : Prog Op Res ε α} {f : α → Prog Op Res ε β} {es : List ((o : Op) × Res o)}
    {out : Except ε β} :
    (p >>= f).Path es out ↔ (∃ e, p.Path es (.error e) ∧ out = .error e) ∨
      ∃ a es₁ es₂, es = es₁ ++ es₂ ∧ p.Path es₁ (.ok a) ∧ (f a).Path es₂ out := by
  induction p generalizing es with
  | ret a =>
    constructor
    · intro h
      exact .inr ⟨a, [], es, rfl, ⟨rfl, rfl⟩, h⟩
    · rintro (⟨e, ⟨-, he⟩, -⟩ | ⟨a', es₁, es₂, rfl, ⟨rfl, ha⟩, h⟩)
      · cases he
      · cases ha
        exact h
  | raise e =>
    constructor
    · rintro ⟨rfl, rfl⟩
      exact .inl ⟨e, ⟨rfl, rfl⟩, rfl⟩
    · rintro (⟨e', ⟨rfl, he⟩, rfl⟩ | ⟨a', es₁, es₂, -, ⟨-, ha⟩, -⟩)
      · cases he
        exact ⟨rfl, rfl⟩
      · cases ha
  | op o k ih =>
    constructor
    · rintro ⟨r, es', rfl, h⟩
      rcases (ih r).mp h with ⟨e, hp, rfl⟩ | ⟨a, es₁, es₂, rfl, hp, hf⟩
      · exact .inl ⟨e, ⟨r, es', rfl, hp⟩, rfl⟩
      · exact .inr ⟨a, ⟨o, r⟩ :: es₁, es₂, rfl, ⟨r, es₁, rfl, hp⟩, hf⟩
    · rintro (⟨e, ⟨r, es', rfl, hp⟩, rfl⟩ | ⟨a, es₁, es₂, rfl, ⟨r, es', rfl, hp⟩, hf⟩)
      · exact ⟨r, es', rfl, (ih r).mpr (.inl ⟨e, hp, rfl⟩)⟩
      · exact ⟨r, es' ++ es₂, rfl, (ih r).mpr (.inr ⟨a, es', es₂, rfl, hp, hf⟩)⟩

theorem path_ofExcept {x : Except ε α} {es : List ((o : Op) × Res o)} {out : Except ε α} :
    (ofExcept x : Prog Op Res ε α).Path es out ↔ es = [] ∧ out = x := by
  cases x <;> exact Iff.rfl

/-- The operations on a path are operations that the program uses, and a value it returns is one it may
return. -/
theorem Uses.path {S : Op → Prop} {Q : α → Prop} {p : Prog Op Res ε α} (h : p.Uses S Q)
    {es : List ((o : Op) × Res o)} {out : Except ε α} (hp : p.Path es out) :
    (∀ e ∈ es, S e.1) ∧ ∀ a, out = .ok a → Q a := by
  induction p generalizing es with
  | ret a =>
    obtain ⟨rfl, rfl⟩ := hp
    exact ⟨by simp, by rintro _ ⟨⟩; exact h⟩
  | raise e =>
    obtain ⟨rfl, rfl⟩ := hp
    exact ⟨by simp, by rintro _ ⟨⟩⟩
  | op o k ih =>
    obtain ⟨r, es', rfl, hp⟩ := hp
    obtain ⟨hS, hQ⟩ := ih r (h.2 r) hp
    exact ⟨List.forall_mem_cons.mpr ⟨h.1, hS⟩, hQ⟩

/-- If every operation can be answered, every program has a path. -/
theorem exists_path (hres : ∀ o, Nonempty (Res o)) (p : Prog Op Res ε α) : ∃ es out, p.Path es out := by
  induction p with
  | ret a => exact ⟨[], .ok a, rfl, rfl⟩
  | raise e => exact ⟨[], .error e, rfl, rfl⟩
  | op o k ih =>
    obtain ⟨r⟩ := hres o
    obtain ⟨es, out, hpath⟩ := ih r
    exact ⟨⟨o, r⟩ :: es, out, r, es, rfl, hpath⟩

theorem After.path {p q : Prog Op Res ε α} {es es' : List ((o : Op) × Res o)} {out : Except ε α}
    (h : p.After es q) (hq : q.Path es' out) : p.Path (es ++ es') out := by
  induction h generalizing es' with
  | nil => exact hq
  | snoc _ r ih =>
    rw [List.append_assoc]
    exact ih ⟨r, es', rfl, hq⟩

/-- What an operation becomes: nothing has happened yet, or it has been answered. -/
theorem After.op_cases {o : Op} {k : Res o → Prog Op Res ε α} {es : List ((o : Op) × Res o)}
    {q : Prog Op Res ε α} (h : (Prog.op o k).After es q) :
    (es = [] ∧ q = .op o k) ∨ ∃ r es', es = ⟨o, r⟩ :: es' ∧ (k r).After es' q := by
  induction h with
  | nil => exact .inl ⟨rfl, rfl⟩
  | @snoc es o' k' _ r ih =>
    rcases ih with ⟨rfl, heq⟩ | ⟨r', es', rfl, h⟩
    · cases heq
      exact .inr ⟨r, [], rfl, .nil⟩
    · exact .inr ⟨r', _, rfl, h.snoc r⟩

/-- A program that has returned does not go on. -/
theorem After.ret_cases {a : α} {es : List ((o : Op) × Res o)} {q : Prog Op Res ε α}
    (h : (Prog.ret a).After es q) : es = [] ∧ q = .ret a := by
  induction h with
  | nil => exact ⟨rfl, rfl⟩
  | snoc _ _ ih => cases ih.2

theorem path_of_outcome {p : Prog Op Res ε α} {out : Except ε α} (h : p.outcome = some out) :
    p.Path [] out := by
  cases p with
  | ret a => exact ⟨rfl, (Option.some.inj h).symm⟩
  | raise e => exact ⟨rfl, (Option.some.inj h).symm⟩
  | op o k => cases h

end Prog

/-! ## Steps of a configuration -/

section Config

variable {ι Op : Type} {Res : Op → Type} {ε α σ Choice Env : Type} [DecidableEq ι]
  {M : Machine Op Res σ Choice Env} {c c' : Config ι Op Res ε α σ}

/-- What a step of thread `i` does: it performs the operation its program asks for. -/
theorem step_run_cases {i : ι} {ch : Choice} (h : c.step M (.run i ch) = some c') :
    ∃ o k r s', c.threads i = .op o k ∧ M.exec o ch c.shared = some (r, s') ∧
      c' = c.perform i o r s' (k r) := by
  simp only [Config.step] at h
  split at h
  next o k ho =>
    obtain ⟨⟨r, s'⟩, hex, rfl⟩ := Option.map_eq_some_iff.mp h
    exact ⟨o, k, r, s', ho, hex, rfl⟩
  · cases h

/-- A thread that has not ended moves when its operation can be performed. -/
theorem exists_step_of_unfinished {i : ι} (hout : (c.threads i).outcome = none)
    (hex : ∀ o k, c.threads i = .op o k → ∃ ch r s', M.exec o ch c.shared = some (r, s')) :
    ∃ ch c', c.step M (.run i ch) = some c' := by
  cases hi : c.threads i with
  | ret a =>
    rw [hi] at hout
    cases hout
  | raise e =>
    rw [hi] at hout
    cases hout
  | op o k =>
    obtain ⟨ch, r, s', h⟩ := hex o k hi
    exact ⟨ch, c.perform i o r s' (k r), by simp [Config.step, hi, h]⟩

theorem step_env_cases {e : Env} (h : c.step M (.env e) = some c') :
    ∃ s', M.env e c.shared = some s' ∧ c' = { c with shared := s' } := by
  obtain ⟨s', hs', rfl⟩ := Option.map_eq_some_iff.mp h
  exact ⟨s', hs', rfl⟩

theorem step_trace_prefix {l : Label ι Choice Env} (h : c.step M l = some c') :
    c.trace <+: c'.trace := by
  cases l with
  | run i ch =>
    obtain ⟨o, k, r, s', -, -, rfl⟩ := step_run_cases h
    exact List.prefix_append _ _
  | env e =>
    obtain ⟨s', -, rfl⟩ := step_env_cases h
    exact List.prefix_refl _

/-- Every performed operation is one its thread's program may ask for. -/
theorem trace_uses {adm : Config ι Op Res ε α σ → Label ι Choice Env → Prop} {s₀ : σ}
    {p : ι → Prog Op Res ε α} {S : ι → Op → Prop} {Q : ι → α → Prop}
    (hp : ∀ i, (p i).Uses (S i) (Q i))
    (h : Reach (Config.step M) adm (Config.initial s₀ p) c) :
    ∀ e ∈ c.trace, S e.thread e.op := by
  suffices hall : (∀ i, (c.threads i).Uses (S i) (Q i)) ∧ ∀ e ∈ c.trace, S e.thread e.op from hall.2
  refine h.invariant
    (J := fun c => (∀ i, (c.threads i).Uses (S i) (Q i)) ∧ ∀ e ∈ c.trace, S e.thread e.op)
    ⟨hp, by simp [Config.initial]⟩ ?_
  rintro c c' (⟨i, ch⟩ | e) ⟨hth, htr⟩ - hst
  · obtain ⟨o, k, r, s', ho, -, rfl⟩ := step_run_cases hst
    have hi := hth i
    rw [ho] at hi
    refine ⟨?_, ?_⟩
    · intro j
      by_cases hj : j = i
      · subst hj
        simpa [Config.perform] using hi.2 r
      · simpa [Config.perform, hj] using hth j
    · intro e he
      rcases List.mem_append.mp he with he | he
      · exact htr e he
      · obtain rfl := List.mem_singleton.mp he
        exact hi.1
  · obtain ⟨s', -, rfl⟩ := step_env_cases hst
    exact ⟨hth, htr⟩

theorem forall_mem_answers {P : ((o : Op) × Res o) → Prop} {i : ι} {T : List (Event ι Op Res σ)} :
    (∀ x ∈ Config.answers i T, P x) ↔ ∀ e ∈ T, e.thread = i → P ⟨e.op, e.res⟩ := by
  simp only [Config.answers, List.mem_filterMap]
  constructor
  · intro h e he hi
    exact h _ ⟨e, he, if_pos hi⟩
  · rintro h x ⟨e, he, hx⟩
    split at hx
    next hi =>
      obtain rfl := Option.some.inj hx
      exact h e he hi
    · cases hx

/-- What a thread has become after its operations. -/
theorem after_of_reach {adm : Config ι Op Res ε α σ → Label ι Choice Env → Prop} {s₀ : σ}
    {p : ι → Prog Op Res ε α} (h : Reach (Config.step M) adm (Config.initial s₀ p) c) (i : ι) :
    (p i).After (Config.answers i c.trace) (c.threads i) := by
  induction h with
  | init => exact .nil
  | @step c c' l _ _ hst ih =>
    cases l with
    | run j ch =>
      obtain ⟨o, k, r, s', ho, -, rfl⟩ := step_run_cases hst
      by_cases hj : j = i
      · subst hj
        rw [ho] at ih
        simpa [Config.answers, Config.perform] using ih.snoc r
      · simpa [Config.answers, Config.perform, hj, Function.update_of_ne (Ne.symm hj)] using ih
    | env e =>
      obtain ⟨s', -, rfl⟩ := step_env_cases hst
      exact ih

/-- A thread that has ended has gone through one of the paths of its program. -/
theorem path_of_reach {adm : Config ι Op Res ε α σ → Label ι Choice Env → Prop} {s₀ : σ}
    {p : ι → Prog Op Res ε α} (h : Reach (Config.step M) adm (Config.initial s₀ p) c) {i : ι}
    {out : Except ε α} (hout : (c.threads i).outcome = some out) :
    (p i).Path (Config.answers i c.trace) out := by
  simpa using (after_of_reach h i).path (Prog.path_of_outcome hout)

end Config

/-! ## The logic -/

/-- What an argument about interleaved programs fixes. -/
structure Logic (ι Op : Type) (Res : Op → Type) (ε α σ Choice Env A V : Type) where
  machine : Machine Op Res σ Choice Env
  /-- The steps the runs under consideration may take. -/
  adm : Config ι Op Res ε α σ → Label ι Choice Env → Prop
  /-- The events the runs under consideration may contain. -/
  good : Event ι Op Res σ → Prop
  inv : σ → List (Event ι Op Res σ) → A → Prop
  /-- The part of the ghost state that belongs to a thread. -/
  view : ι → A → V

namespace Logic

variable {ι Op : Type} {Res : Op → Type} {ε α β γ σ Choice Env A V : Type}
  (P : Logic ι Op Res ε α σ Choice Env A V)

/-- The history `T` of the last step of a thread with view `v`: its operation `o`, performed now with
the answer `r`, keeps the invariant, and the thread's new view and history satisfy `K`. -/
def Performs (i : ι) (o : Op) (v : V) (T : List (Event ι Op Res σ))
    (K : Res o → V → List (Event ι Op Res σ) → Prop) : Prop :=
  ∀ (c : Config ι Op Res ε α σ) (a : A) (ch : Choice) (r : Res o) (s' : σ),
    T <+: c.trace → P.inv c.shared c.trace a → P.view i a = v → (c.threads i).head = some o →
    P.adm c (.run i ch) → P.machine.exec o ch c.shared = some (r, s') →
    P.good ⟨i, o, r, c.shared, s'⟩ →
    ∃ a', P.inv s' (c.trace ++ [⟨i, o, r, c.shared, s'⟩]) a' ∧
      (∀ j, j ≠ i → P.view j a' = P.view j a) ∧
      K r (P.view i a') (c.trace ++ [⟨i, o, r, c.shared, s'⟩])

/-- The program `p` of thread `i`, in view `v` and with the history `T` at its last step, keeps the
invariant at each of its operations and ends in the postcondition `Q`. -/
def wp (i : ι) : Prog Op Res ε β → (Except ε β → V → List (Event ι Op Res σ) → Prop) → V →
    List (Event ι Op Res σ) → Prop
  | .ret b, Q, v, T => Q (.ok b) v T
  | .raise e, Q, v, T => Q (.error e) v T
  | .op o k, Q, v, T => P.Performs i o v T fun r v' T' => wp i (k r) Q v' T'

variable {P} {i : ι} {v : V} {T : List (Event ι Op Res σ)}

@[simp] theorem wp_ret {b : β} {Q : Except ε β → V → List (Event ι Op Res σ) → Prop} :
    P.wp i (.ret b) Q v T ↔ Q (.ok b) v T := Iff.rfl

@[simp] theorem wp_raise {e : ε} {Q : Except ε β → V → List (Event ι Op Res σ) → Prop} :
    P.wp i (.raise e) Q v T ↔ Q (.error e) v T := Iff.rfl

theorem wp_outcome {p : Prog Op Res ε β} {Q : Except ε β → V → List (Event ι Op Res σ) → Prop}
    {out : Except ε β} (h : P.wp i p Q v T) (hp : p.outcome = some out) : Q out v T := by
  cases p with
  | ret b =>
    obtain rfl := Option.some.inj hp
    exact h
  | raise e =>
    obtain rfl := Option.some.inj hp
    exact h
  | op o k => cases hp

theorem Performs.mono {o : Op} {K K' : Res o → V → List (Event ι Op Res σ) → Prop}
    (h : P.Performs i o v T K) (hK : ∀ r v' T', T <+: T' → K r v' T' → K' r v' T') :
    P.Performs i o v T K' := by
  intro c a ch r s' hT hinv hv ho hadm hex hg
  obtain ⟨a', hinv', hview, hk⟩ := h c a ch r s' hT hinv hv ho hadm hex hg
  exact ⟨a', hinv', hview, hK _ _ _ (hT.trans (List.prefix_append _ _)) hk⟩

theorem wp_mono {p : Prog Op Res ε β} {Q Q' : Except ε β → V → List (Event ι Op Res σ) → Prop}
    (h : P.wp i p Q v T) (hQ : ∀ out v' T', T <+: T' → Q out v' T' → Q' out v' T') :
    P.wp i p Q' v T := by
  induction p generalizing v T with
  | ret b => exact hQ _ _ _ (List.prefix_refl T) h
  | raise e => exact hQ _ _ _ (List.prefix_refl T) h
  | op o k ih =>
    exact Performs.mono h fun r v' T' hT hk => ih r hk fun out w U hU => hQ out w U (hT.trans hU)

/-- The rule for sequencing. -/
theorem wp_bind {p : Prog Op Res ε β} {f : β → Prog Op Res ε γ}
    {Q : Except ε γ → V → List (Event ι Op Res σ) → Prop}
    (h : P.wp i p (fun out v' T' => match out with
      | .ok b => P.wp i (f b) Q v' T'
      | .error e => Q (.error e) v' T') v T) :
    P.wp i (p >>= f) Q v T := by
  induction p generalizing v T with
  | ret b => exact h
  | raise e => exact h
  | op o k ih => exact Performs.mono h fun r v' T' _ hk => ih r hk

/-- The rule for handing over an exception as a value. -/
theorem wp_attempt {p : Prog Op Res ε β}
    {Q : Except ε (Except ε β) → V → List (Event ι Op Res σ) → Prop}
    (h : P.wp i p (fun out v' T' => Q (.ok out) v' T') v T) : P.wp i p.attempt Q v T := by
  induction p generalizing v T with
  | ret b => exact h
  | raise e => exact h
  | op o k ih => exact Performs.mono h fun r v' T' _ hk => ih r hk

/-- The rule for going on with the value of a computation. -/
theorem wp_ofExcept {x : Except ε β} {f : β → Prog Op Res ε γ}
    {Q : Except ε γ → V → List (Event ι Op Res σ) → Prop}
    (hok : ∀ b, x = .ok b → P.wp i (f b) Q v T) (herror : ∀ e, x = .error e → Q (.error e) v T) :
    P.wp i (Prog.ofExcept x >>= f) Q v T := by
  cases x with
  | ok b => exact hok b rfl
  | error e => exact herror e rfl

variable (P) in
/-- The operation keeps the invariant with the ghost state unchanged, whoever performs it. -/
def Keeps (i : ι) (o : Op) : Prop :=
  ∀ (c : Config ι Op Res ε α σ) (a : A) (ch : Choice) (r : Res o) (s' : σ),
    P.inv c.shared c.trace a → P.machine.exec o ch c.shared = some (r, s') →
    P.inv s' (c.trace ++ [⟨i, o, r, c.shared, s'⟩]) a

/-- An operation that keeps the invariant leaves the view as it is; its event is a good one. -/
theorem Keeps.performs_of_good {o : Op} {K : Res o → V → List (Event ι Op Res σ) → Prop}
    (h : P.Keeps i o)
    (hK : ∀ (c : Config ι Op Res ε α σ) ch r s', P.machine.exec o ch c.shared = some (r, s') →
      P.good ⟨i, o, r, c.shared, s'⟩ → T <+: c.trace →
      K r v (c.trace ++ [⟨i, o, r, c.shared, s'⟩])) : P.Performs i o v T K := by
  intro c a ch r s' hT hinv hv ho hadm hex hg
  refine ⟨a, h c a ch r s' hinv hex, fun j _ => rfl, ?_⟩
  rw [hv]
  exact hK c ch r s' hex hg hT

/-- The same, when nothing about the event matters. -/
theorem Keeps.performs {o : Op} {K : Res o → V → List (Event ι Op Res σ) → Prop} (h : P.Keeps i o)
    (hK : ∀ r T', T <+: T' → K r v T') : P.Performs i o v T K :=
  h.performs_of_good fun _ _ r _ _ _ hT => hK r _ (hT.trans (List.prefix_append _ _))

/-- The frame rule: a program whose operations all keep the invariant leaves its view as it is. -/
theorem wp_of_uses {S : Op → Prop} {Q : β → Prop} {p : Prog Op Res ε β} (hp : p.Uses S Q)
    (hS : ∀ o, S o → P.Keeps i o) :
    P.wp i p (fun out v' _ => v' = v ∧ ∀ b, out = .ok b → Q b) v T := by
  induction p generalizing T with
  | ret b => exact ⟨rfl, by rintro _ ⟨⟩; exact hp⟩
  | raise e => exact ⟨rfl, by rintro _ ⟨⟩⟩
  | op o k ih => exact (hS o hp.1).performs fun r T' _ => ih r (hp.2 r)

/-- Soundness: in every reachable configuration whose history is good the invariant holds for some
ghost state, and what is left of each thread's program is fine in that ghost state's view. -/
theorem sound [DecidableEq ι] {Q : ι → Except ε α → V → List (Event ι Op Res σ) → Prop}
    {s₀ : σ} {p : ι → Prog Op Res ε α} (a₀ : A) (hinv : P.inv s₀ [] a₀)
    (hwp : ∀ i, P.wp i (p i) (Q i) (P.view i a₀) [])
    (henv : ∀ (c : Config ι Op Res ε α σ) a e s', P.inv c.shared c.trace a → P.adm c (.env e) →
      P.machine.env e c.shared = some s' →
      ∃ a', P.inv s' c.trace a' ∧ ∀ j, P.view j a' = P.view j a)
    {c : Config ι Op Res ε α σ}
    (h : Reach (Config.step P.machine) P.adm (Config.initial s₀ p) c)
    (hgood : ∀ e ∈ c.trace, P.good e) :
    ∃ a, P.inv c.shared c.trace a ∧
      ∀ i, ∃ T, T <+: c.trace ∧ P.wp i (c.threads i) (Q i) (P.view i a) T := by
  induction h with
  | init => exact ⟨a₀, hinv, fun i => ⟨[], List.prefix_refl _, hwp i⟩⟩
  | @step c c' l hreach hadm hst ih =>
    have hpre := step_trace_prefix hst
    obtain ⟨a, ha, hth⟩ := ih fun e he => hgood e (hpre.subset he)
    cases l with
    | run i ch =>
      obtain ⟨o, k, r, s', ho, hex, rfl⟩ := step_run_cases hst
      obtain ⟨T, hT, hi⟩ := hth i
      rw [ho] at hi
      obtain ⟨a', ha', hview, hk⟩ := hi c a ch r s' hT ha rfl (by rw [ho]; rfl) hadm hex
        (hgood _ (by simp [Config.perform]))
      refine ⟨a', ha', fun j => ?_⟩
      by_cases hj : j = i
      · subst hj
        exact ⟨_, List.prefix_refl _, by simpa [Config.perform] using hk⟩
      · obtain ⟨T', hT', hj'⟩ := hth j
        refine ⟨T', hT'.trans hpre, ?_⟩
        rw [hview j hj]
        simpa [Config.perform, hj] using hj'
    | env e =>
      obtain ⟨s', he, rfl⟩ := step_env_cases hst
      obtain ⟨a', ha', hview⟩ := henv c a e s' ha hadm he
      refine ⟨a', ha', fun j => ?_⟩
      rw [hview j]
      exact hth j

end Logic

end Concurrency
