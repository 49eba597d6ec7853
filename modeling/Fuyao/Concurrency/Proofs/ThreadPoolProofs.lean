import Fuyao.Concurrency.ThreadPool
import Fuyao.Concurrency.Proofs.ProgProofs
import Mathlib.Algebra.Order.BigOperators.Group.Finset

/-!
# Proofs: every task of a pool is executed once

Each future has a standing: it has not been handed out, its task is queued, a worker is inside its
task, or it is set. `Pool.Inv` says that the queue, the workers and the results agree with the
standings, and that the operations logged for a future are those of one execution of its task as far
as its standing says. Each move changes the standing of one future.
-/

namespace Concurrency

variable {W τ Op : Type} {Res : Op → Type} {ε α β σ Choice Env : Type}

/-! ## The invariant -/

/-- Where the task of a future is. -/
inductive Standing (W Op : Type) (Res : Op → Type) (ε β : Type) where
  | unissued
  | queued
  | running (w : W) (p : Prog Op Res ε β)
  | done (out : Except ε β)

/-- What has been logged for a future with a task `p` of the given standing. -/
def Standing.Logged (p : Prog Op Res ε β) (es : List ((o : Op) × Res o)) :
    Standing W Op Res ε β → Prop
  | .unissued | .queued => es = []
  | .running _ q => p.After es q
  | .done out => p.Path es out

namespace Pool

/-- The pool holds the future `f`, of a task with argument `x`, as its standing says. -/
structure Stands (body : τ → Prog Op Res ε β) (x : τ) (st : Standing W Op Res ε β)
    (pool : Pool W τ Op Res ε β) (f : ℕ) : Prop where
  tasks : ∀ y, (f, y) ∈ pool.tasks ↔ st = .queued ∧ y = x
  worker : ∀ w p, pool.worker w = .running f p ↔ st = .running w p
  results : ∀ out, pool.results f = some out ↔ st = .done out
  issued : f < pool.next ↔ st ≠ .unissued
  log : st.Logged (body x) (answers f pool.log)

/-- Every future stands where its task is, and a worker exits only when the pool has been stopped. -/
structure Inv (body : τ → Prog Op Res ε β) (arg : ℕ → τ) (standing : ℕ → Standing W Op Res ε β)
    (pool : Pool W τ Op Res ε β) : Prop where
  nodup : (pool.tasks.map Prod.fst).Nodup
  exited : ∀ w, pool.worker w = .exited → pool.stop = true
  stands : ∀ f, Stands body (arg f) (standing f) pool f

/-- Two pools hold the future `f` in the same way. -/
structure Agree (pool pool' : Pool W τ Op Res ε β) (f : ℕ) : Prop where
  tasks : ∀ y, (f, y) ∈ pool'.tasks ↔ (f, y) ∈ pool.tasks
  worker : ∀ w p, pool'.worker w = .running f p ↔ pool.worker w = .running f p
  results : pool'.results f = pool.results f
  next : f < pool'.next ↔ f < pool.next
  log : answers f pool'.log = answers f pool.log

theorem Stands.congr {body : τ → Prog Op Res ε β} {x : τ} {st : Standing W Op Res ε β}
    {pool pool' : Pool W τ Op Res ε β} {f : ℕ} (h : Stands body x st pool f) (ha : Agree pool pool' f) :
    Stands body x st pool' f where
  tasks y := (ha.tasks y).trans (h.tasks y)
  worker w p := (ha.worker w p).trans (h.worker w p)
  results out := by rw [ha.results, h.results]
  issued := ha.next.trans h.issued
  log := by rw [ha.log]; exact h.log

/-- A move that changes how the pool holds one future. -/
theorem Inv.update {body : τ → Prog Op Res ε β} {arg : ℕ → τ} {standing : ℕ → Standing W Op Res ε β}
    {pool pool' : Pool W τ Op Res ε β} (h : pool.Inv body arg standing) {f : ℕ} {x : τ}
    {st : Standing W Op Res ε β} (hnodup : (pool'.tasks.map Prod.fst).Nodup)
    (hexited : ∀ w, pool'.worker w = .exited → pool'.stop = true)
    (hne : ∀ g, g ≠ f → Agree pool pool' g) (hf : Stands body x st pool' f) :
    pool'.Inv body (Function.update arg f x) (Function.update standing f st) where
  nodup := hnodup
  exited := hexited
  stands g := by
    by_cases hg : g = f
    · subst hg
      simpa using hf
    · simpa [hg] using (h.stands g).congr (hne g hg)

/-- The same, for a future that keeps its task. -/
theorem Inv.move {body : τ → Prog Op Res ε β} {arg : ℕ → τ} {standing : ℕ → Standing W Op Res ε β}
    {pool pool' : Pool W τ Op Res ε β} (h : pool.Inv body arg standing) {f : ℕ}
    {st : Standing W Op Res ε β} (hnodup : (pool'.tasks.map Prod.fst).Nodup)
    (hexited : ∀ w, pool'.worker w = .exited → pool'.stop = true)
    (hne : ∀ g, g ≠ f → Agree pool pool' g) (hf : Stands body (arg f) st pool' f) :
    pool'.Inv body arg (Function.update standing f st) := by
  simpa using h.update hnodup hexited hne hf

theorem answers_append (f : ℕ) (l l' : List (ℕ × ((o : Op) × Res o))) :
    answers f (l ++ l') = answers f l ++ answers f l' := List.filterMap_append

theorem mem_answers {f : ℕ} {l : List (ℕ × ((o : Op) × Res o))} {e : (o : Op) × Res o} :
    e ∈ answers f l ↔ (f, e) ∈ l := by
  simp only [answers, List.mem_filterMap, Option.ite_none_right_eq_some, Option.some.injEq, Prod.exists]
  constructor
  · rintro ⟨f', e', h, rfl, rfl⟩
    exact h
  · intro h
    exact ⟨f, e, h, rfl, rfl⟩

theorem answers_record (pool : Pool W τ Op Res ε β) (f g : ℕ) (o : Op) (r : Res o) :
    answers g (pool.record f o r).log =
      answers g pool.log ++ if f = g then [⟨o, r⟩] else [] := by
  rw [record, answers_append]
  by_cases h : f = g <;> simp [answers, h]

@[simp] theorem record_tasks (pool : Pool W τ Op Res ε β) (f : ℕ) (o : Op) (r : Res o) :
    (pool.record f o r).tasks = pool.tasks := rfl

@[simp] theorem record_results (pool : Pool W τ Op Res ε β) (f : ℕ) (o : Op) (r : Res o) :
    (pool.record f o r).results = pool.results := rfl

@[simp] theorem record_next (pool : Pool W τ Op Res ε β) (f : ℕ) (o : Op) (r : Res o) :
    (pool.record f o r).next = pool.next := rfl

@[simp] theorem record_worker (pool : Pool W τ Op Res ε β) (f : ℕ) (o : Op) (r : Res o) :
    (pool.record f o r).worker = pool.worker := rfl

theorem inv_initial {body : τ → Prog Op Res ε β} (arg : ℕ → τ) :
    (initial : Pool W τ Op Res ε β).Inv body arg fun _ => .unissued where
  nodup := List.nodup_nil
  exited := by simp [initial]
  stands f := ⟨by simp [initial], by simp [initial], by simp [initial], by simp [initial], rfl⟩

variable [DecidableEq W] {body : τ → Prog Op Res ε β} {arg : ℕ → τ}
  {standing : ℕ → Standing W Op Res ε β} {pool pool' : Pool W τ Op Res ε β}

@[simp] theorem setWorker_tasks (w : W) (x : Worker Op Res ε β) :
    (pool.setWorker w x).tasks = pool.tasks := rfl

@[simp] theorem setWorker_next (w : W) (x : Worker Op Res ε β) :
    (pool.setWorker w x).next = pool.next := rfl

@[simp] theorem setWorker_results (w : W) (x : Worker Op Res ε β) :
    (pool.setWorker w x).results = pool.results := rfl

@[simp] theorem setWorker_stop (w : W) (x : Worker Op Res ε β) :
    (pool.setWorker w x).stop = pool.stop := rfl

@[simp] theorem setWorker_log (w : W) (x : Worker Op Res ε β) :
    (pool.setWorker w x).log = pool.log := rfl

/-! ## What each move does -/

theorem take_cases {w : W} (h : pool.take body w = some pool') :
    pool.worker w = .idle ∧
      ((∃ f x tasks, pool.tasks = (f, x) :: tasks ∧
          pool' = { pool with tasks := tasks }.setWorker w (.running f (body x))) ∨
        pool.tasks = [] ∧ pool.stop = true ∧ pool' = pool.setWorker w .exited) := by
  simp only [take] at h
  split at h
  next hw =>
    refine ⟨hw, ?_⟩
    split at h
    next f x tasks ht => exact .inl ⟨f, x, tasks, ht, (Option.some.inj h).symm⟩
    next ht =>
      split at h
      next hs => exact .inr ⟨ht, hs, (Option.some.inj h).symm⟩
      · cases h
  · cases h

theorem work_cases {M : Machine Op Res σ Choice Env} {w : W} {ch : Choice} {s s' : σ}
    (h : pool.work M w ch s = some (s', pool')) :
    ∃ f o k r, pool.worker w = .running f (.op o k) ∧ M.exec o ch s = some (r, s') ∧
      pool' = (pool.record f o r).setWorker w (.running f (k r)) := by
  simp only [work] at h
  split at h
  next f o k hw =>
    obtain ⟨⟨r, s₁⟩, hex, heq⟩ := Option.map_eq_some_iff.mp h
    cases heq
    exact ⟨f, o, k, r, hw, hex, rfl⟩
  · cases h

theorem finish_cases {w : W} (h : pool.finish w = some pool') :
    ∃ f p out, pool.worker w = .running f p ∧ p.outcome = some out ∧
      pool' = { pool with results := Function.update pool.results f (some out) }.setWorker w .idle := by
  simp only [finish] at h
  split at h
  next f p hw =>
    obtain ⟨out, hout, rfl⟩ := Option.map_eq_some_iff.mp h
    exact ⟨f, p, out, hw, hout, rfl⟩
  · cases h

section Exec

variable {M : Machine Op Res σ Choice Env} {s s' : σ × Pool W τ Op Res ε β} {ch : Choice}

theorem exec_base_cases {o : Op} {r : Res o}
    (h : (M.withPool body).exec (.base o) ch s = some (r, s')) :
    ∃ t, M.exec o ch s.1 = some (r, t) ∧ s' = (t, s.2) := by
  obtain ⟨⟨r', t⟩, hex, heq⟩ := Option.map_eq_some_iff.mp
    (show (M.exec o ch s.1).map (fun x => (x.1, x.2, s.2)) = some (r, s') from h)
  cases heq
  exact ⟨t, hex, rfl⟩

theorem exec_enqueue_cases {x : τ} {r : Option ℕ}
    (h : (M.withPool body).exec (.enqueue x) ch s = some (r, s')) :
    (s.2.stop = true ∧ r = none ∧ s' = s) ∨
      (s.2.stop = false ∧ r = some s.2.next ∧ s' = (s.1, s.2.push x)) := by
  obtain ⟨t, pool⟩ := s
  simp only [Machine.withPool] at h
  split at h
  next hs =>
    cases h
    exact .inl ⟨hs, rfl, rfl⟩
  next hs =>
    cases h
    exact .inr ⟨Bool.not_eq_true _ ▸ hs, rfl, rfl⟩

theorem exec_get_cases {f : ℕ} {r : Except ε β}
    (h : (M.withPool body).exec (.get f) ch s = some (r, s')) :
    s.2.results f = some r ∧ s' = s := by
  obtain ⟨out, hout, heq⟩ := Option.map_eq_some_iff.mp
    (show (s.2.results f).map (fun out => (out, s.1, s.2)) = some (r, s') from h)
  cases heq
  exact ⟨hout, rfl⟩

end Exec

/-! ## The moves keep the invariant -/

/-- A worker that changes its future or becomes idle leaves the other futures as they are. -/
theorem running_setWorker_iff {w w' : W} {g : ℕ} {p : Prog Op Res ε β} {x : Worker Op Res ε β}
    (hold : ∀ q, pool.worker w ≠ .running g q) (hnew : ∀ q, x ≠ .running g q) :
    (pool.setWorker w x).worker w' = .running g p ↔ pool.worker w' = .running g p := by
  by_cases hw : w' = w
  · subst hw
    simp [setWorker, hold, hnew]
  · simp [setWorker, hw]

theorem exited_setWorker {w : W} {x : Worker Op Res ε β}
    (h : ∀ w, pool.worker w = .exited → pool.stop = true) (hx : x ≠ .exited) (w' : W)
    (hw' : (pool.setWorker w x).worker w' = .exited) :
    pool.stop = true := by
  by_cases hw : w' = w
  · subst hw
    simp [setWorker, hx] at hw'
  · exact h w' (by simpa [setWorker, hw] using hw')

namespace Inv

omit [DecidableEq W] in
theorem standing_next (h : pool.Inv body arg standing) : standing pool.next = .unissued := by
  by_contra hne
  exact lt_irrefl _ ((h.stands pool.next).issued.mpr hne)

/-- The worker that is inside the task of a future is the one its standing names. -/
theorem setWorker_worker (h : pool.Inv body arg standing) {w : W} {f : ℕ} {x : Worker Op Res ε β}
    {st : Standing W Op Res ε β} (hother : ∀ w', w' ≠ w → ∀ p, standing f ≠ .running w' p)
    (hx : ∀ p, x = .running f p ↔ st = .running w p) (hst : ∀ w', w' ≠ w → ∀ p, st ≠ .running w' p)
    (w' : W) (p : Prog Op Res ε β) :
    (pool.setWorker w x).worker w' = .running f p ↔ st = .running w' p := by
  by_cases hw : w' = w
  · subst hw
    simpa [setWorker] using hx p
  · have := (h.stands f).worker w' p
    simp [setWorker, hw, this, hother w' hw p, hst w' hw p]

omit [DecidableEq W] in
theorem push (h : pool.Inv body arg standing) (x : τ) :
    (pool.push x).Inv body (Function.update arg pool.next x)
      (Function.update standing pool.next .queued) := by
  have hnext := h.stands pool.next
  rw [h.standing_next] at hnext
  have hnew : ∀ y, (pool.next, y) ∉ pool.tasks := by simpa using hnext.tasks
  refine h.update ?_ h.exited ?_ ?_
  · simp only [Pool.push, List.map_append, List.map_cons, List.map_nil]
    refine List.nodup_append.mpr ⟨h.nodup, List.nodup_singleton _, ?_⟩
    intro a ha b hb
    obtain rfl := List.mem_singleton.mp hb
    rintro rfl
    obtain ⟨⟨_, y⟩, hy, rfl⟩ := List.mem_map.mp ha
    exact hnew y hy
  · intro g hg
    refine ⟨fun y => ?_, fun _ _ => Iff.rfl, rfl, ?_, rfl⟩
    · simp [Pool.push, hg]
    · simp only [Pool.push]
      omega
  · refine ⟨fun y => ?_, fun w p => ?_, fun out => ?_, ?_, hnext.log⟩
    · simp [Pool.push, hnew]
    · simpa [Pool.push] using hnext.worker w p
    · simpa [Pool.push] using hnext.results out
    · simp [Pool.push]

theorem take (h : pool.Inv body arg standing) {w : W} {f : ℕ} {x : τ} {tasks : List (ℕ × τ)}
    (hw : pool.worker w = .idle) (ht : pool.tasks = (f, x) :: tasks) :
    x = arg f ∧ ({ pool with tasks := tasks }.setWorker w (.running f (body x))).Inv body arg
      (Function.update standing f (.running w (body x))) := by
  obtain ⟨hq, hx⟩ := ((h.stands f).tasks x).mp (by rw [ht]; exact List.mem_cons_self ..)
  have hold := h.stands f
  have hnd := h.nodup
  rw [ht, List.map_cons, List.nodup_cons] at hnd
  refine ⟨hx, h.move hnd.2 (exited_setWorker h.exited (by simp)) ?_ ?_⟩
  · intro g hg
    refine ⟨fun y => ?_, fun w' p => ?_, rfl, Iff.rfl, rfl⟩
    · simp [ht, hg]
    · exact running_setWorker_iff (by simp [hw])
        (by simp [Ne.symm hg])
  · refine ⟨fun y => ?_, fun w' p => ?_, fun out => ?_, ?_, ?_⟩
    · have : (f, y) ∉ tasks := fun hmem => hnd.1 (List.mem_map.mpr ⟨_, hmem, rfl⟩)
      simp [this]
    · exact h.setWorker_worker (by simp [hq]) (by simp [eq_comm]) (by simp +contextual [eq_comm]) w' p
    · simpa [hq] using hold.results out
    · simpa [hq] using hold.issued
    · have hlog := hold.log
      rw [hq] at hlog
      rw [setWorker_log, ← hx]
      simp only [Standing.Logged] at hlog ⊢
      rw [hlog]
      exact .nil

theorem exit (h : pool.Inv body arg standing) {w : W} (hw : pool.worker w = .idle)
    (hs : pool.stop = true) : (pool.setWorker w .exited).Inv body arg standing where
  nodup := h.nodup
  exited _ _ := hs
  stands g := (h.stands g).congr ⟨fun _ => Iff.rfl,
    fun _ _ => running_setWorker_iff (by simp [hw]) (by simp), rfl, Iff.rfl, rfl⟩

theorem work (h : pool.Inv body arg standing) {w : W} {f : ℕ} {o : Op}
    {k : Res o → Prog Op Res ε β} (hw : pool.worker w = .running f (.op o k)) (r : Res o) :
    ((pool.record f o r).setWorker w (.running f (k r))).Inv body arg
      (Function.update standing f (.running w (k r))) := by
  have hold := h.stands f
  have hst := (hold.worker w _).mp hw
  rw [hst] at hold
  refine h.move h.nodup (exited_setWorker h.exited (by simp)) ?_ ?_
  · intro g hg
    refine ⟨fun _ => Iff.rfl, fun w' p => ?_, rfl, Iff.rfl, ?_⟩
    · exact running_setWorker_iff (by simp [hw, Ne.symm hg]) (by simp [Ne.symm hg])
    · rw [setWorker_log, answers_record]
      simp [Ne.symm hg]
  · refine ⟨fun y => by simpa using hold.tasks y, fun w' p => ?_, fun out => ?_, ?_, ?_⟩
    · exact h.setWorker_worker (by simp +contextual [hst, eq_comm]) (by simp [eq_comm])
        (by simp +contextual [eq_comm]) w' p
    · simpa using hold.results out
    · simpa using hold.issued
    · rw [setWorker_log, answers_record]
      simpa [Standing.Logged] using Prog.After.snoc hold.log r

theorem finish (h : pool.Inv body arg standing) {w : W} {f : ℕ} {p : Prog Op Res ε β}
    {out : Except ε β} (hw : pool.worker w = .running f p) (hout : p.outcome = some out) :
    ({ pool with results := Function.update pool.results f (some out) }.setWorker w .idle).Inv body arg
      (Function.update standing f (.done out)) := by
  have hold := h.stands f
  have hst := (hold.worker w _).mp hw
  rw [hst] at hold
  refine h.move h.nodup (exited_setWorker h.exited (by simp)) ?_ ?_
  · intro g hg
    refine ⟨fun _ => Iff.rfl, fun w' q => ?_, by simp [hg], Iff.rfl, rfl⟩
    exact running_setWorker_iff (by simp [hw, Ne.symm hg]) (by simp)
  · refine ⟨fun y => by simpa using hold.tasks y, fun w' q => ?_, fun out' => ?_, ?_, ?_⟩
    · exact h.setWorker_worker (by simp +contextual [hst, eq_comm]) (by simp) (by simp) w' q
    · simp
    · simpa using hold.issued
    · simpa [Standing.Logged] using Prog.After.path hold.log (Prog.path_of_outcome hout)

/-- A busy worker can move on, unless the machine blocks its next operation. -/
theorem exists_move_of_running {M : Machine Op Res σ Choice Env} {s : σ} {w : W} {f : ℕ}
    {p : Prog Op Res ε β} (hw : pool.worker w = .running f p)
    (hex : ∀ o k, p = .op o k → ∃ ch x, M.exec o ch s = some x) :
    ∃ m x, (M.withPool body).env m (s, pool) = some x := by
  cases p with
  | ret a => exact ⟨.finish w, _, by simp only [Machine.withPool, Pool.finish, hw]; rfl⟩
  | raise e => exact ⟨.finish w, _, by simp only [Machine.withPool, Pool.finish, hw]; rfl⟩
  | op o k =>
    obtain ⟨ch, x, hx⟩ := hex o k rfl
    exact ⟨.work w ch, _, by simp only [Machine.withPool, Pool.work, hw, hx]; rfl⟩

/-- As long as a future is not set, some worker can move. -/
theorem progress [Nonempty W] (h : pool.Inv body arg standing) {M : Machine Op Res σ Choice Env}
    {s : σ} (hs : pool.stop = false) {f : ℕ} (hf : f < pool.next) (hr : pool.results f = none)
    (hex : ∀ w f o k, pool.worker w = .running f (.op o k) → ∃ ch x, M.exec o ch s = some x) :
    ∃ m x, (M.withPool body).env m (s, pool) = some x := by
  have hst := h.stands f
  cases hsf : standing f with
  | unissued => exact absurd hsf (hst.issued.mp hf)
  | done out => simp [(hst.results out).mpr hsf] at hr
  | running w p =>
    have hw := (hst.worker w p).mpr hsf
    exact exists_move_of_running hw fun o k hp => hex w f o k (hp ▸ hw)
  | queued =>
    have hmem := (hst.tasks (arg f)).mpr ⟨hsf, rfl⟩
    -- any worker will do: it is free to take a task, or it is busy with another one
    obtain ⟨w⟩ := ‹Nonempty W›
    cases hw : pool.worker w with
    | idle =>
      cases ht : pool.tasks with
      | nil => simp [ht] at hmem
      | cons t tasks => exact ⟨.take w, _, by simp only [Machine.withPool, Pool.take, hw, ht]; rfl⟩
    | running g p => exact exists_move_of_running hw fun o k hp => hex w g o k (hp ▸ hw)
    | exited => simp [h.exited w hw] at hs

end Inv

end Pool

/-! ## Runs end -/

namespace Prog

variable {cost : Op → ℕ} {Q : α → Prop} {p : Prog Op Res ε α} {n m : ℕ}

theorem Within.mono (h : p.Within cost Q n) (hnm : n ≤ m) : p.Within cost Q m := by
  cases p with
  | ret a => exact h
  | raise e => trivial
  | op o k =>
    obtain ⟨l, hl, hk⟩ := h
    exact ⟨l, hl.trans hnm, hk⟩

theorem Within.imp {Q' : α → Prop} (h : p.Within cost Q n) (hQ : ∀ a, Q a → Q' a) :
    p.Within cost Q' n := by
  induction p generalizing n with
  | ret a => exact hQ a h
  | raise e => trivial
  | op o k ih =>
    obtain ⟨l, hl, hk⟩ := h
    exact ⟨l, hl, fun r => ih r (hk r)⟩

theorem Within.bind {Q' : β → Prop} {f : α → Prog Op Res ε β} (h : p.Within cost Q n)
    (hf : ∀ a, Q a → (f a).Within cost Q' m) : (p >>= f).Within cost Q' (n + m) := by
  induction p generalizing n with
  | ret a => exact (hf a h).mono (Nat.le_add_left ..)
  | raise e => trivial
  | op o k ih =>
    obtain ⟨l, hl, hk⟩ := h
    exact ⟨l + m, by omega, fun r => ih r (hk r)⟩

end Prog

/-- An enqueued task costs what its execution by a worker costs, if a task takes `b` operations. -/
def PoolOp.cost (b : ℕ) : PoolOp τ Op → ℕ
  | .enqueue _ => b + 3
  | _ => 1

/-- What a worker may still spend. -/
def Worker.Within (n : ℕ) : Worker Op Res ε β → Prop
  | .idle => 1 ≤ n
  | .running _ p => ∃ m, p.Within (fun _ => 1) (fun _ => True) m ∧ m + 2 ≤ n
  | .exited => True

/-- Budgets for the programs and for the workers. -/
structure Budget {ι : Type} (b : ℕ)
    (c : Config ι (PoolOp τ Op) (PoolOp.Res Res ε β) ε α (σ × Pool W τ Op Res ε β)) (d : ι → ℕ)
    (e : W → ℕ) : Prop where
  threads : ∀ i, (c.threads i).Within (PoolOp.cost b) (fun _ => True) (d i)
  workers : ∀ w, (c.shared.2.worker w).Within (e w)

section Budget

variable {ι : Type} [Fintype ι] [DecidableEq ι] [Fintype W] [DecidableEq W] {b : ℕ}
  {M : Machine Op Res σ Choice Env} {body : τ → Prog Op Res ε β}
  {c c' : Config ι (PoolOp τ Op) (PoolOp.Res Res ε β) ε α (σ × Pool W τ Op Res ε β)} {d : ι → ℕ}
  {e : W → ℕ}

/-- What is left to spend, with `b + 2` for each queued task. -/
def budget (b : ℕ) (tasks : List (ℕ × τ)) (d : ι → ℕ) (e : W → ℕ) : ℕ :=
  ∑ i, d i + ∑ w, e w + (b + 2) * tasks.length

/-- The programs spend when they perform an operation. -/
theorem Budget.run (h : Budget b c d e) {i : ι} {ch : Choice}
    (hst : c.step (M.withPool body) (.run i ch) = some c') :
    ∃ d', Budget b c' d' e ∧
      budget b c'.shared.2.tasks d' e < budget b c.shared.2.tasks d e := by
  obtain ⟨o, k, r, s', ho, hex, rfl⟩ := step_run_cases hst
  have hi := h.threads i
  rw [ho] at hi
  obtain ⟨m, hm, hk⟩ := hi
  have hsum := sum_update_add d i m
  have hthreads : ∀ j, ((Function.update c.threads i (k r)) j).Within (PoolOp.cost b) (fun _ => True)
      (Function.update d i m j) := by
    intro j
    by_cases hj : j = i
    · subst hj
      simpa using hk r
    · simpa [hj] using h.threads j
  refine ⟨Function.update d i m, ?_⟩
  cases o with
  | base o =>
    obtain ⟨t, -, rfl⟩ := Pool.exec_base_cases hex
    refine ⟨⟨hthreads, h.workers⟩, ?_⟩
    simp only [budget, PoolOp.cost, Config.perform] at hm ⊢
    omega
  | get f =>
    obtain ⟨-, rfl⟩ := Pool.exec_get_cases hex
    refine ⟨⟨hthreads, h.workers⟩, ?_⟩
    simp only [budget, PoolOp.cost, Config.perform] at hm ⊢
    omega
  | enqueue x =>
    rcases Pool.exec_enqueue_cases hex with ⟨-, rfl, rfl⟩ | ⟨-, rfl, rfl⟩
    · refine ⟨⟨hthreads, h.workers⟩, ?_⟩
      simp only [budget, PoolOp.cost, Config.perform] at hm ⊢
      omega
    · refine ⟨⟨hthreads, h.workers⟩, ?_⟩
      simp only [budget, PoolOp.cost, Config.perform, Pool.push, List.length_append,
        List.length_singleton, Nat.mul_add, Nat.mul_one] at hm ⊢
      omega

omit [Fintype ι] [DecidableEq ι] [Fintype W] in
/-- A worker spends from its own budget; what it takes from the queue was paid for. -/
theorem Budget.setWorker (h : Budget b c d e) {s' : σ} {pool : Pool W τ Op Res ε β}
    (hpool : pool.worker = c.shared.2.worker) {w : W} {x : Worker Op Res ε β} {n : ℕ}
    (hx : x.Within n) :
    Budget b { c with shared := (s', pool.setWorker w x) } d (Function.update e w n) where
  threads := h.threads
  workers w' := by
    by_cases hw : w' = w
    · subst hw
      simpa [Pool.setWorker] using hx
    · simpa [Pool.setWorker, hpool, hw] using h.workers w'

/-- The workers spend with every move. -/
theorem Budget.env (h : Budget b c d e)
    (hbody : ∀ x, (body x).Within (fun _ => 1) (fun _ => True) b) (hM : ∀ e s, M.env e s = none)
    {m : PoolMove W Choice Env} (hst : c.step (M.withPool body) (.env m) = some c') :
    ∃ e', Budget b c' d e' ∧
      budget b c'.shared.2.tasks d e' < budget b c.shared.2.tasks d e := by
  obtain ⟨⟨s', pool'⟩, henv, rfl⟩ := step_env_cases hst
  cases m with
  | take w =>
    obtain ⟨pool₁, htake, heq⟩ := Option.map_eq_some_iff.mp henv
    cases heq
    have hw := h.workers w
    obtain ⟨hidle, ⟨f, x, tasks, ht, rfl⟩ | ⟨ht, -, rfl⟩⟩ := Pool.take_cases htake
    · rw [hidle] at hw
      have hsum := sum_update_add e w (b + 2)
      refine ⟨Function.update e w (b + 2), h.setWorker (by rfl) (by exact ⟨b, hbody x, le_rfl⟩), ?_⟩
      simp only [budget, Worker.Within, Pool.setWorker_tasks, ht, List.length_cons, Nat.mul_add,
        Nat.mul_one] at hw ⊢
      omega
    · rw [hidle] at hw
      have hsum := sum_update_add e w 0
      refine ⟨Function.update e w 0, h.setWorker (by rfl) trivial, ?_⟩
      simp only [budget, Worker.Within, Pool.setWorker_tasks, ht] at hw ⊢
      omega
  | work w ch =>
    obtain ⟨f, o, k, r, hrun, -, rfl⟩ := Pool.work_cases henv
    have hw := h.workers w
    rw [hrun] at hw
    obtain ⟨m, ⟨l, hl, hk⟩, hm⟩ := hw
    have hsum := sum_update_add e w (l + 2)
    refine ⟨Function.update e w (l + 2), h.setWorker (by rfl) (by exact ⟨l, hk r, le_rfl⟩), ?_⟩
    beta_reduce at hl
    change _ + _ + (b + 2) * c.shared.2.tasks.length < _ + _ + (b + 2) * c.shared.2.tasks.length
    omega
  | finish w =>
    obtain ⟨pool₁, hfinish, heq⟩ := Option.map_eq_some_iff.mp henv
    cases heq
    obtain ⟨f, p, out, hrun, -, rfl⟩ := Pool.finish_cases hfinish
    have hw := h.workers w
    rw [hrun] at hw
    obtain ⟨m, -, hm⟩ := hw
    have hsum := sum_update_add e w 1
    refine ⟨Function.update e w 1, h.setWorker (by rfl) (by exact le_rfl), ?_⟩
    change _ + _ + (b + 2) * c.shared.2.tasks.length < _ + _ + (b + 2) * c.shared.2.tasks.length
    omega
  | env e' =>
    obtain ⟨s₁, hs₁, -⟩ := Option.map_eq_some_iff.mp henv
    simp [hM] at hs₁

/-- A run takes no more steps than there is to spend. -/
theorem Budget.length_le (h : Budget b c d e)
    (hbody : ∀ x, (body x).Within (fun _ => 1) (fun _ => True) b) (hM : ∀ e s, M.env e s = none)
    {ls : List (Label ι Choice (PoolMove W Choice Env))}
    (hrun : runLabels (Config.step (M.withPool body)) ls c = some c') :
    ls.length ≤ budget b c.shared.2.tasks d e := by
  induction ls generalizing c d e with
  | nil => exact Nat.zero_le _
  | cons l ls ih =>
    obtain ⟨c₁, hst, hrest⟩ := Option.bind_eq_some_iff.mp hrun
    cases l with
    | run i ch =>
      obtain ⟨d', h', hlt⟩ := h.run hst
      exact Nat.succ_le_of_lt ((ih h' hrest).trans_lt hlt)
    | env m =>
      obtain ⟨e', h', hlt⟩ := h.env hbody hM hst
      exact Nat.succ_le_of_lt ((ih h' hrest).trans_lt hlt)

end Budget

end Concurrency
