import Fuyao.FanOut.Proofs.PhasesProofs

/-!
# Proofs: fan-out and join are exact

The invariant of a run gives every future an owner, that is the request, the round and the job it was
handed out for, and every job on the heap the request that holds it. `CallInv` says how a call in a given
phase fits to that, and `Inv` adds what holds of the pool and of the heap as a whole. A step of a call
concerns its own phase and leaves the others in place (`CallInv.frame`); a step of a worker concerns the
job of one task, which its request cannot have destroyed yet.
-/

namespace FanOut

open Cpp Concurrency

/-! ## What the phases know -/

/-- The future of the task is set. -/
def Finished (pool : WorkerPool) (t : Task) : Prop := (pool.results t.future).isSome

/-- The invocation of the task has returned `ret`. -/
def Returned (pool : WorkerPool) (t : Task) (ret : Int32) : Prop :=
  ∃ func_name payload method, (t.future, ⟨.invoke func_name payload method, ret⟩) ∈ pool.log

/-- The tasks have returned codes other than -1. -/
def Passed (pool : WorkerPool) (ts : List Task) : Prop :=
  ∀ t ∈ ts, ∃ ret, ret ≠ -1 ∧ Returned pool t ret

/-- All tasks have finished, and `code` is what the call has to return for them. -/
def Concluded (pool : WorkerPool) (ts : List Task) (code : Int32) : Prop :=
  (∀ t ∈ ts, Finished pool t) ∧
    (code = 0 ∧ Passed pool ts ∨ code = -1 ∧ ∃ t ∈ ts, Returned pool t (-1))

namespace Phase

/-- What the pool says about the tasks of a call in this phase. -/
def Sound (pool : WorkerPool) : Phase → Prop
  | waiting got _ _ => ∀ t ∈ got, Finished pool t
  | checking passed t rest => (∀ u ∈ passed ++ t :: rest, Finished pool u) ∧ Passed pool passed
  | stamping ts | printing ts _ | appending ts => (∀ t ∈ ts, Finished pool t) ∧ Passed pool ts
  | releasing freed t rest code => Concluded pool (freed ++ t :: rest) code
  | ended ts code => Concluded pool ts code
  | _ => True

section

variable {pool pool' : WorkerPool} {n : ℕ} {freed passed got rest ts : List Task} {code : Int32}

/-- What a phase knows stays known, since futures remain set and the log only grows. -/
theorem Sound.mono {ph : Phase} (h : ph.Sound pool)
    (hres : ∀ f out, pool.results f = some out → pool'.results f = some out)
    (hlog : pool.log ⊆ pool'.log) : ph.Sound pool' := by
  have hfin : ∀ {t}, Finished pool t → Finished pool' t := by
    intro t ht
    obtain ⟨out, hout⟩ := Option.isSome_iff_exists.mp ht
    exact Option.isSome_iff_exists.mpr ⟨out, hres _ _ hout⟩
  have hret : ∀ {t ret}, Returned pool t ret → Returned pool' t ret := by
    rintro t ret ⟨func_name, payload, method, hmem⟩
    exact ⟨func_name, payload, method, hlog hmem⟩
  have hpassed : ∀ {ts}, Passed pool ts → Passed pool' ts := by
    intro ts hts t ht
    obtain ⟨ret, hne, hr⟩ := hts t ht
    exact ⟨ret, hne, hret hr⟩
  have hconc : ∀ {ts code}, Concluded pool ts code → Concluded pool' ts code := by
    rintro ts code ⟨hall, hcode⟩
    refine ⟨fun t ht => hfin (hall t ht), ?_⟩
    rcases hcode with ⟨rfl, hp⟩ | ⟨rfl, t, ht, hr⟩
    · exact .inl ⟨rfl, hpassed hp⟩
    · exact .inr ⟨rfl, t, ht, hret hr⟩
  cases ph with
  | waiting got t rest => exact fun t ht => hfin (h t ht)
  | checking passed t rest => exact ⟨fun t ht => hfin (h.1 t ht), hpassed h.2⟩
  | stamping ts => exact ⟨fun t ht => hfin (h.1 t ht), hpassed h.2⟩
  | printing ts text => exact ⟨fun t ht => hfin (h.1 t ht), hpassed h.2⟩
  | appending ts => exact ⟨fun t ht => hfin (h.1 t ht), hpassed h.2⟩
  | releasing freed t rest code => exact hconc h
  | ended ts code => exact hconc h
  | _ => trivial

theorem sound_free (h : Concluded pool (freed ++ rest) code) : (free freed rest code).Sound pool := by
  cases rest with
  | nil => simpa [free, Sound] using h
  | cons t rest => exact h

theorem sound_check (h : ∀ t ∈ passed ++ rest, Finished pool t) (hp : Passed pool passed) :
    (check passed rest).Sound pool := by
  cases rest with
  | nil => exact ⟨by simpa using h, hp⟩
  | cons t rest => exact ⟨h, hp⟩

theorem sound_wait (h : ∀ t ∈ got, Finished pool t) : (wait got rest).Sound pool := by
  cases rest with
  | nil => exact sound_check h (by simp [Passed])
  | cons t rest => exact h

theorem sound_round : (round n ts).Sound pool := by
  simp only [round]
  split
  · exact sound_wait (by simp)
  · split <;> trivial

@[simp] theorem tasks_free : (free freed rest code).tasks = freed ++ rest := by
  cases rest <;> simp [free, tasks]

@[simp] theorem tasks_check : (check passed rest).tasks = passed ++ rest := by
  cases rest <;> simp [check, tasks]

@[simp] theorem tasks_wait : (wait got rest).tasks = got ++ rest := by
  cases rest with
  | nil => simp [wait]
  | cons t rest => rfl

@[simp] theorem tasks_round : (round n ts).tasks = ts := by
  simp only [round]
  split
  · simp
  · split <;> rfl

@[simp] theorem live_free : (free freed rest code).live = rest.map Task.job := by
  cases rest <;> simp [free, live]

@[simp] theorem live_check : (check passed rest).live = (passed ++ rest).map Task.job := by
  cases rest <;> simp [check, live, tasks]

@[simp] theorem live_wait : (wait got rest).live = (got ++ rest).map Task.job := by
  cases rest with
  | nil => simp [wait]
  | cons t rest => rfl

@[simp] theorem live_round : (round n ts).live = ts.map Task.job := by
  simp only [round]
  split
  · simp
  · split <;> rfl

@[simp] theorem output_free :
    (free freed rest code).output = if code = 0 then [message] else [] := by
  cases rest <;> rfl

@[simp] theorem output_check : (check passed rest).output = [] := by
  cases rest <;> rfl

@[simp] theorem output_wait : (wait got rest).output = [] := by
  cases rest with
  | nil => simp [wait]
  | cons t rest => rfl

@[simp] theorem output_round : (round n ts).output = [] := by
  simp only [round]
  split
  · simp
  · split <;> rfl

theorem free_ne_enqueuing {ts : List Task} {job : ℕ} : free freed rest code ≠ .enqueuing ts job := by
  cases rest <;> rintro ⟨⟩

theorem check_ne_enqueuing {ts : List Task} {job : ℕ} : check passed rest ≠ .enqueuing ts job := by
  cases rest <;> rintro ⟨⟩

theorem wait_ne_enqueuing {ts : List Task} {job : ℕ} : wait got rest ≠ .enqueuing ts job := by
  cases rest with
  | nil => exact check_ne_enqueuing
  | cons t rest => rintro ⟨⟩

theorem round_ne_enqueuing {us : List Task} {job : ℕ} : round n ts ≠ .enqueuing us job := by
  simp only [round]
  split
  · exact wait_ne_enqueuing
  · split <;> rintro ⟨⟩

end

end Phase

/-! ## The invariant -/

variable {ι Doc : Type}

/-- The job of round `k` bears the name of that round, and once its flag has been written it holds what
was written. -/
structure Described (heap : Heap) (log : List (ℕ × ((o : Op) × o.Res))) (live : List ℕ) (k : ℕ)
    (t : Task) : Prop where
  name : ∀ func_name, (t.future, ⟨.funcName t.job, func_name⟩) ∈ log → func_name = auditName k
  job : t.job ∈ live → ∃ j, heap.job t.job = some j ∧ j.func_name = auditName k ∧
    ∀ b, (t.future, ⟨.setSucceed t.job b, ()⟩) ∈ log → j.succeed = b

/-- A call is in a phase: its program, its tasks, its jobs and its output are those of the phase. -/
structure CallInv [DecidableEq ι] (json : JsonLib Doc) (input : ι → Bytes) (c : System ι)
    (owner : ℕ → Option (ι × ℕ × ℕ)) (holder : ℕ → Option ι) (q : ι) (ph : Phase) : Prop where
  runs : ph.Runs json (input q) (c.threads q)
  sound : ph.Sound c.shared.2
  tasks : c.tasksOf q = ph.tasks
  output : c.outputOf q = ph.output
  slots : ∀ k t, ph.tasks[k]? = some t ↔ owner t.future = some (q, k, t.job)
  nodup : ph.live.Nodup
  jobs : (ph.tasks.map Task.job).Nodup
  live : ∀ p, p ∈ ph.live ↔ holder p = some q
  held : ∀ t ∈ ph.tasks, ¬ Finished c.shared.2 t → t.job ∈ ph.live
  described : ∀ k t, ph.tasks[k]? = some t → Described c.shared.1 c.shared.2.log ph.live k t
  made : ∀ ts job, ph = .enqueuing ts job → c.shared.1.job job = some ⟨auditName ts.length, false⟩
  reads : ∀ e ∈ c.trace, e.thread = q → ∀ job, e.op = .base (.succeed job) →
    ∃ t ∈ ph.tasks, t.job = job ∧ Finished e.pre.2 t

/-- The invariant of the system: each call is in a phase, and each future and each job has one owner. -/
structure Inv [DecidableEq ι] (json : JsonLib Doc) (var : Option Bytes) (input : ι → Bytes)
    (c : System ι) (ph : ι → Phase) (arg : ℕ → ℕ)
    (standing : ℕ → Standing (Fin 80) Op Op.Res Exn Int32) (owner : ℕ → Option (ι × ℕ × ℕ))
    (holder : ℕ → Option ι) : Prop where
  pool : c.shared.2.Inv (invoke var) arg standing
  stop : c.shared.2.stop = false
  fault : c.shared.1.fault = false
  calls : ∀ q, CallInv json input c owner holder q (ph q)
  issued : ∀ f, (owner f).isSome ↔ f < c.shared.2.next
  arg : ∀ f q k p, owner f = some (q, k, p) → arg f = p
  heap : ∀ p, (c.shared.1.job p).isSome ↔ (holder p).isSome
  finite : ∃ N, ∀ p, N ≤ p → c.shared.1.job p = none

section Inv

variable [DecidableEq ι] {json : JsonLib Doc} {var : Option Bytes} {input : ι → Bytes}
  {c c' : System ι} {ph : ι → Phase} {arg : ℕ → ℕ}
  {standing : ℕ → Standing (Fin 80) Op Op.Res Exn Int32} {owner owner' : ℕ → Option (ι × ℕ × ℕ)}
  {holder holder' : ℕ → Option ι}

/-- What a call knows after a step of somebody else. -/
theorem CallInv.world {q : ι} {ph : Phase} (h : CallInv json input c owner holder q ph)
    (hthread : c'.threads q = c.threads q)
    (htrace : ∃ l, c'.trace = c.trace ++ l ∧ ∀ e ∈ l, e.thread ≠ q)
    (howner : ∀ f x, owner' f = some (q, x) ↔ owner f = some (q, x))
    (hholder : ∀ p, holder' p = some q ↔ holder p = some q)
    (hres : ∀ f out, c.shared.2.results f = some out → c'.shared.2.results f = some out)
    (hlog : c.shared.2.log ⊆ c'.shared.2.log)
    (hdesc : ∀ k t, ph.tasks[k]? = some t → Described c'.shared.1 c'.shared.2.log ph.live k t)
    (hmade : ∀ ts job, ph = .enqueuing ts job → c'.shared.1.job job = c.shared.1.job job) :
    CallInv json input c' owner' holder' q ph := by
  obtain ⟨l, hl, hne⟩ := htrace
  have hans : Config.answers q c'.trace = Config.answers q c.trace := by
    have hnil : Config.answers q l = [] := by
      simp only [Config.answers, List.filterMap_eq_nil_iff]
      intro e he
      exact if_neg (hne e he)
    rw [hl, Config.answers, List.filterMap_append]
    exact (congrArg (_ ++ ·) hnil).trans (List.append_nil _)
  refine ⟨hthread ▸ h.runs, h.sound.mono hres hlog, ?_, ?_, ?_, h.nodup, h.jobs, ?_, ?_, hdesc, ?_, ?_⟩
  · rw [System.tasksOf, hans]
    exact h.tasks
  · rw [System.outputOf, hans]
    exact h.output
  · intro k t
    rw [howner]
    exact h.slots k t
  · intro p
    rw [hholder]
    exact h.live p
  · intro t ht hfin
    refine h.held t ht fun hf => hfin ?_
    obtain ⟨out, hout⟩ := Option.isSome_iff_exists.mp hf
    exact Option.isSome_iff_exists.mpr ⟨out, hres _ _ hout⟩
  · intro ts job hph
    rw [hmade ts job hph]
    exact h.made ts job hph
  · intro e he hq
    rw [hl] at he
    rcases List.mem_append.mp he with he | he
    · exact h.reads e he hq
    · exact absurd hq (hne e he)

theorem Described.congr {heap heap' : Heap} {log log' : List (ℕ × ((o : Op) × o.Res))}
    {live : List ℕ} {k : ℕ} {t : Task} (h : Described heap log live k t)
    (hheap : t.job ∈ live → heap'.job t.job = heap.job t.job)
    (hlog : ∀ e, (t.future, e) ∈ log' ↔ (t.future, e) ∈ log) : Described heap' log' live k t where
  name func_name hmem := h.name func_name ((hlog _).mp hmem)
  job hlive := by
    obtain ⟨j, hj, hname, hflag⟩ := h.job hlive
    exact ⟨j, (hheap hlive).trans hj, hname, fun b hb => hflag b ((hlog _).mp hb)⟩

/-- What a call knows after a step that does not touch its jobs and its tasks. -/
theorem CallInv.frame {q : ι} {ph : Phase} (h : CallInv json input c owner holder q ph)
    (hthread : c'.threads q = c.threads q)
    (htrace : ∃ l, c'.trace = c.trace ++ l ∧ ∀ e ∈ l, e.thread ≠ q)
    (howner : ∀ f x, owner' f = some (q, x) ↔ owner f = some (q, x))
    (hholder : ∀ p, holder' p = some q ↔ holder p = some q)
    (hheap : ∀ p, holder p = some q → c'.shared.1.job p = c.shared.1.job p)
    (hres : ∀ f out, c.shared.2.results f = some out → c'.shared.2.results f = some out)
    (hlog : c'.shared.2.log = c.shared.2.log) : CallInv json input c' owner' holder' q ph := by
  refine h.world hthread htrace howner hholder hres (by rw [hlog]; exact fun _ hx => hx) ?_ ?_
  · intro k t ht
    refine (h.described k t ht).congr (fun hl => hheap _ ((h.live _).mp hl)) ?_
    intro e
    rw [hlog]
  · rintro ts job rfl
    exact hheap _ ((h.live _).mp (by simp [Phase.live]))

namespace Inv

/-- Every future that was handed out is one of a task of a request. -/
theorem exists_task (h : Inv json var input c ph arg standing owner holder) {f : ℕ}
    (hf : f < c.shared.2.next) :
    ∃ q k, owner f = some (q, k, arg f) ∧ (ph q).tasks[k]? = some (Task.mk (arg f) f) := by
  obtain ⟨⟨q, k, p⟩, howner⟩ := Option.isSome_iff_exists.mp ((h.issued f).mpr hf)
  obtain rfl := h.arg f q k p howner
  exact ⟨q, k, howner, ((h.calls q).slots k ⟨arg f, f⟩).mpr howner⟩

/-- Tasks with the same job that their requests still hold are the same. -/
theorem task_unique (h : Inv json var input c ph arg standing owner holder) {q q' : ι} {t t' : Task}
    (ht : t ∈ (ph q).tasks) (ht' : t' ∈ (ph q').tasks) (hl : t.job ∈ (ph q).live)
    (hl' : t'.job ∈ (ph q').live) (hjob : t.job = t'.job) : t = t' := by
  have hq : some q = some q' := by
    rw [← ((h.calls q).live _).mp hl, ← ((h.calls q').live _).mp hl', hjob]
  cases hq
  exact List.inj_on_of_nodup_map (h.calls q).jobs ht ht' hjob

/-- The task a worker is inside of: its request waits for it, so that its job exists. -/
theorem running_task (h : Inv json var input c ph arg standing owner holder) {w : Fin 80} {f : ℕ}
    {p : Prog Op Op.Res Exn Int32} (hw : c.shared.2.worker w = .running f p) :
    (invoke var (arg f)).After (Pool.answers f c.shared.2.log) p ∧ c.shared.2.results f = none ∧
      ∃ q, ∃ k : ℕ, (ph q).tasks[k]? = some (Task.mk (arg f) f) ∧ arg f ∈ (ph q).live := by
  have hst := h.pool.stands f
  have hrun := (hst.worker w p).mp hw
  have hres : c.shared.2.results f = none := by
    cases hr : c.shared.2.results f with
    | none => rfl
    | some out =>
      have := (hst.results out).mp hr
      rw [hrun] at this
      cases this
  obtain ⟨q, k, -, htask⟩ := h.exists_task (hst.issued.mpr (by rw [hrun]; rintro ⟨⟩))
  have hlog := hst.log
  rw [hrun] at hlog
  refine ⟨hlog, hres, q, k, htask, ?_⟩
  exact (h.calls q).held _ (List.mem_of_getElem? htask) (by simp [Finished, hres])

/-- A worker takes a task or leaves. -/
theorem take (h : Inv json var input c ph arg standing owner holder) {w : Fin 80} {pool' : WorkerPool}
    (hst : c.shared.2.take (invoke var) w = some pool') :
    ∃ standing', Inv json var input { c with shared := (c.shared.1, pool') } ph arg standing' owner
      holder := by
  have hcalls : ∀ pool₁ : WorkerPool, pool₁.results = c.shared.2.results →
      pool₁.log = c.shared.2.log → ∀ q,
      CallInv json input { c with shared := (c.shared.1, pool₁) } owner holder q (ph q) := by
    intro pool₁ hres hlog q
    exact (h.calls q).frame rfl ⟨[], by simp, by simp⟩ (fun _ _ => Iff.rfl) (fun _ => Iff.rfl)
      (fun _ _ => rfl) (by simp [hres]) hlog
  obtain ⟨hidle, ⟨f, x, tasks, ht, rfl⟩ | ⟨-, hs, rfl⟩⟩ := Pool.take_cases hst
  · exact ⟨_, (h.pool.take hidle ht).2, h.stop, h.fault, hcalls _ rfl rfl, h.issued, h.arg, h.heap,
      h.finite⟩
  · exact ⟨_, h.pool.exit hidle hs, h.stop, h.fault, hcalls _ rfl rfl, h.issued, h.arg, h.heap,
      h.finite⟩

/-- A worker sets a future. -/
theorem finish (h : Inv json var input c ph arg standing owner holder) {w : Fin 80}
    {pool' : WorkerPool} (hst : c.shared.2.finish w = some pool') :
    ∃ standing', Inv json var input { c with shared := (c.shared.1, pool') } ph arg standing' owner
      holder := by
  obtain ⟨f, p, out, hw, hout, rfl⟩ := Pool.finish_cases hst
  obtain ⟨-, hres, -⟩ := h.running_task hw
  refine ⟨_, h.pool.finish hw hout, h.stop, h.fault, fun q => ?_, h.issued, h.arg, h.heap, h.finite⟩
  refine (h.calls q).frame rfl ⟨[], by simp, by simp⟩ (fun _ _ => Iff.rfl) (fun _ => Iff.rfl)
    (fun _ _ => rfl) ?_ rfl
  intro g out' hg
  have hne : g ≠ f := by
    rintro rfl
    simp [hres] at hg
  simpa [hne] using hg

/-- A worker performs an operation of a task: it may change the job of that task, and it logs what it
did. -/
theorem workOn (h : Inv json var input c ph arg standing owner holder) {w : Fin 80} {f : ℕ} {o : Op}
    {k : o.Res → Prog Op Op.Res Exn Int32} (hw : c.shared.2.worker w = .running f (.op o k))
    {r : o.Res} {heap' : Heap} (hfault : heap'.fault = false)
    (hne : ∀ p, p ≠ arg f → heap'.job p = c.shared.1.job p) (hsome : (heap'.job (arg f)).isSome)
    (hdesc : ∀ q (i : ℕ), (ph q).tasks[i]? = some (Task.mk (arg f) f) →
      Described heap' (c.shared.2.log ++ [(f, ⟨o, r⟩)]) (ph q).live i ⟨arg f, f⟩) :
    Inv json var input
      { c with shared := (heap', (c.shared.2.record f o r).setWorker w (.running f (k r))) } ph arg
      (Function.update standing f (.running w (k r))) owner holder := by
  obtain ⟨-, -, q, i, htask, hlive⟩ := h.running_task hw
  refine ⟨h.pool.work hw r, h.stop, hfault, fun q' => ?_, h.issued, h.arg, fun p => ?_, ?_⟩
  · refine (h.calls q').world rfl ⟨[], by simp, by simp⟩ (fun _ _ => Iff.rfl) (fun _ => Iff.rfl)
      (fun _ _ hg => hg) (List.subset_append_left _ _) ?_ ?_
    · intro i' t' ht'
      by_cases hf : t'.future = f
      · -- the task itself
        have hjob : t'.job = arg f := by
          have := ((h.calls q').slots i' t').mp ht'
          rw [hf] at this
          exact (h.arg f q' i' _ this).symm
        obtain rfl : t' = ⟨arg f, f⟩ := by
          cases t'
          simp_all
        exact hdesc q' i' ht'
      · refine ((h.calls q').described i' t' ht').congr (fun hl' => hne _ fun hjob => hf ?_) ?_
        · exact congrArg Task.future
            (h.task_unique (List.mem_of_getElem? ht') (List.mem_of_getElem? htask) hl' hlive hjob)
        · intro e
          simp [Pool.record, hf]
    · rintro ts job hph
      refine hne job ?_
      rintro rfl
      -- the job that is being enqueued is not one of a task
      have hq := ((h.calls q').live (arg f)).mp (by simp [hph, Phase.live])
      rw [((h.calls q).live (arg f)).mp hlive] at hq
      cases hq
      have hnd := (h.calls q).nodup
      have hmem := List.mem_of_getElem? htask
      rw [hph] at hnd hmem
      simp only [Phase.live, List.nodup_append] at hnd
      exact hnd.2.2 _ (List.mem_map_of_mem hmem) _ (List.mem_singleton_self _) rfl
  · by_cases hp : p = arg f
    · subst hp
      rw [((h.calls q).live _).mp hlive]
      simpa using hsome
    · simpa [hne p hp] using h.heap p
  · obtain ⟨N, hN⟩ := h.finite
    refine ⟨max N (arg f + 1), fun p hp => ?_⟩
    simp only [hne p (by omega)]
    exact hN p (by omega)

/-- A worker performs the next operation of `invoke`. -/
theorem work (h : Inv json var input c ph arg standing owner holder) {w : Fin 80} {ch : Choice}
    {heap' : Heap} {pool' : WorkerPool}
    (hst : c.shared.2.work machine w ch c.shared.1 = some (heap', pool')) :
    ∃ standing', Inv json var input { c with shared := (heap', pool') } ph arg standing' owner
      holder := by
  obtain ⟨f, o, k, r, hw, hex, rfl⟩ := Pool.work_cases hst
  obtain ⟨hafter, -, q, i, htask, hlive⟩ := h.running_task hw
  obtain ⟨j, hj, -, -⟩ := ((h.calls q).described i _ htask).job hlive
  change c.shared.1.job (arg f) = some j at hj
  rcases after_invoke hafter with ⟨-, rfl⟩ | ⟨func_name, -, rfl⟩ | ⟨func_name, ret, hlog, rfl⟩
  · simp only [machine, hj, Option.some.injEq, Prod.mk.injEq] at hex
    obtain ⟨rfl, rfl⟩ := hex
    refine ⟨_, h.workOn hw h.fault (fun _ _ => rfl) (by simp [hj]) fun q' i' ht' => ?_⟩
    have hd := (h.calls q').described i' _ ht'
    have hl' : arg f ∈ (ph q').live := by
      have hq := ((h.calls q').slots i' _).mp ht'
      have hq₀ := ((h.calls q).slots i _).mp htask
      rw [hq₀] at hq
      cases hq
      exact hlive
    refine ⟨fun nm hmem => ?_, fun hl => ?_⟩
    · rcases List.mem_append.mp hmem with hmem | hmem
      · exact hd.name nm hmem
      · obtain ⟨j', hj', hname, -⟩ := hd.job hl'
        change c.shared.1.job (arg f) = some j' at hj'
        rw [hj] at hj'
        cases hj'
        simp only [List.mem_singleton, Prod.mk.injEq, Sigma.mk.injEq, true_and] at hmem
        rw [eq_of_heq hmem]
        exact hname
    · obtain ⟨j', hj', hname, hflag⟩ := hd.job hl
      exact ⟨j', hj', hname, fun b hb => hflag b (by simpa using hb)⟩
  · simp only [machine, Option.some.injEq, Prod.mk.injEq] at hex
    obtain ⟨rfl, rfl⟩ := hex
    refine ⟨_, h.workOn hw h.fault (fun _ _ => rfl) (by simp [hj]) fun q' i' ht' => ?_⟩
    have hd := (h.calls q').described i' _ ht'
    refine ⟨fun nm hmem => hd.name nm (by simpa using hmem), fun hl => ?_⟩
    obtain ⟨j', hj', hname, hflag⟩ := hd.job hl
    exact ⟨j', hj', hname, fun b hb => hflag b (by simpa using hb)⟩
  · simp only [machine, hj, Option.some.injEq, Prod.mk.injEq] at hex
    obtain ⟨-, rfl⟩ := hex
    refine ⟨_, h.workOn hw h.fault (fun p hp => by simp [hp]) (by simp) fun q' i' ht' => ?_⟩
    have hd := (h.calls q').described i' _ ht'
    refine ⟨fun nm hmem => hd.name nm (by simpa using hmem), fun hl => ?_⟩
    obtain ⟨j', hj', hname, -⟩ := hd.job hl
    change c.shared.1.job (arg f) = some j' at hj'
    rw [hj] at hj'
    cases hj'
    refine ⟨_, Function.update_self .., hname, fun b hb => ?_⟩
    rcases List.mem_append.mp hb with hb | hb
    · -- the flag has not been written before
      have := Pool.mem_answers.mpr hb
      simp [hlog] at this
    · simpa [eq_comm] using hb

/-- Every move of a worker keeps the invariant. -/
theorem env (h : Inv json var input c ph arg standing owner holder)
    {m : PoolMove (Fin 80) Choice Empty} (hst : System.step var c (.env m) = some c') :
    ∃ standing', Inv json var input c' ph arg standing' owner holder := by
  obtain ⟨⟨heap', pool'⟩, henv, rfl⟩ := step_env_cases hst
  cases m with
  | take w =>
    obtain ⟨pool₁, htake, heq⟩ := Option.map_eq_some_iff.mp henv
    cases heq
    exact h.take htake
  | work w ch => exact h.work henv
  | finish w =>
    obtain ⟨pool₁, hfinish, heq⟩ := Option.map_eq_some_iff.mp henv
    cases heq
    exact h.finish hfinish
  | env e => exact e.elim

end Inv

/-! ## Steps of the calls -/

section Perform

variable {q : ι} {o : PoolOp ℕ Op} {r : o.Res Op.Res Exn Int32} {s' : Heap × WorkerPool}
  {p : Call Int32}

theorem tasksOf_perform :
    System.tasksOf (c.perform q o r s' p) q = c.tasksOf q ++ (enqueued ⟨o, r⟩).toList := by
  simp only [System.tasksOf, Config.answers, Config.perform, List.filterMap_append]
  cases henq : enqueued ⟨o, r⟩ <;> simp [henq]

theorem outputOf_perform :
    System.outputOf (c.perform q o r s' p) q = c.outputOf q ++ (appended ⟨o, r⟩).toList := by
  simp only [System.outputOf, Config.answers, Config.perform, List.filterMap_append]
  cases happ : appended ⟨o, r⟩ <;> simp [happ]

/-- A call that performs an operation leaves the others where they are. -/
theorem CallInv.other {q' : ι} {ph : Phase} (h : CallInv json input c owner holder q' ph)
    (hq : q' ≠ q) (howner : ∀ f x, owner' f = some (q', x) ↔ owner f = some (q', x))
    (hholder : ∀ p, holder' p = some q' ↔ holder p = some q')
    (hheap : ∀ p, holder p = some q' → s'.1.job p = c.shared.1.job p)
    (hres : s'.2.results = c.shared.2.results) (hlog : s'.2.log = c.shared.2.log) :
    CallInv json input (c.perform q o r s' p) owner' holder' q' ph := by
  refine h.frame ?_ ⟨[⟨q, o, r, c.shared, s'⟩], rfl, ?_⟩ howner hholder hheap ?_ hlog
  · simp [Config.perform, hq]
  · simpa using hq.symm
  · intro f out hf
    change s'.2.results f = some out
    rw [hres]
    exact hf

/-- The reads of a call stay proper when its tasks stay what they are. -/
theorem CallInv.reads_perform {ph ph₁ : Phase} (h : CallInv json input c owner holder q ph)
    (htasks : ph.tasks ⊆ ph₁.tasks)
    (hread : ∀ job, o = .base (.succeed job) → ∃ t ∈ ph.tasks, t.job = job ∧ Finished c.shared.2 t) :
    ∀ e ∈ (c.perform q o r s' p).trace, e.thread = q → ∀ job, e.op = .base (.succeed job) →
      ∃ t ∈ ph₁.tasks, t.job = job ∧ Finished e.pre.2 t := by
  intro e he hq job hop
  rcases List.mem_append.mp he with he | he
  · obtain ⟨t, ht, hjob, hfin⟩ := h.reads e he hq job hop
    exact ⟨t, htasks ht, hjob, hfin⟩
  · obtain rfl := List.mem_singleton.mp he
    obtain ⟨t, ht, hjob, hfin⟩ := hread job hop
    exact ⟨t, htasks ht, hjob, hfin⟩

omit [DecidableEq ι] in
/-- An entry that is overwritten is none of those with the value `a`, before and after. -/
theorem update_eq_some_iff_of_ne {α : Type} {g : ℕ → Option α} {x : ℕ} {o : Option α} {a : α}
    (hold : g x ≠ some a) (hnew : o ≠ some a) (y : ℕ) : Function.update g x o y = some a ↔ g y = some a := by
  by_cases hy : y = x
  · subst hy
    rw [Function.update_self]
    exact iff_of_false hnew hold
  · rw [Function.update_of_ne hy]

namespace CallInv

/-- The call constructs a job where there was none. -/
theorem make {ts : List Task} {job : ℕ} (hc : CallInv json input c owner holder q (.making ts))
    (hruns : (Phase.enqueuing ts job).Runs json (input q) p) (hnone : holder job = none) :
    CallInv json input
      (c.perform q (.base (.makeJob (auditName ts.length))) job
        ({ c.shared.1 with
            job := Function.update c.shared.1.job job (some ⟨auditName ts.length, false⟩) },
          c.shared.2) p) owner (Function.update holder job (some q)) q (.enqueuing ts job) := by
  have hnew : job ∉ ts.map Task.job := by
    intro hmem
    have hheld := (hc.live job).mp hmem
    rw [hnone] at hheld
    cases hheld
  refine ⟨?_, trivial, ?_, ?_, hc.slots, ?_, hc.jobs, ?_, ?_, ?_, ?_, ?_⟩
  · simpa [Config.perform] using hruns
  · rw [tasksOf_perform, hc.tasks]
    exact List.append_nil _
  · rw [outputOf_perform, hc.output]
    exact List.append_nil _
  · refine List.nodup_append.mpr ⟨hc.nodup, List.nodup_singleton _, ?_⟩
    intro a ha b hb
    obtain rfl := List.mem_singleton.mp hb
    rintro rfl
    exact hnew ha
  · intro p'
    have hl := hc.live p'
    simp only [Phase.live, Phase.tasks] at hl
    by_cases hp : p' = job
    · subst hp
      simp [Phase.live]
    · simp only [Phase.live, List.mem_append, hl, List.mem_singleton, hp, or_false,
        Function.update_of_ne hp]
  · intro t ht _
    exact List.mem_append_left _ (List.mem_map_of_mem ht)
  · intro k t ht
    have hd := hc.described k t ht
    have hmem : t.job ∈ ts.map Task.job := List.mem_map_of_mem (List.mem_of_getElem? ht)
    refine ⟨hd.name, fun _ => ?_⟩
    obtain ⟨j, hj, hname, hflag⟩ := hd.job hmem
    have hne : t.job ≠ job := fun heq => hnew (heq ▸ hmem)
    exact ⟨j, (Function.update_of_ne hne ..).trans hj, hname, hflag⟩
  · intro us job' heq
    cases heq
    exact Function.update_self ..
  · exact hc.reads_perform (fun _ ht => ht) (by simp)

/-- The new task has the slot behind those of the earlier rounds. -/
theorem slots_enqueue {ts : List Task} {job f : ℕ} (hc : CallInv json input c owner holder q (.enqueuing ts job))
    (hunissued : owner f = none) (k : ℕ) (t : Task) :
    (ts ++ [⟨job, f⟩])[k]? = some t ↔
      Function.update owner f (some (q, ts.length, job)) t.future = some (q, k, t.job) := by
  have hslot : ts[k]? = some t ↔ owner t.future = some (q, k, t.job) := hc.slots k t
  by_cases ht : t.future = f
  · rw [ht, hunissued] at hslot
    have hold : ts[k]? ≠ some t := fun hk => nomatch hslot.mp hk
    rw [ht, Function.update_self, List.getElem?_append]
    split
    next hk =>
      refine iff_of_false hold fun heq => ?_
      cases heq
      exact absurd hk (lt_irrefl _)
    next hk =>
      obtain ⟨m, rfl⟩ := Nat.exists_eq_add_of_le (not_lt.mp hk)
      cases m with
      | zero =>
        cases t
        simp_all [eq_comm]
      | succ m => simp
  · rw [Function.update_of_ne ht, ← hslot, List.getElem?_append]
    split
    · rfl
    next hk =>
      rw [List.getElem?_eq_none (not_lt.mp hk)]
      refine iff_of_false (fun hmem => ?_) nofun
      obtain rfl := List.mem_singleton.mp (List.mem_of_getElem? hmem)
      exact ht rfl

/-- The call hands a job to the pool. -/
theorem enqueue {ts : List Task} {job n f : ℕ} (hc : CallInv json input c owner holder q (.enqueuing ts job))
    (hruns : (Phase.round n (ts ++ [⟨job, f⟩])).Runs json (input q) p) (hunissued : owner f = none)
    (hlog : ∀ e, (f, e) ∉ c.shared.2.log) :
    CallInv json input (c.perform q (.enqueue job) (some f) (c.shared.1, c.shared.2.push job) p)
      (Function.update owner f (some (q, ts.length, job))) holder q (.round n (ts ++ [⟨job, f⟩])) := by
  refine ⟨?_, Phase.sound_round, ?_, ?_, ?_, ?_, ?_, ?_, ?_, ?_, ?_, ?_⟩
  · simpa [Config.perform] using hruns
  · rw [tasksOf_perform, hc.tasks, Phase.tasks_round]
    rfl
  · rw [outputOf_perform, hc.output, Phase.output_round]
    rfl
  · rw [Phase.tasks_round]
    exact hc.slots_enqueue hunissued
  · rw [Phase.live_round, List.map_append]
    exact hc.nodup
  · rw [Phase.tasks_round, List.map_append]
    exact hc.nodup
  · rw [Phase.live_round, List.map_append]
    exact hc.live
  · intro t ht _
    rw [Phase.tasks_round] at ht
    rw [Phase.live_round]
    exact List.mem_map_of_mem ht
  · intro k t ht
    rw [Phase.tasks_round, List.getElem?_append] at ht
    rw [Phase.live_round, List.map_append]
    split at ht
    · exact hc.described k t ht
    next hk =>
      obtain ⟨m, rfl⟩ := Nat.exists_eq_add_of_le (not_lt.mp hk)
      cases m with
      | succ m => simp at ht
      | zero =>
        -- nothing has been logged for the new future
        obtain rfl : Task.mk job f = t := by simpa using ht
        refine ⟨fun nm hmem => absurd hmem (hlog _), fun _ => ?_⟩
        exact ⟨_, hc.made ts job rfl, rfl, fun b hb => absurd hb (hlog _)⟩
  · exact fun us job' heq => absurd heq Phase.round_ne_enqueuing
  · exact hc.reads_perform (by rw [Phase.tasks_round]; exact List.subset_append_left _ _) (by simp)

/-- The call destroys a job. -/
theorem release {freed rest : List Task} {t : Task} {code : Int32}
    (hc : CallInv json input c owner holder q (.releasing freed t rest code))
    (hruns : (Phase.free (freed ++ [t]) rest code).Runs json (input q) p) :
    CallInv json input
      (c.perform q (.base (.release t.job)) ()
        ({ c.shared.1 with job := Function.update c.shared.1.job t.job none }, c.shared.2) p)
      owner (Function.update holder t.job none) q (.free (freed ++ [t]) rest code) := by
  have hsound : Concluded c.shared.2 (freed ++ t :: rest) code := hc.sound
  have hnd : t.job ∉ rest.map Task.job ∧ (rest.map Task.job).Nodup := List.nodup_cons.mp hc.nodup
  have htasks : (Phase.free (freed ++ [t]) rest code).tasks = freed ++ t :: rest := by simp
  refine ⟨?_, Phase.sound_free ?_, ?_, ?_, ?_, ?_, ?_, ?_, ?_, ?_, ?_, ?_⟩
  · simpa [Config.perform] using hruns
  · rw [List.append_assoc]
    exact hsound
  · rw [tasksOf_perform, hc.tasks, htasks]
    exact List.append_nil _
  · rw [outputOf_perform, hc.output, Phase.output_free]
    exact List.append_nil _
  · rw [htasks]
    exact hc.slots
  · rw [Phase.live_free]
    exact hnd.2
  · rw [htasks]
    exact hc.jobs
  · intro p'
    have hl := hc.live p'
    simp only [Phase.live, List.map_cons, List.mem_cons] at hl
    rw [Phase.live_free]
    by_cases hp : p' = t.job
    · rw [hp, Function.update_self]
      simp only [hnd.1, reduceCtorEq]
    · rw [Function.update_of_ne hp, ← hl]
      simp only [hp, false_or]
  · intro u hu hfin
    rw [htasks] at hu
    exact absurd (hsound.1 u hu) hfin
  · intro k u hu
    rw [htasks] at hu
    have hd := hc.described k u hu
    refine ⟨hd.name, fun hl => ?_⟩
    rw [Phase.live_free] at hl
    obtain ⟨j, hj, hname, hflag⟩ := hd.job (List.mem_cons_of_mem _ hl)
    have hne : u.job ≠ t.job := fun heq => hnd.1 (heq ▸ hl)
    exact ⟨j, (Function.update_of_ne hne ..).trans hj, hname, hflag⟩
  · exact fun us job' heq => absurd heq Phase.free_ne_enqueuing
  · exact hc.reads_perform (by rw [htasks]; exact fun _ ht => ht) (by simp)

end CallInv

namespace Inv

/-- A call performs an operation that changes neither the heap nor the pool. -/
theorem advance (h : Inv json var input c ph arg standing owner holder) {ph₁ : Phase}
    (hruns : ph₁.Runs json (input q) p) (hsound : ph₁.Sound c.shared.2)
    (htasks : ph₁.tasks = (ph q).tasks) (hlive : ph₁.live = (ph q).live)
    (henq : enqueued ⟨o, r⟩ = none)
    (hout : ph₁.output = (ph q).output ++ (appended ⟨o, r⟩).toList)
    (hne : ∀ ts job, ph₁ ≠ .enqueuing ts job)
    (hread : ∀ job, o = .base (.succeed job) →
      ∃ t ∈ (ph q).tasks, t.job = job ∧ Finished c.shared.2 t) :
    Inv json var input (c.perform q o r c.shared p) (Function.update ph q ph₁) arg standing owner
      holder := by
  refine ⟨h.pool, h.stop, h.fault, fun q' => ?_, h.issued, h.arg, h.heap, h.finite⟩
  by_cases hq : q' = q
  · subst hq
    have hc := h.calls q'
    rw [Function.update_self]
    refine ⟨?_, hsound, ?_, ?_, ?_, ?_, ?_, ?_, ?_, ?_, ?_, ?_⟩
    · simpa [Config.perform] using hruns
    · rw [tasksOf_perform, henq, hc.tasks, htasks]
      exact List.append_nil _
    · rw [outputOf_perform, hc.output, hout]
    · rw [htasks]
      exact hc.slots
    · rw [hlive]
      exact hc.nodup
    · rw [htasks]
      exact hc.jobs
    · rw [hlive]
      exact hc.live
    · rw [htasks, hlive]
      exact hc.held
    · rw [htasks, hlive]
      exact hc.described
    · exact fun ts job hph => absurd hph (hne ts job)
    · exact hc.reads_perform (by rw [htasks]; exact fun _ ht => ht) hread
  · rw [Function.update_of_ne hq]
    exact (h.calls q').other hq (fun _ _ => Iff.rfl) (fun _ => Iff.rfl) (fun _ _ => rfl) rfl rfl

/-- A job is constructed where there was none. -/
theorem make (h : Inv json var input c ph arg standing owner holder) {ts : List Task} {job : ℕ}
    (hph : ph q = .making ts) (hruns : (Phase.enqueuing ts job).Runs json (input q) p)
    (hfree : c.shared.1.job job = none) :
    Inv json var input
      (c.perform q (.base (.makeJob (auditName ts.length))) job
        ({ c.shared.1 with
            job := Function.update c.shared.1.job job (some ⟨auditName ts.length, false⟩) },
          c.shared.2) p)
      (Function.update ph q (.enqueuing ts job)) arg standing owner
      (Function.update holder job (some q)) := by
  have hnone : holder job = none := by
    have := h.heap job
    simpa [hfree] using this
  refine ⟨h.pool, h.stop, h.fault, fun q' => ?_, h.issued, h.arg, fun p' => ?_, ?_⟩
  · by_cases hq : q' = q
    · subst hq
      rw [Function.update_self]
      exact (hph ▸ h.calls q').make hruns hnone
    · rw [Function.update_of_ne hq]
      refine (h.calls q').other hq (fun _ _ => Iff.rfl) ?_ (fun p' hp' => ?_) rfl rfl
      · exact update_eq_some_iff_of_ne (by simp [hnone]) (by simpa using Ne.symm hq)
      · refine Function.update_of_ne ?_ ..
        rintro rfl
        rw [hnone] at hp'
        cases hp'
  · by_cases hp : p' = job
    · subst hp
      simp [Config.perform]
    · simpa [Config.perform, hp] using h.heap p'
  · obtain ⟨N, hN⟩ := h.finite
    refine ⟨max N (job + 1), fun p' hp' => ?_⟩
    exact (Function.update_of_ne (by omega) ..).trans (hN p' (by omega))

/-- Nothing has been logged for a future that has not been handed out. -/
theorem notMem_log_next (h : Inv json var input c ph arg standing owner holder) (e : (o : Op) × o.Res) :
    (c.shared.2.next, e) ∉ c.shared.2.log := by
  intro he
  have hstands := (h.pool.stands c.shared.2.next).log
  rw [h.pool.standing_next] at hstands
  have hnil : Pool.answers c.shared.2.next c.shared.2.log = [] := hstands
  have hmem := Pool.mem_answers.mpr he
  rw [hnil] at hmem
  cases hmem

/-- A job is handed to the pool. -/
theorem enqueue (h : Inv json var input c ph arg standing owner holder) {ts : List Task} {job n : ℕ}
    (hph : ph q = .enqueuing ts job)
    (hruns : (Phase.round n (ts ++ [⟨job, c.shared.2.next⟩])).Runs json (input q) p) :
    Inv json var input
      (c.perform q (.enqueue job) (some c.shared.2.next) (c.shared.1, c.shared.2.push job) p)
      (Function.update ph q (.round n (ts ++ [⟨job, c.shared.2.next⟩])))
      (Function.update arg c.shared.2.next job) (Function.update standing c.shared.2.next .queued)
      (Function.update owner c.shared.2.next (some (q, ts.length, job))) holder := by
  have hunissued : owner c.shared.2.next = none := by
    have := h.issued c.shared.2.next
    simpa using this
  refine ⟨h.pool.push job, h.stop, h.fault, fun q' => ?_, fun g => ?_, ?_, h.heap, h.finite⟩
  · by_cases hq : q' = q
    · subst hq
      rw [Function.update_self]
      exact (hph ▸ h.calls q').enqueue hruns hunissued h.notMem_log_next
    · rw [Function.update_of_ne hq]
      refine (h.calls q').other hq (fun g x => ?_) (fun _ => Iff.rfl) (fun _ _ => rfl) rfl rfl
      exact update_eq_some_iff_of_ne (by simp [hunissued]) (by simp [Ne.symm hq]) g
  · change _ ↔ g < c.shared.2.next + 1
    by_cases hg : g = c.shared.2.next
    · rw [hg, Function.update_self]
      simp
    · rw [Function.update_of_ne hg, h.issued]
      omega
  · intro g q' k p' hown
    by_cases hg : g = c.shared.2.next
    · rw [hg, Function.update_self] at hown
      cases hown
      rw [hg, Function.update_self]
    · rw [Function.update_of_ne hg] at hown ⊢
      exact h.arg g q' k p' hown

/-- A job is destroyed. -/
theorem release (h : Inv json var input c ph arg standing owner holder) {freed rest : List Task}
    {t : Task} {code : Int32} (hph : ph q = .releasing freed t rest code)
    (hruns : (Phase.free (freed ++ [t]) rest code).Runs json (input q) p) :
    Inv json var input
      (c.perform q (.base (.release t.job)) ()
        ({ c.shared.1 with job := Function.update c.shared.1.job t.job none }, c.shared.2) p)
      (Function.update ph q (.free (freed ++ [t]) rest code)) arg standing owner
      (Function.update holder t.job none) := by
  have hholder : holder t.job = some q := ((h.calls q).live _).mp (by simp [hph, Phase.live])
  refine ⟨h.pool, h.stop, h.fault, fun q' => ?_, h.issued, h.arg, fun p' => ?_, ?_⟩
  · by_cases hq : q' = q
    · subst hq
      rw [Function.update_self]
      exact (hph ▸ h.calls q').release hruns
    · rw [Function.update_of_ne hq]
      refine (h.calls q').other hq (fun _ _ => Iff.rfl) ?_ (fun p' hp' => ?_) rfl rfl
      · exact update_eq_some_iff_of_ne (by simpa [hholder] using Ne.symm hq) nofun
      · refine Function.update_of_ne ?_ ..
        rintro rfl
        rw [hholder] at hp'
        exact hq (Option.some.inj hp').symm
  · by_cases hp : p' = t.job
    · simp [Config.perform, hp]
    · simpa [Config.perform, hp] using h.heap p'
  · obtain ⟨N, hN⟩ := h.finite
    refine ⟨N, fun p' hp' => ?_⟩
    by_cases hp : p' = t.job
    · simp [Config.perform, hp]
    · exact (Function.update_of_ne hp ..).trans (hN p' hp')

/-- The task of a future that is set has been executed once. -/
theorem executed (h : Inv json var input c ph arg standing owner holder) {f : ℕ}
    {out : Except Exn Int32} (hres : c.shared.2.results f = some out) :
    out = .ok 0 ∧ ∃ func_name ret, Pool.answers f c.shared.2.log =
      [⟨.funcName (arg f), func_name⟩,
        ⟨.invoke func_name (ascii "2") (chooseMessagePassingMethod var), ret⟩,
        ⟨.setSucceed (arg f) (ret ≠ -1), ()⟩] := by
  have hst := h.pool.stands f
  have hlog := hst.log
  rw [(hst.results out).mp hres] at hlog
  exact path_invoke hlog

/-- The flag of a finished task says how its invocation returned. -/
theorem flag (h : Inv json var input c ph arg standing owner holder) {t : Task}
    (ht : t ∈ (ph q).tasks) (hl : t.job ∈ (ph q).live) (hfin : Finished c.shared.2 t) :
    ∃ ret j, Returned c.shared.2 t ret ∧ c.shared.1.job t.job = some j ∧
      j.succeed = decide (ret ≠ -1) := by
  obtain ⟨k, hk⟩ := List.getElem?_of_mem ht
  obtain ⟨out, hout⟩ := Option.isSome_iff_exists.mp hfin
  obtain ⟨-, func_name, ret, hans⟩ := h.executed hout
  have harg : arg t.future = t.job := h.arg _ q k _ (((h.calls q).slots k t).mp hk)
  obtain ⟨j, hj, -, hflag⟩ := ((h.calls q).described k t hk).job hl
  refine ⟨ret, j, ⟨func_name, ascii "2", chooseMessagePassingMethod var, Pool.mem_answers.mp ?_⟩, hj, hflag _ ?_⟩
  · rw [hans]
    simp
  · rw [← harg]
    refine Pool.mem_answers.mp ?_
    rw [hans]
    simp

/-- A call that checks a finished task reads from its job whether the invocation has succeeded. -/
theorem reads_flag (h : Inv json var input c ph arg standing owner holder) {ch : Choice}
    {passed rest : List Task} {t : Task} {succeed : Bool} (hph : ph q = .checking passed t rest)
    (hfin : Finished c.shared.2 t)
    (hex : (machine.withPool (invoke var)).exec (.base (.succeed t.job)) ch c.shared = some (succeed, s')) :
    t ∈ (ph q).tasks ∧ s' = c.shared ∧ ∃ ret, Returned c.shared.2 t ret ∧ succeed = decide (ret ≠ -1) := by
  have hmem : t ∈ (ph q).tasks := by simp [hph, Phase.tasks]
  obtain ⟨ret, j, hret, hj, hflag⟩ := h.flag hmem (by simp [hph, Phase.live, Phase.tasks]) hfin
  obtain ⟨_, hx, rfl⟩ := Pool.exec_base_cases hex
  simp only [machine, hj, Option.some.injEq, Prod.mk.injEq] at hx
  obtain ⟨hsucceed, rfl⟩ := hx
  exact ⟨hmem, rfl, ret, hret, hsucceed.symm.trans hflag⟩

/-- The pool is not stopped and no task throws. -/
theorem regular (h : Inv json var input c ph arg standing owner holder) {ch : Choice}
    (hex : (machine.withPool (invoke var)).exec o ch c.shared = some (r, s')) :
    Phase.Regular ⟨o, r⟩ := by
  cases o with
  | base o => trivial
  | enqueue job =>
    rcases Pool.exec_enqueue_cases hex with ⟨hstop, -, -⟩ | ⟨-, rfl, -⟩
    · rw [h.stop] at hstop
      cases hstop
    · trivial
  | get f =>
    obtain ⟨hout, -⟩ := Pool.exec_get_cases hex
    obtain ⟨rfl, -⟩ := h.executed hout
    trivial

/-- Every step of a call keeps the invariant. -/
theorem run (h : Inv json var input c ph arg standing owner holder) {ch : Choice}
    (hst : System.step var c (.run q ch) = some c') :
    ∃ ph' arg' standing' owner' holder', Inv json var input c' ph' arg' standing' owner' holder' := by
  obtain ⟨o, k, r, s', ho, hex, rfl⟩ := step_run_cases hst
  have hreg := h.regular hex
  have hc := h.calls q
  have hruns := hc.runs
  rw [ho] at hruns
  obtain ⟨n, ph₁, hstep, hruns₁⟩ := hruns.step hreg
  generalize hph : ph q = φ at hstep
  have hsound := hc.sound
  rw [hph] at hsound
  cases hstep with
  | start time =>
    obtain ⟨_, hx, rfl⟩ := Pool.exec_base_cases hex
    cases hx
    exact ⟨_, _, _, _, _, h.advance hruns₁ Phase.sound_round (by rw [hph, Phase.tasks_round]; rfl)
      (by rw [hph, Phase.live_round]; rfl) rfl (by rw [hph, Phase.output_round]; rfl)
      (fun _ _ => Phase.round_ne_enqueuing) (by simp)⟩
  | make ts job =>
    obtain ⟨_, hx, rfl⟩ := Pool.exec_base_cases hex
    simp only [machine] at hx
    split at hx
    · cases hx
    next hfree =>
      cases hx
      exact ⟨_, _, _, _, _, h.make hph hruns₁ hfree⟩
  | enqueue ts job future =>
    rcases Pool.exec_enqueue_cases hex with ⟨-, heq, -⟩ | ⟨-, heq, rfl⟩
    · cases heq
    · cases heq
      exact ⟨_, _, _, _, _, h.enqueue hph hruns₁⟩
  | get got t rest code =>
    obtain ⟨hout, rfl⟩ := Pool.exec_get_cases hex
    refine ⟨_, _, _, _, _, h.advance hruns₁ (Phase.sound_wait ?_)
      (by rw [hph, Phase.tasks_wait, List.append_assoc]; rfl)
      (by rw [hph, Phase.live_wait, List.append_assoc]; rfl) rfl (by rw [hph, Phase.output_wait]; rfl)
      (fun _ _ => Phase.wait_ne_enqueuing) (by simp)⟩
    intro u hu
    rcases List.mem_append.mp hu with hu | hu
    · exact hsound u hu
    · obtain rfl := List.mem_singleton.mp hu
      exact Option.isSome_iff_exists.mpr ⟨_, hout⟩
  | pass passed t rest =>
    have hfin := hsound.1 t (by simp)
    obtain ⟨hmem, rfl, ret, hret, hflag⟩ := h.reads_flag hph hfin hex
    refine ⟨_, _, _, _, _, h.advance hruns₁ (Phase.sound_check ?_ ?_)
      (by rw [hph, Phase.tasks_check, List.append_assoc]; rfl)
      (by rw [hph, Phase.live_check, List.append_assoc]; rfl) rfl (by rw [hph, Phase.output_check]; rfl)
      (fun _ _ => Phase.check_ne_enqueuing) ?_⟩
    · rw [List.append_assoc]
      exact hsound.1
    · intro u hu
      rcases List.mem_append.mp hu with hu | hu
      · exact hsound.2 u hu
      · obtain rfl := List.mem_singleton.mp hu
        exact ⟨ret, of_decide_eq_true hflag.symm, hret⟩
    · rintro job heq
      cases heq
      exact ⟨t, hmem, rfl, hfin⟩
  | fail passed t rest =>
    have hfin := hsound.1 t (by simp)
    obtain ⟨hmem, rfl, ret, hret, hflag⟩ := h.reads_flag hph hfin hex
    refine ⟨_, _, _, _, _, h.advance hruns₁ (Phase.sound_free ?_) (by rw [hph, Phase.tasks_free]; rfl)
      (by rw [hph, Phase.live_free]; rfl) rfl (by rw [hph, Phase.output_free]; rfl)
      (fun _ _ => Phase.free_ne_enqueuing) ?_⟩
    · obtain rfl : ret = -1 := by simpa using hflag
      exact ⟨hsound.1, .inr ⟨rfl, t, by simp, hret⟩⟩
    · rintro job heq
      cases heq
      exact ⟨t, hmem, rfl, hfin⟩
  | stamp ts time text =>
    obtain ⟨_, hx, rfl⟩ := Pool.exec_base_cases hex
    cases hx
    exact ⟨_, _, _, _, _, h.advance hruns₁ hsound (by rw [hph]; rfl)
      (by rw [hph]; rfl) rfl (by rw [hph]; rfl) (by rintro _ _ ⟨⟩)
      (by simp)⟩
  | print ts text =>
    obtain ⟨_, hx, rfl⟩ := Pool.exec_base_cases hex
    cases hx
    exact ⟨_, _, _, _, _, h.advance hruns₁ hsound (by rw [hph]; rfl)
      (by rw [hph]; rfl) rfl (by rw [hph]; rfl) (by rintro _ _ ⟨⟩)
      (by simp)⟩
  | append ts =>
    obtain ⟨_, hx, rfl⟩ := Pool.exec_base_cases hex
    cases hx
    exact ⟨_, _, _, _, _, h.advance hruns₁ (Phase.sound_free ⟨hsound.1, .inl ⟨rfl, hsound.2⟩⟩)
      (by rw [hph, Phase.tasks_free]; rfl) (by rw [hph, Phase.live_free]; rfl) rfl
      (by rw [hph, Phase.output_free]; rfl) (fun _ _ => Phase.free_ne_enqueuing) (by simp)⟩
  | release freed t rest code =>
    have hsome : (c.shared.1.job t.job).isSome := by
      rw [h.heap, (hc.live _).mp (by simp [hph, Phase.live])]
      rfl
    obtain ⟨j, hj⟩ := Option.isSome_iff_exists.mp hsome
    obtain ⟨_, hx, rfl⟩ := Pool.exec_base_cases hex
    simp only [machine, hj, Option.some.injEq, Prod.mk.injEq, true_and] at hx
    subst hx
    exact ⟨_, _, _, _, _, h.release hph hruns₁⟩

end Inv

end Perform

/-- The invariant holds in every reachable state. -/
theorem exists_inv (h : Reachable json var input c) :
    ∃ ph arg standing owner holder, Inv json var input c ph arg standing owner holder := by
  refine h.invariant
    (J := fun c => ∃ ph arg standing owner holder, Inv json var input c ph arg standing owner holder)
    ?_ ?_
  · choose ph hph hruns using fun q => Phase.runs_initial json (input q)
    refine ⟨ph, fun _ => 0, fun _ => .unissued, fun _ => none, fun _ => none,
      Pool.inv_initial _, rfl, rfl, fun q => ?_, by simp [System.initial, Config.initial, Pool.initial],
      by simp, by simp [System.initial, Config.initial, Heap.empty], 0, fun _ _ => rfl⟩
    have hempty : (ph q).tasks = [] ∧ (ph q).live = [] ∧ (ph q).output = [] ∧
        ∀ ts job, ph q ≠ .enqueuing ts job := by
      rcases hph q with hq | hq <;> rw [hq] <;> exact ⟨rfl, rfl, rfl, by rintro _ _ ⟨⟩⟩
    have hsound : (ph q).Sound (System.initial json input).shared.2 := by
      rcases hph q with hq | hq <;> rw [hq] <;> trivial
    obtain ⟨htasks, hlive, hout, hne⟩ := hempty
    exact ⟨hruns q, hsound, by rw [htasks]; rfl, by rw [hout]; rfl, by simp [htasks],
      by simp [hlive], by simp [htasks], by simp [hlive], by simp [htasks], by simp [htasks],
      fun ts job heq => absurd heq (hne ts job), by simp [System.initial, Config.initial]⟩
  · rintro c c' (⟨q, ch⟩ | m) ⟨ph, arg, standing, owner, holder, hinv⟩ - hst
    · exact hinv.run hst
    · obtain ⟨standing', hinv'⟩ := hinv.env hst
      exact ⟨ph, arg, standing', owner, holder, hinv'⟩

end Inv

end FanOut
