import Fuyao.FanOut.Proofs.FanOutProofs

/-!
# Proofs: what a request gets from its audits

Read off from the invariant: how often each audit has been invoked for a request, how its call ends, and
that it does end. The operations logged for a future are a beginning of one execution of `invoke`, so
that its audit is invoked at most once, and exactly once when the future is set.
-/

namespace FanOut

open Cpp Concurrency

variable {ι Doc : Type} [DecidableEq ι] {json : JsonLib Doc} {var : Option Bytes} {input : ι → Bytes}
  {c : System ι} {ph : ι → Phase} {arg : ℕ → ℕ}
  {standing : ℕ → Standing (Fin 80) Op Op.Res Exn Int32} {owner : ℕ → Option (ι × ℕ × ℕ)}
  {holder : ℕ → Option ι}

/-! ## Invocations -/

/-- The operations of one execution of `invoke`. -/
def execution (var : Option Bytes) (job : ℕ) (func_name : Bytes) (ret : Int32) :
    List ((o : Op) × o.Res) :=
  [⟨.funcName job, func_name⟩, ⟨.invoke func_name (ascii "2") (chooseMessagePassingMethod var), ret⟩,
    ⟨.setSucceed job (ret ≠ -1), ()⟩]

theorem after_prefix {job : ℕ} {es : List ((o : Op) × o.Res)} {p : Prog Op Op.Res Exn Int32}
    (h : (invoke var job).After es p) : ∃ func_name ret, es <+: execution var job func_name ret := by
  rcases Prog.After.op_cases h with ⟨rfl, -⟩ | ⟨func_name, es₁, rfl, h₁⟩
  · exact ⟨[], 0, List.nil_prefix⟩
  rcases Prog.After.op_cases h₁ with ⟨rfl, -⟩ | ⟨ret, es₂, rfl, h₂⟩
  · exact ⟨func_name, 0, _, rfl⟩
  rcases Prog.After.op_cases h₂ with ⟨rfl, -⟩ | ⟨_, es₃, rfl, h₃⟩
  · exact ⟨func_name, ret, _, rfl⟩
  · obtain ⟨rfl, -⟩ := Prog.After.ret_cases h₃
    exact ⟨func_name, ret, _, rfl⟩

namespace Inv

/-- What has been logged for a future is the beginning of one execution. -/
theorem answers_prefix (h : Inv json var input c ph arg standing owner holder) (f : ℕ) :
    ∃ func_name ret, Pool.answers f c.shared.2.log <+: execution var (arg f) func_name ret := by
  have hlog := (h.pool.stands f).log
  cases hst : standing f with
  | unissued =>
    rw [hst] at hlog
    exact ⟨[], 0, (show Pool.answers f c.shared.2.log = [] from hlog) ▸ List.nil_prefix⟩
  | queued =>
    rw [hst] at hlog
    exact ⟨[], 0, (show Pool.answers f c.shared.2.log = [] from hlog) ▸ List.nil_prefix⟩
  | running w p =>
    rw [hst] at hlog
    exact after_prefix hlog
  | done out =>
    rw [hst] at hlog
    obtain ⟨-, func_name, ret, heq⟩ := path_invoke hlog
    exact ⟨func_name, ret, heq ▸ List.prefix_refl _⟩

/-- An invocation for a task of a request is that of the audit of its round. -/
theorem invocation_eq (h : Inv json var input c ph arg standing owner holder) {q : ι} {k : ℕ} {t : Task}
    (ht : (ph q).tasks[k]? = some t) {e : (o : Op) × o.Res} (he : (t.future, e) ∈ c.shared.2.log)
    {v : Invocation} (hv : invocation e = some v) : v.func_name = auditName k := by
  obtain ⟨func_name, ret, tail, hexec⟩ := h.answers_prefix t.future
  have harg : arg t.future = t.job := h.arg _ q k _ (((h.calls q).slots k t).mp ht)
  have hmem := Pool.mem_answers.mpr he
  have hin : e ∈ execution var (arg t.future) func_name ret := hexec ▸ List.mem_append_left _ hmem
  simp only [execution, List.mem_cons, List.not_mem_nil, or_false] at hin
  rcases hin with rfl | rfl | rfl
  · cases hv
  · cases hv
    -- the name was read from the job before the invocation
    refine ((h.calls q).described k t ht).name func_name (Pool.mem_answers.mp ?_)
    rw [← harg]
    cases hans : Pool.answers t.future c.shared.2.log with
    | nil => simp [hans] at hmem
    | cons e es =>
      rw [hans, execution, List.cons_append, List.cons.injEq] at hexec
      rw [hexec.1]
      exact List.mem_cons_self ..
  · cases hv

/-- The invocations for a request are those of its tasks. -/
theorem mem_invocationsOf (h : Inv json var input c ph arg standing owner holder) {q : ι}
    {v : Invocation} : v ∈ c.invocationsOf q ↔
      ∃ t ∈ (ph q).tasks, ∃ e, (t.future, e) ∈ c.shared.2.log ∧ invocation e = some v := by
  rw [System.invocationsOf, (h.calls q).tasks, List.mem_filterMap]
  constructor
  · rintro ⟨⟨f, e⟩, hmem, hv⟩
    obtain ⟨hf, hv⟩ := Option.ite_none_right_eq_some.mp hv
    obtain ⟨t, ht, rfl⟩ := List.mem_map.mp hf
    exact ⟨t, ht, e, hmem, hv⟩
  · rintro ⟨t, ht, e, hmem, hv⟩
    exact ⟨(t.future, e), hmem, Option.ite_none_right_eq_some.mpr ⟨List.mem_map_of_mem ht, hv⟩⟩

end Inv

/-- Counting the invocations of one name, when exactly those for the future `f` bear it. -/
theorem count_invocations {futures : List ℕ} {f : ℕ} {func_name : Bytes}
    (log : List (ℕ × ((o : Op) × o.Res))) (hf : f ∈ futures)
    (h : ∀ x ∈ log, x.1 ∈ futures → ∀ v, invocation x.2 = some v →
      (v.func_name = func_name ↔ x.1 = f)) :
    ((log.filterMap fun x => if x.1 ∈ futures then invocation x.2 else none).map
      Invocation.func_name).count func_name = ((Pool.answers f log).filterMap invocation).length := by
  induction log with
  | nil => rfl
  | cons x log ih =>
    have ih := ih fun y hy => h y (List.mem_cons_of_mem _ hy)
    have hx := h x (List.mem_cons_self ..)
    simp only [Pool.answers, List.filterMap_cons] at ih ⊢
    by_cases hmem : x.1 ∈ futures
    · cases hv : invocation x.2 with
      | none => by_cases hxf : x.1 = f <;> simp [hmem, hv, hxf, hf, ih]
      | some v =>
        have hiff := hx hmem v hv
        by_cases hxf : x.1 = f
        · have hname := hiff.mpr hxf
          simp [hv, hxf, hf, hname, ih]
        · have hname : v.func_name ≠ func_name := fun heq => hxf (hiff.mp heq)
          simp [hmem, hxf, List.count_cons_of_ne hname, ih]
    · have hxf : x.1 ≠ f := fun heq => hmem (heq ▸ hf)
      simp [hmem, hxf, ih]

namespace Inv

/-- How often the audit of a round has been invoked for a request. -/
theorem count_auditName (h : Inv json var input c ph arg standing owner holder) {q : ι} {k : ℕ}
    {t : Task} (ht : (ph q).tasks[k]? = some t) :
    ((c.invocationsOf q).map Invocation.func_name).count (auditName k) =
      ((Pool.answers t.future c.shared.2.log).filterMap invocation).length := by
  rw [System.invocationsOf, (h.calls q).tasks]
  refine count_invocations _ (List.mem_map_of_mem (List.mem_of_getElem? ht)) ?_
  rintro ⟨f, e⟩ hmem hf v hv
  obtain ⟨u, hu, rfl⟩ := List.mem_map.mp hf
  obtain ⟨i, hi⟩ := List.getElem?_of_mem hu
  rw [h.invocation_eq hi hmem hv]
  constructor
  · intro hname
    obtain rfl := auditName_injective hname
    rw [ht] at hi
    rw [Option.some.inj hi]
  · intro hfut
    have hown := ((h.calls q).slots i u).mp hi
    change u.future = t.future at hfut
    rw [hfut, ((h.calls q).slots k t).mp ht] at hown
    simp only [Option.some.injEq, Prod.mk.injEq, true_and] at hown
    rw [hown.1]

theorem count_le_one (h : Inv json var input c ph arg standing owner holder) (q : ι) (k : ℕ) :
    ((c.invocationsOf q).map Invocation.func_name).count (auditName k) ≤ 1 := by
  cases ht : (ph q).tasks[k]? with
  | some t =>
    rw [h.count_auditName ht]
    obtain ⟨func_name, ret, hpre⟩ := h.answers_prefix t.future
    exact (hpre.sublist.filterMap invocation).length_le
  | none =>
    refine (List.count_eq_zero.mpr ?_).le.trans (Nat.zero_le _)
    intro hmem
    obtain ⟨v, hv, hname⟩ := List.mem_map.mp hmem
    obtain ⟨t, htask, e, he, hinv⟩ := h.mem_invocationsOf.mp hv
    obtain ⟨i, hi⟩ := List.getElem?_of_mem htask
    rw [h.invocation_eq hi he hinv] at hname
    obtain rfl := auditName_injective hname
    rw [ht] at hi
    cases hi

theorem count_eq_one (h : Inv json var input c ph arg standing owner holder) {q : ι} {k : ℕ} {t : Task}
    (ht : (ph q).tasks[k]? = some t) (hfin : Finished c.shared.2 t) :
    ((c.invocationsOf q).map Invocation.func_name).count (auditName k) = 1 := by
  obtain ⟨out, hout⟩ := Option.isSome_iff_exists.mp hfin
  obtain ⟨-, func_name, ret, hans⟩ := h.executed hout
  rw [h.count_auditName ht, hans]
  rfl

/-- A finished task has one return code. -/
theorem returned_unique (h : Inv json var input c ph arg standing owner holder) {t : Task}
    (hfin : Finished c.shared.2 t) {ret ret' : Int32} (hr : Returned c.shared.2 t ret)
    (hr' : Returned c.shared.2 t ret') : ret = ret' := by
  obtain ⟨out, hout⟩ := Option.isSome_iff_exists.mp hfin
  obtain ⟨-, func_name, ret₀, hans⟩ := h.executed hout
  have hone : ∀ {r}, Returned c.shared.2 t r → r = ret₀ := by
    rintro r ⟨nm, payload, method, hmem⟩
    have := Pool.mem_answers.mpr hmem
    rw [hans] at this
    simp only [List.mem_cons, Sigma.mk.injEq, reduceCtorEq, false_and, List.not_mem_nil, or_false,
      false_or, Op.invoke.injEq] at this
    exact eq_of_heq this.2
  rw [hone hr, hone hr']

end Inv

/-- An invocation that returned `ret` is one whose task returned `ret`. -/
theorem returned_iff {pool : WorkerPool} {t : Task} {ret : Int32} :
    Returned pool t ret ↔ ∃ e v, (t.future, e) ∈ pool.log ∧ invocation e = some v ∧ v.ret = ret := by
  constructor
  · rintro ⟨func_name, payload, method, hmem⟩
    exact ⟨_, _, hmem, rfl, rfl⟩
  · rintro ⟨⟨o, r⟩, v, hmem, hv, rfl⟩
    cases o with
    | invoke func_name payload method =>
      cases hv
      exact ⟨func_name, payload, method, hmem⟩
    | _ => cases hv

/-! ## How a call ends -/

theorem Phase.outcome_cases {ph : Phase} {req_id : Int64} {n start_time : ℕ} {out : Except Exn Int32}
    (hfits : ph.Fits n) (h : (ph.resume req_id n start_time).outcome = some out) :
    (∃ ts code, ph = .ended ts code ∧ out = .ok code) ∨ ∃ ts, ph = .aborted ts := by
  cases ph with
  | ended ts code => exact .inl ⟨ts, code, rfl, (Option.some.inj h).symm⟩
  | aborted ts => exact .inr ⟨ts, rfl⟩
  | rejected => exact hfits.elim
  | making ts =>
    obtain ⟨m, hm⟩ : ∃ m, n - ts.length = m + 1 := ⟨n - ts.length - 1, by have := hfits.1; omega⟩
    rw [resume, hm, enqueueJobs, if_neg hfits.2] at h
    cases h
  | _ => cases h

namespace Inv

/-- A call for fewer than `2 ^ 31` audits ends in the phase that says so. -/
theorem ended (h : Inv json var input c ph arg standing owner holder) {q : ι}
    {req_id fanout_num : Int64} (hreq : parseRequest json (input q) = .ok (some (req_id, fanout_num)))
    (hlt : fanout_num.toInt < 2 ^ 31) {out : Except Exn Int32}
    (hout : (c.threads q).outcome = some out) :
    ∃ ts code, ph q = .ended ts code ∧ out = .ok code ∧ ts.length = fanout_num.toInt.toNat := by
  have hruns := (h.calls q).runs
  simp only [Phase.Runs, hreq] at hruns
  obtain ⟨hfits, start_time, heq⟩ := hruns
  rw [heq] at hout
  rcases Phase.outcome_cases hfits hout with ⟨ts, code, hph, rfl⟩ | ⟨ts, hph⟩
  · rw [hph] at hfits
    exact ⟨ts, code, hph, rfl, hfits⟩
  · rw [hph] at hfits
    have h₁ : ts.length < fanout_num.toInt.toNat := hfits.1
    have h₂ : ts.length = 2 ^ 31 - 1 := hfits.2
    omega

/-- The code of a call that has ended. -/
theorem code_eq (h : Inv json var input c ph arg standing owner holder) {q : ι} {ts : List Task}
    {code : Int32} (hph : ph q = .ended ts code) :
    code = if ∃ v ∈ c.invocationsOf q, v.ret = -1 then -1 else 0 := by
  have hsound := (h.calls q).sound
  rw [hph] at hsound
  obtain ⟨hfin, hcode⟩ := hsound
  have hiff : (∃ v ∈ c.invocationsOf q, v.ret = -1) ↔ ∃ t ∈ ts, Returned c.shared.2 t (-1) := by
    constructor
    · rintro ⟨v, hv, hret⟩
      obtain ⟨t, ht, e, he, hinv⟩ := h.mem_invocationsOf.mp hv
      rw [hph] at ht
      exact ⟨t, ht, returned_iff.mpr ⟨e, v, he, hinv, hret⟩⟩
    · rintro ⟨t, ht, hret⟩
      obtain ⟨e, v, he, hinv, hret⟩ := returned_iff.mp hret
      exact ⟨v, h.mem_invocationsOf.mpr ⟨t, by rw [hph]; exact ht, e, he, hinv⟩, hret⟩
  rcases hcode with ⟨rfl, hpassed⟩ | ⟨rfl, hbad⟩
  · rw [if_neg]
    intro hex
    obtain ⟨t, ht, hret⟩ := hiff.mp hex
    obtain ⟨ret, hne, hret'⟩ := hpassed t ht
    exact hne (h.returned_unique (hfin t ht) hret' hret)
  · rw [if_pos (hiff.mpr hbad)]

/-! ## Progress -/

/-- Every operation on the heap can be performed at once. -/
theorem exists_exec (h : Inv json var input c ph arg standing owner holder) (o : Op) :
    ∃ ch x, machine.exec o ch c.shared.1 = some x := by
  obtain ⟨N, hN⟩ := h.finite
  refine ⟨⟨0, N, 0⟩, ?_⟩
  cases o with
  | makeJob func_name => simp [machine, hN N le_rfl]
  | funcName job => cases hj : c.shared.1.job job <;> simp [machine, hj]
  | setSucceed job b => cases hj : c.shared.1.job job <;> simp [machine, hj]
  | succeed job => cases hj : c.shared.1.job job <;> simp [machine, hj]
  | release job => cases hj : c.shared.1.job job <;> simp [machine, hj]
  | _ => simp [machine]

/-- As long as a call has not ended, somebody can move. -/
theorem exists_step (h : Inv json var input c ph arg standing owner holder) {q : ι}
    (hq : (c.threads q).outcome = none) : ∃ l c', System.step var c l = some c' := by
  cases hthread : c.threads q with
  | ret a => simp [hthread, Prog.outcome] at hq
  | raise e => simp [hthread, Prog.outcome] at hq
  | op o k =>
    have hrun : ∀ ch r s', (machine.withPool (invoke var)).exec o ch c.shared = some (r, s') →
        ∃ l c', System.step var c l = some c' := by
      intro ch r s' hex
      exact ⟨.run q ch, c.perform q o r s' (k r), by simp [System.step, Config.step, hthread, hex]⟩
    cases o with
    | base o =>
      obtain ⟨ch, x, hx⟩ := h.exists_exec o
      exact hrun ch x.1 (x.2, c.shared.2) (by simp [Machine.withPool, hx])
    | enqueue job =>
      exact hrun ⟨0, 0, 0⟩ _ _ (by simp only [Machine.withPool, h.stop]; rfl)
    | get f =>
      cases hres : c.shared.2.results f with
      | some out => exact hrun ⟨0, 0, 0⟩ out c.shared (by simp [Machine.withPool, hres])
      | none =>
        -- the future is one of a task, so that a worker can move
        have hruns := (h.calls q).runs
        rw [hthread] at hruns
        obtain ⟨n, ph₁, hstep, -⟩ := hruns.step (r := .ok 0) trivial
        generalize hph : ph q = φ at hstep
        cases hstep with
        | get got t rest code =>
          obtain ⟨i, hi⟩ := List.getElem?_of_mem
            (show t ∈ (ph q).tasks by rw [hph]; simp [Phase.tasks])
          have hissued := (h.issued t.future).mp (by rw [((h.calls q).slots i t).mp hi]; rfl)
          obtain ⟨m, x, hx⟩ := h.pool.progress (s := c.shared.1) h.stop hissued hres
            fun _ _ o _ _ => h.exists_exec o
          exact ⟨.env m, { c with shared := x }, by simp [System.step, Config.step, hx]⟩

end Inv

/-- For any number of requests on one pool, in every run: the run ends, and only when every call has
ended; no job is used that is not there; and for each request for fewer than `2 ^ 31` audits, no audit is
invoked twice, a job's result is read only after its future is set, and once the call has ended each of
its audits has been invoked once, it has returned -1 if one of the invocations did and 0 otherwise, and
it has appended the message once in the second case and nothing in the first. -/
theorem fan_out_exact {ι Doc : Type} [Fintype ι] [DecidableEq ι] (json : JsonLib Doc)
    (var : Option Bytes) (input : ι → Bytes) :
    (∃ N, ∀ ls c, runLabels (System.step var) ls (System.initial json input) = some c →
      ls.length ≤ N) ∧
    ∀ c : System ι, Reachable json var input c →
      ((∃ q, (c.threads q).outcome = none) → ∃ l c', System.step var c l = some c') ∧
      c.shared.1.fault = false ∧
      ∀ q req_id fanout_num, parseRequest json (input q) = .ok (some (req_id, fanout_num)) →
        fanout_num.toInt < 2 ^ 31 →
        (∀ i, ((c.invocationsOf q).map Invocation.func_name).count (auditName i) ≤ 1) ∧
        (∀ e ∈ c.trace, e.thread = q → ∀ job, e.op = .base (.succeed job) →
          job ∈ (c.tasksOf q).map Task.job ∧
            ∀ t ∈ c.tasksOf q, t.job = job → (e.pre.2.results t.future).isSome) ∧
        ∀ out, (c.threads q).outcome = some out →
          (∀ i : ℕ, i < fanout_num.toInt →
            ((c.invocationsOf q).map Invocation.func_name).count (auditName i) = 1) ∧
          (∀ v ∈ c.invocationsOf q, ∃ i : ℕ, i < fanout_num.toInt ∧ v.func_name = auditName i) ∧
          out = .ok (if ∃ v ∈ c.invocationsOf q, v.ret = -1 then -1 else 0) ∧
          (out = .ok 0 → c.outputOf q = [message]) ∧ (out ≠ .ok 0 → c.outputOf q = []) := by
  refine ⟨?_, ?_⟩
  · choose d hd using fun q => faasFuncCall_within json (input q)
    have hbudget : Budget 3 (System.initial json input) d fun _ => 1 := ⟨hd, fun _ => le_rfl⟩
    exact ⟨_, fun ls c hrun => hbudget.length_le (fun _ => invoke_within) (fun e => e.elim) hrun⟩
  · intro c hreach
    obtain ⟨ph, arg, standing, owner, holder, hinv⟩ := exists_inv hreach
    refine ⟨fun ⟨q, hq⟩ => hinv.exists_step hq, hinv.fault, ?_⟩
    intro q req_id fanout_num hreq hlt
    have hc := hinv.calls q
    refine ⟨hinv.count_le_one q, ?_, ?_⟩
    · intro e he hq job hop
      obtain ⟨t, ht, rfl, hfin⟩ := hc.reads e he hq job hop
      rw [hc.tasks]
      refine ⟨List.mem_map_of_mem ht, fun u hu hjob => ?_⟩
      rw [List.inj_on_of_nodup_map hc.jobs hu ht hjob]
      exact hfin
    · intro out hout
      obtain ⟨ts, code, hph, rfl, hlen⟩ := hinv.ended hreq hlt hout
      have hsound := hc.sound
      have houtput := hc.output
      rw [hph] at hsound houtput
      refine ⟨fun i hi => ?_, fun v hv => ?_, by rw [hinv.code_eq hph], ?_, ?_⟩
      · have hi' : i < ts.length := by omega
        have hget : (ph q).tasks[i]? = some (ts.get ⟨i, hi'⟩) := by
          rw [hph]
          exact List.getElem?_eq_getElem hi'
        exact hinv.count_eq_one hget (hsound.1 _ (List.get_mem ..))
      · obtain ⟨t, ht, e, he, hv⟩ := hinv.mem_invocationsOf.mp hv
        obtain ⟨i, hi⟩ := List.getElem?_of_mem ht
        refine ⟨i, ?_, hinv.invocation_eq hi he hv⟩
        have hi' := (List.getElem?_eq_some_iff.mp hi).1
        rw [hph] at hi'
        change i < ts.length at hi'
        omega
      · intro hzero
        cases hzero
        rw [houtput]
        rfl
      · intro hne
        have hcode : code ≠ 0 := fun heq => hne (by rw [heq])
        rw [houtput]
        exact if_neg hcode

/-- Documents that consist of the number of audits. -/
def sampleJson : JsonLib Int64 where
  parse input := .ok (if input = [] then 2 else 1)
  contains _ _ := true
  getLongLong doc _ := .ok doc

/-- One request for two audits, one for a single audit. -/
def sampleInput : Bool → Bytes
  | false => []
  | true => [1]

/-- An answer to every operation, with the given address or return code. -/
def sampleChoice (address : ℕ) (code : Int32) : Choice := ⟨0, address, code⟩

/-- Both requests enqueue their jobs; two workers execute the three tasks, and the invocation of the
second one fails. The request for two audits then returns. -/
def sampleFanOut : List (Label Bool Choice (PoolMove (Fin 80) Choice Empty)) :=
  let go q address := Label.run q (sampleChoice address 0)
  let work w code := Label.env (PoolMove.work w (sampleChoice 0 code))
  [go false 0, go false 5, go false 0, go true 0, go true 6, go true 0, go false 7, go false 0,
    .env (.take 0), .env (.take 1), work 0 0, work 1 0, work 1 0, work 1 0, work 0 0, work 0 0,
    .env (.finish 1), .env (.take 1), work 1 0, work 1 (-1), work 1 0, .env (.finish 0),
    .env (.finish 1), go false 0, go false 0, go false 0, go false 0, go false 0, go false 0]

theorem fan_out_exact_sample :
    ∃ c, Reachable sampleJson none sampleInput c ∧ (c.threads false).outcome = some (.ok (-1)) ∧
      (∀ i : ℕ, i < 2 →
        ((c.invocationsOf false).map Invocation.func_name).count (auditName i) = 1) ∧
      c.outputOf false = [] := by
  obtain ⟨c, hc, hret⟩ : ∃ c, Reachable sampleJson none sampleInput c ∧
      (c.threads false).outcome = some (.ok (-1)) :=
    ⟨_, reach_of_runLabels sampleFanOut (admissibleRun_of_labels fun _ _ => trivial) rfl, rfl⟩
  have hexact := ((fan_out_exact sampleJson none sampleInput).2 c hc).2.2 false 2 2 rfl (by decide)
  obtain ⟨hcount, -, -, -, hnone⟩ := hexact.2.2 _ hret
  exact ⟨c, hc, hret, fun i hi => hcount i (by change (i : Int) < 2; omega), hnone (by simp)⟩

end FanOut
