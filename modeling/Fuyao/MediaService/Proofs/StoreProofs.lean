import Fuyao.MediaService.Proofs.PipelineProofs

/-!
# Proofs: a request that succeeds has stored its review

The jobs of a request upload its components, each job reports success when its functions returned 0,
and the entry function returns 0 when all jobs did. What is missing is `Upload`, which ignores the
result of `ComposeAndUpload`: a request whose review could not be composed or stored succeeds all the
same.
-/

namespace MediaService

open Cpp Concurrency Gather

/-! ## Identifiers -/

theorem fitsInt_toInt64 (n : Int32) : FitsInt n.toInt64 := by
  unfold FitsInt
  rw [Int32.toInt_toInt64]
  exact ⟨n.le_toInt, n.toInt_lt⟩

/-- Reading an integer as `int` gives the number that was read as `long long` if that fits. -/
theorem toInt64_ofInt {z : Int} (h : FitsInt (Int64.ofInt z)) :
    (Int32.ofInt z).toInt64 = Int64.ofInt z := by
  unfold FitsInt at h
  rw [Int64.toInt_ofInt] at h
  rw [← Int64.toInt_inj, Int32.toInt_toInt64, Int32.toInt_ofInt, Int64.toInt_ofInt]
  have hdvd : (z.bmod (2 ^ 64)).bmod (2 ^ 32) = z.bmod (2 ^ 32) :=
    Int.bmod_bmod_of_dvd (by norm_num)
  rw [show Int32.size = 2 ^ 32 from rfl, show Int64.size = 2 ^ 64 from rfl, ← hdvd]
  exact Int.bmod_eq_of_le (by simpa using h.1) (by simpa using h.2)

/-- A request whose id fits an `int` is uploaded under its own id. -/
theorem uploadId_of_requestId {input : Json} {r : Int64} (hid : input.requestId = some r)
    (hfit : FitsInt r) : input.uploadId = some r := by
  unfold Json.requestId at hid
  unfold Json.uploadId
  cases hreq : input.req_id with
  | none => simp [hreq] at hid
  | some v =>
    simp only [hreq, Option.bind_some] at hid ⊢
    cases v with
    | integer z =>
      obtain rfl : Int64.ofInt z = r := by
        simpa [JsonValue.getLongLong, JsonValue.getIntegral, Except.toOption] using hid
      simp [JsonValue.getInt, JsonValue.getIntegral, Except.toOption, toInt64_ofInt hfit]
    | float z =>
      simp only [JsonValue.getLongLong, JsonValue.getIntegral] at hid
      split at hid
      next hrange =>
        obtain rfl : Int64.ofInt z = r := by simpa [Except.toOption] using hid
        have hz : (Int64.ofInt z).toInt = z := Int64.toInt_ofInt_of_le hrange.1 hrange.2
        have hrange' : -2 ^ 31 ≤ z ∧ z < 2 ^ 31 := by
          unfold FitsInt at hfit
          rwa [hz] at hfit
        simp only [JsonValue.getInt, JsonValue.getIntegral, if_pos hrange', Except.toOption,
          Option.map_some, toInt64_ofInt hfit]
      · cases hid
    | boolean b =>
      obtain rfl : Int64.ofInt b.toNat = r := by
        simpa [JsonValue.getLongLong, JsonValue.getIntegral, Except.toOption] using hid
      simp [JsonValue.getInt, JsonValue.getIntegral, Except.toOption, toInt64_ofInt hfit]
    | string s => cases hid
    | other => cases hid

/-! ## The session -/

section Session

variable {q : Nat} {r : Int64}

theorem pipelineSession_lawful (q : Nat) (r : Int64) : (pipelineSession q r).Lawful where
  no_env := fun _ => id
  regular := fun _ _ => trivial
  lost_incr := fun _ _ => trivial
  lost_add := fun _ _ _ _ => trivial
  blind := fun _ _ => trivial
  again := fun _ _ _ _ _ => ⟨fun _ => trivial, trivial⟩
  emits := by
    rintro o ⟨doc, rfl, -⟩
    exact .inr ⟨doc, rfl⟩
  out_keep := by
    intro i o ch res w w' T hex hem
    simp only [pipelineSession]
    by_cases ho : ∃ doc, o = .insertReview doc
    · -- a document of another request is inserted, or none at all
      obtain ⟨doc, rfl⟩ := ho
      have hdoc : doc.req_id ≠ r := fun h => hem ⟨doc, rfl, h⟩
      obtain rfl | rfl := World.exec_effect hex
      · rfl
      · simp [World.effect, hdoc]
    · rw [World.exec_reviews hex fun doc h => ho ⟨doc, h⟩]
  reports := fun e c h => ⟨q, c.job, h⟩

/-- An operation on a job is no matter of the session unless it reports the success of a job of the
request. -/
theorem foreign_of_job {o : Op} {x : Nat × Downstream} (ho : o.job = some x)
    (hfin : ∀ f, o ≠ .finishJob q f true) : (pipelineSession q r).Foreign o := by
  refine ⟨?_, ?_, ?_⟩
  · intro key hkey
    rw [Op.key_eq_none_of_job ho] at hkey
    cases hkey
  · rintro ⟨doc, rfl, -⟩
    cases ho
  · rintro ⟨e, c, rfl, hop⟩
    exact hfin c.job hop

/-- What another request touches is no matter of the session. -/
theorem foreign_of_touches {q' : Nat} {input : Json} {o : Op} (hq : q' ≠ q)
    (hid : input.uploadId ≠ some r) (h : RequestTouches q' input o) :
    (pipelineSession q r).Foreign o := by
  have hS := pipelineSession_lawful q r
  cases h with
  | isLocal ho => exact Session.foreign_of_isLocal hS ho
  | job ho =>
    refine foreign_of_job ho fun f hop => ?_
    rw [hop] at ho
    exact hq (Prod.mk.inj (Option.some.inj ho)).1.symm
  | title ht hkey => exact Session.foreign_of_key hS hkey (not_isComposeKey_keyTitle _ _)
  | upload hval ho =>
    obtain ⟨key, hkey, hcomp⟩ := ho.exists_key
    exact Session.foreign_of_key hS hkey fun hcomp' =>
      hid (hval.trans (congrArg some (hcomp.req_id_eq hcomp')))
  | invoke hf =>
    refine ⟨fun key hkey => (by cases hkey), ?_, Session.not_reporting hS (by simp)⟩
    rintro ⟨doc, hop, -⟩
    cases hop
  | insertReview hdoc =>
    refine ⟨fun key hkey => (by cases hkey), ?_, Session.not_reporting hS (by simp)⟩
    rintro ⟨doc, hop, hr⟩
    cases hop
    exact hid (hr ▸ hdoc)

theorem foreign_invoke (f : Invocation) : (pipelineSession q r).Foreign (.invoke f) := by
  have hS := pipelineSession_lawful q r
  refine ⟨fun key hkey => (by cases hkey), ?_, Session.not_reporting hS (by simp)⟩
  rintro ⟨doc, hop, -⟩
  cases hop

/-- `StoreReview`, invoked with an assembled review, delivers it. -/
theorem delivers_serve (q : Nat) (r : Int64) (worker : FaasWorker) :
    (pipelineSession q r).Delivers (serve worker) := by
  intro k v vals p T hv hgets
  have hS := pipelineSession_lawful q r
  refine wp_ask ((Session.keeps_of_foreign hS (foreign_invoke _)).performs fun _ T₁ hT₁ => ?_)
  refine Logic.wp_bind (Logic.wp_attempt ?_)
  refine wp_ask ((Session.keeps_of_isLocal hS rfl).performs_of_good
    fun c₁ ch₁ res₁ w₁ _ hgood₁ hT₂ => ?_)
  cases res₁ with
  | false => exact absurd rfl (hgood₁ rfl)
  | true =>
  refine wp_ask ((Session.keeps_of_isLocal hS rfl).performs_of_good
    fun c₂ ch₂ res₂ w₂ _ hgood₂ hT₃ => ?_)
  cases res₂ with
  | false => exact absurd rfl (hgood₂ rfl)
  | true =>
  refine wp_ask (Session.performs_of_moves (k := k) rfl
    fun w T' a ch res w' hT' hinv hk _ _ hex hgood => .inr ?_)
  cases res with
  | false => exact absurd rfl (hgood rfl)
  | true =>
  have hk' : a.phase k = .last vals ∧ p = .composed ∨ a.phase k = .again vals ∧ p = .recomposed := by
    rw [hk]; exact hv
  have hpre : T <+: T' :=
    hT₁.trans (hT₂.trans ((List.prefix_append _ _).trans (hT₃.trans ((List.prefix_append _ _).trans hT'))))
  refine ⟨a.emit k vals p, p, rfl, hinv.emitStep hS hex ⟨_, rfl, rfl⟩ trivial hk'
    (fun c => (hgets c).mono hpre) ?_, ?_⟩
  · simp only [pipelineSession, World.exec_insertReview hex, List.filter_append]
    simp [assemble]
  · exact wp_ask ((Session.keeps_of_isLocal hS rfl).performs fun _ T₅ _ => ⟨⟨0, rfl⟩, rfl⟩)

/-- The rule for an invocation: the function runs, and the return code says whether it returned 0. -/
theorem runFunction_wp {i : Nat × Task} {f : Invocation} {body : Service Int}
    {Q : Except Exn Int → (Component → Phase Component Review) →
      List (ServiceEvent (Nat × Task)) → Prop}
    {v : Component → Phase Component Review} {T : List (ServiceEvent (Nat × Task))}
    (h : ∀ T', (pipelineSession q r).logic.wp i body
      (fun out v' T'' => Q (.ok (invocationCode out)) v' T'') v T') :
    (pipelineSession q r).logic.wp i (runFunction f body) Q v T := by
  have hS := pipelineSession_lawful q r
  refine wp_ask ((Session.keeps_of_foreign hS (foreign_invoke _)).performs fun _ T' _ => ?_)
  exact Logic.wp_bind (Logic.wp_attempt (h T'))

theorem done_of_ends {c : Component} {v : Component → Phase Component Review}
    {p : Phase Component Review} (h : (pipelineSession q r).Ends c v (.ok 0) p) : p.done = true := by
  cases h with
  | done hp => exact hp
  | repeated hk hc => exact absurd hc hk
  | aborted hp hf =>
    obtain ⟨o, hop, hfail⟩ := hf
    obtain ⟨e, hgood, hthread, hcompose⟩ := failsToCompose_of_mayFail hop hfail
    refine absurd ?_ (hgood (congrArg Prod.fst hthread))
    unfold failsToStore
    rw [show failsToCompose r e = true from hcompose, Bool.true_or]

/-- An invoked upload that returned 0 has done its party's duties. -/
theorem serve_call_wp (worker : FaasWorker) (call : Call) (hr : call.req_id = r)
    (hval : call.component = .rating → FitsInt call.review.rating)
    {v : Component → Phase Component Review} (hv : v call.component = .idle)
    {T : List (ServiceEvent (Nat × Task))} :
    (pipelineSession q r).logic.wp (q, .job call.component.job)
      ((serve (serve worker)).invoke_func_fn_ call.invocation)
      (fun out v' _ => ∃ code p, out = .ok code ∧ v' = Function.update v call.component p ∧
        (code = 0 → p.done = true)) v T := by
  rw [serve_invoke, functionTable_invocation]
  refine runFunction_wp fun T' => ?_
  have hup := Session.upload_wp (T := T') (pipelineSession_lawful q r) (delivers_serve q r worker)
    (k := call.component) rfl hv call.review hval hr
  have hop : ((pipelineSession q r).comp call.component).op = call.op := (Call.op_eq call).symm
  rw [hop] at hup
  refine Logic.wp_mono hup ?_
  rintro out v' T'' - ⟨p, rfl, hends⟩
  refine ⟨_, p, rfl, rfl, fun hcode => ?_⟩
  cases out with
  | error e => cases hcode
  | ok ret =>
    by_cases hret : ret = 0
    · subst hret
      exact done_of_ends hends
    · simp [invocationCode, hret] at hcode

/-! ## The jobs -/

/-- All parties of a job are done. -/
def JobDone (f : Downstream) (v : Component → Phase Component Review) : Prop :=
  ∀ c, c.job = f → (v c).done = true

section Jobs

variable {input : Json} {worker : FaasWorker} {T : List (ServiceEvent (Nat × Task))}

theorem req_id_of_uploadId {v : JsonValue} {n : Int32} (hid : input.uploadId = some r)
    (hreq : input.req_id = some v) (hn : v.getInt = .ok n) : n.toInt64 = r := by
  simpa [Json.uploadId, hreq, hn, Except.toOption] using hid

theorem single_call_wp (call : Call) (hr : call.req_id = r)
    (hval : call.component = .rating → FitsInt call.review.rating)
    (hjob : ∀ c, c.job = call.component.job → c = call.component) :
    (pipelineSession q r).logic.wp (q, .job call.component.job)
      ((serve (serve worker)).invoke_func_fn_ call.invocation >>= fun ret =>
        if ret ≠ 0 then return -1 else return 0)
      (fun out v' _ => out = .ok 0 → JobDone call.component.job v') (fun _ => .idle) T := by
  refine Logic.wp_bind (Logic.wp_mono (serve_call_wp worker call hr hval rfl) ?_)
  rintro _ _ T' - ⟨code, p, rfl, rfl, hp⟩
  by_cases hcode : code = 0
  · subst hcode
    intro _ c hc
    rw [hjob c hc, Function.update_self]
    exact hp rfl
  · simp [hcode]

theorem uploadText1_wp (hid : input.uploadId = some r) :
    (pipelineSession q r).logic.wp (q, .job .text) (uploadText1 (serve (serve worker)) input)
      (fun out v' _ => out = .ok 0 → JobDone .text v') (fun _ => .idle) T := by
  unfold uploadText1
  split
  next req_id text hreq htext =>
    refine Logic.wp_ofExcept (fun n hn => ?_) fun e _ h => by cases h
    refine Logic.wp_ofExcept (fun s hs => ?_) fun e _ h => by cases h
    refine Logic.wp_ofExcept (fun t ht => ?_) fun e _ h => by cases h
    exact single_call_wp (.text ⟨n.toInt64, t⟩) (req_id_of_uploadId hid hreq hn)
      (fun h => by cases h) fun c hc => by cases c <;> cases hc; rfl
  · intro h
    cases h

theorem uploadUniqueId1_wp (hid : input.uploadId = some r) :
    (pipelineSession q r).logic.wp (q, .job .uniqueId) (uploadUniqueId1 (serve (serve worker)) input)
      (fun out v' _ => out = .ok 0 → JobDone .uniqueId v') (fun _ => .idle) T := by
  have hS := pipelineSession_lawful q r
  unfold uploadUniqueId1
  split
  next req_id hreq =>
    refine Logic.wp_ofExcept (fun n hn => ?_) fun e _ h => by cases h
    refine Logic.wp_bind (Logic.wp_mono (Session.wp_of_foreign hS
      (makeUniqueId_uses fun _ => Session.foreign_of_isLocal hS)) ?_)
    rintro (e | review_id) _ T₁ - ⟨rfl, -⟩
    · intro h
      cases h
    exact single_call_wp (.uniqueId ⟨n.toInt64, review_id⟩) (req_id_of_uploadId hid hreq hn)
      (fun h => by cases h) fun c hc => by cases c <;> cases hc; rfl
  · intro h
    cases h

theorem uploadMovieId1_wp (hid : input.uploadId = some r) :
    (pipelineSession q r).logic.wp (q, .job .movieId) (uploadMovieId1 (serve (serve worker)) input)
      (fun out v' _ => out = .ok 0 → JobDone .movieId v') (fun _ => .idle) T := by
  have hS := pipelineSession_lawful q r
  have hlocal : ∀ o : Op, o.isLocal = true → (pipelineSession q r).Foreign o :=
    fun _ => Session.foreign_of_isLocal hS
  unfold uploadMovieId1
  split
  next req_id title rating hreq htitle hrating =>
    refine Logic.wp_ofExcept (fun n hn => ?_) fun e _ h => by cases h
    refine Logic.wp_ofExcept (fun s hs => ?_) fun e _ h => by cases h
    refine Logic.wp_ofExcept (fun m hm => ?_) fun e _ h => by cases h
    refine Logic.wp_ofExcept (fun t ht => ?_) fun e _ h => by cases h
    have hr := req_id_of_uploadId hid hreq hn
    have hkey : ∀ o : Op, o.key = some (keyTitle t) → (pipelineSession q r).Foreign o :=
      fun _ ho => Session.foreign_of_key hS ho (not_isComposeKey_keyTitle _ _)
    -- the lookup and the caching have nothing to do with the keys of the request
    refine Logic.wp_bind (Logic.wp_mono (Session.wp_of_foreign hS
      (lookupMovieId_uses hlocal (hkey _ rfl))) ?_)
    rintro (e | _ | movie_id) _ T₁ - ⟨rfl, -⟩
    · intro h
      cases h
    · intro h
      cases h
    refine Logic.wp_bind (Logic.wp_mono (Session.wp_of_foreign hS
      (cacheMovieId_uses hlocal (hkey _ rfl))) ?_)
    rintro (e | _ | _) _ T₂ - ⟨rfl, -⟩
    · intro h
      cases h
    · intro h
      cases h
    refine Logic.wp_ofExcept (fun s hs => ?_) fun e _ h => by cases h
    have hmovie := serve_call_wp (q := q) (T := T₂) worker (.movieId ⟨n.toInt64, s, 0⟩)
      (v := fun _ => .idle) hr (fun h => by cases h) rfl
    refine Logic.wp_bind (Logic.wp_mono hmovie ?_)
    rintro _ _ T₃ - ⟨ret1, p₁, rfl, rfl, hp₁⟩
    have hcall := serve_call_wp (q := q) (T := T₃) worker (.rating ⟨n.toInt64, m.toInt64⟩)
      (v := Function.update (fun _ => .idle) .movieId p₁) hr (fun _ => fitsInt_toInt64 m) rfl
    refine Logic.wp_bind (Logic.wp_mono hcall ?_)
    rintro _ _ T₄ - ⟨ret2, p₂, rfl, rfl, hp₂⟩
    by_cases hret : ret1 ≠ 0 ∨ ret2 ≠ 0
    · simp [hret]
    · obtain ⟨h₁, h₂⟩ := not_or.mp hret
      simp only [hret, if_false]
      intro _ c hc
      cases c <;> cases hc
      · exact hp₁ (not_not.mp h₁)
      · exact hp₂ (not_not.mp h₂)
  · intro h
    cases h

/-- A job of the request keeps the invariant: it reports success only when its parties are done. -/
theorem invokeJob_wp (hid : input.uploadId = some r) (f : Downstream) :
    (pipelineSession q r).logic.wp (q, .job f) (invokeJob runtime q input f) (fun _ _ _ => True)
      (fun _ => .idle) T := by
  have hS := pipelineSession_lawful q r
  have hstart : (pipelineSession q r).Foreign (.startJob q f) := foreign_of_job rfl (by simp)
  have hbody : ∀ T', (pipelineSession q r).logic.wp (q, .job f)
      (functionTable (serve (serve .anyRuntime)) (f.func input))
      (fun out v' _ => out = .ok 0 → JobDone f v') (fun _ => .idle) T' := by
    intro T'
    cases f with
    | movieId => exact uploadMovieId1_wp hid
    | text => exact uploadText1_wp hid
    | uniqueId => exact uploadUniqueId1_wp hid
  refine wp_ask ((Session.keeps_of_foreign hS hstart).performs fun _ T₁ _ => ?_)
  refine Logic.wp_bind (runFunction_wp fun T₂ => Logic.wp_mono (hbody T₂) ?_)
  intro out v T₃ _ hdone
  refine wp_ask ?_
  intro c a ch res w' hT hinv hview _ _ hex _
  have hfinish : c.shared.exec (.finishJob q f (invocationCode out ≠ -1)) ch = some (res, w') := hex
  refine ⟨a, hinv.quietStep hS (fun key hkey => (by cases hkey)) ?_ hfinish ?_, fun _ _ => rfl,
    trivial⟩
  · rintro ⟨doc, hop, -⟩
    cases hop
  · intro k hk
    obtain ⟨hf, hcode⟩ : f = k.job ∧ invocationCode out ≠ -1 := by
      simpa [pipelineSession] using hk
    have hzero : out = .ok 0 := by
      cases out with
      | error e => exact absurd rfl hcode
      | ok ret =>
        by_cases hret : ret = 0
        · rw [hret]
        · exact absurd (by simp [invocationCode, hret]) hcode
    rw [Session.view_of_owner (k := k) (by rw [hf]; rfl) hview]
    exact hdone hzero k hf.symm

end Jobs

end Session

/-! ## The entry function -/

/-- A job of request `q` that is finished has said so. -/
def jobsLogic (q : Nat) :
    Logic (Nat × Task) Op Op.Res Exn Int World Choice Env Unit Unit where
  machine := machine
  adm _ _ := True
  good _ := True
  inv w T _ := ∀ f succeed, w.jobs q f = .finished succeed → ∃ e ∈ T, e.op = .finishJob q f succeed
  view _ _ := ()

section Entry

variable {q : Nat} {input : Json} {i : Nat × Task} {T : List (ServiceEvent (Nat × Task))}

theorem jobsLogic_keeps (o : Op) : (jobsLogic q).Keeps i o := by
  intro c a ch res w' hinv hex f succeed hjob
  rcases World.exec_finished hex hjob with hold | hnew
  · obtain ⟨e, he, hop⟩ := hinv f succeed hold
    exact ⟨e, List.mem_append_left _ he, hop⟩
  · exact ⟨_, List.mem_append_right _ (List.mem_singleton_self _), hnew⟩

theorem jobsLogic_wp {β : Type} (p : Service β) : (jobsLogic q).wp i p (fun _ _ _ => True) () T :=
  Logic.wp_mono (Logic.wp_of_uses (Prog.uses_trivial p) fun o _ => jobsLogic_keeps o)
    fun _ _ _ _ _ => trivial

theorem checkJobs_wp (fs : List Downstream) :
    (jobsLogic q).wp i (checkJobs q fs)
      (fun out _ T' => out = .ok 0 → ∀ f ∈ fs, ∃ e ∈ T', e.op = .finishJob q f true) () T := by
  induction fs generalizing T with
  | nil =>
    intro _ f hf
    cases hf
  | cons f fs ih =>
    refine wp_ask ?_
    intro c a ch res w' hT hinv _ _ _ hex _
    refine ⟨(), jobsLogic_keeps _ c a ch res w' hinv hex, fun _ _ => rfl, ?_⟩
    cases res with
    | false =>
      intro h
      cases h
    | true =>
      have hread : c.shared.exec (.readSucceed q f) ch = some (true, w') := hex
      obtain ⟨e, he, hop⟩ := hinv f true (World.exec_readSucceed hread)
      refine Logic.wp_mono ih fun out _ T' hT' hall hzero => ?_
      refine List.forall_mem_cons.mpr ⟨⟨e, hT'.subset (List.mem_append_left _ he), hop⟩, hall hzero⟩

/-- When the entry function returns 0, every job has reported success. -/
theorem composeReview_wp :
    (jobsLogic q).wp i (composeReview q input)
      (fun out _ T' => out = .ok 0 → ∀ f, ∃ e ∈ T', e.op = .finishJob q f true) () T := by
  unfold composeReview
  split
  · refine Logic.wp_ofExcept (fun _ _ => ?_) fun e _ h => by cases h
    refine Logic.wp_bind (Logic.wp_mono (jobsLogic_wp _) ?_)
    rintro (e | _) _ T₁ - -
    · intro h
      cases h
    refine Logic.wp_bind (Logic.wp_mono (jobsLogic_wp _) ?_)
    rintro (e | _) _ T₂ - -
    · intro h
      cases h
    refine Logic.wp_mono (checkJobs_wp downstreamFuncs) fun out _ T₃ _ hall hzero f => ?_
    exact hall hzero f (by cases f <;> simp [downstreamFuncs])
  · intro h
    cases h

end Entry

/-! ## Requests that succeed -/

section Requests

variable {requests : Nat → Json} {q : Nat} {r : Int64} {w₀ : World} {c : ServiceConfig (Nat × Task)}

/-- The entry function of request `q` has returned 0: each of its jobs has reported success. -/
theorem jobs_finished_of_success (hjobs : ∀ f, w₀.jobs q f = .absent)
    (hc : ReachableFrom w₀ Faulty (composeReviews requests) c)
    (hzero : (c.threads (q, .main)).outcome = some (.ok 0)) (f : Downstream) :
    ∃ e ∈ c.trace, e.op = .finishJob q f true := by
  have hwp : ∀ i, (jobsLogic q).wp i (composeReviews requests i)
      (fun out _ T => i = (q, .main) → out = .ok 0 → ∀ f, ∃ e ∈ T, e.op = .finishJob q f true) () [] := by
    intro i
    by_cases hi : i = (q, .main)
    · subst hi
      exact Logic.wp_mono composeReview_wp fun _ _ _ _ h _ => h
    · exact Logic.wp_mono (jobsLogic_wp _) fun _ _ _ _ _ h => absurd h hi
  have hinv : (jobsLogic q).inv w₀ [] () := by
    intro f succeed h
    rw [hjobs f] at h
    cases h
  have henv : ∀ (c : ServiceConfig (Nat × Task)) a e w', (jobsLogic q).inv c.shared c.trace a →
      True → World.env e c.shared = some w' →
      ∃ a', (jobsLogic q).inv w' c.trace a' ∧ ∀ j, (jobsLogic q).view j a' = (jobsLogic q).view j a := by
    intro c a e w' h _ he
    refine ⟨(), ?_, fun _ => rfl⟩
    intro f succeed hjob
    exact h f succeed (World.env_jobs he ▸ hjob)
  obtain ⟨_, _, hth⟩ := Logic.sound (P := jobsLogic q) () hinv hwp henv (hc.mono fun _ _ _ => trivial)
    fun _ _ => trivial
  obtain ⟨T, hT, hmain⟩ := hth (q, .main)
  obtain ⟨e, he, hop⟩ := Logic.wp_outcome hmain hzero rfl rfl f
  exact ⟨e, hT.subset he, hop⟩

/-- Any operation may fail. If `exp02ComposeReview` returns 0 for a request whose id fits an `int` and
under whose id no other request uploads, and no operation of `ComposeAndUpload` or `StoreReview` failed
for the request, then a document with its id is in the collection `review`. -/
theorem review_stored_of_success (hid : (requests q).requestId = some r) (hfit : FitsInt r)
    (hunique : ∀ q', q' ≠ q → (requests q').uploadId ≠ some r) (hfresh : FreshFor r w₀)
    (hreviews : ∀ doc ∈ w₀.reviews, doc.req_id ≠ r) (hjobs : ∀ f, w₀.jobs q f = .absent)
    (hc : ReachableFrom w₀ Faulty (composeReviews requests) c)
    (hstore : ∀ e ∈ c.trace, e.thread.1 = q → ¬ failsToStore r e)
    (hzero : (c.threads (q, .main)).outcome = some (.ok 0)) :
    ∃ doc ∈ c.shared.reviews, doc.req_id = r := by
  have hS := pipelineSession_lawful q r
  have hwp : ∀ i, (pipelineSession q r).logic.wp i (composeReviews requests i) (fun _ _ _ => True)
      (fun _ => .idle) [] := by
    rintro ⟨q', t⟩
    by_cases hq : q' = q
    · subst hq
      cases t with
      | main =>
        exact Logic.wp_mono (Session.wp_of_foreign hS (composeReview_uses
          (fun _ => foreign_of_job rfl (by simp)) (fun _ => foreign_of_job rfl (by simp))
          fun _ => foreign_of_job rfl (by simp))) fun _ _ _ _ _ => trivial
      | job f => exact invokeJob_wp (uploadId_of_requestId hid hfit) f
    · exact Logic.wp_mono (Session.wp_of_foreign hS ((composeReviews_uses requests (q', t)).mono
        (fun _ ho => foreign_of_touches hq (hunique q' hq) ho) fun _ => id)) fun _ _ _ _ _ => trivial
  have hout : (pipelineSession q r).out w₀ [] = [] := by
    refine List.filter_eq_nil_iff.mpr fun doc hdoc => ?_
    simpa using hreviews doc hdoc
  obtain ⟨a, hinv, -⟩ := Session.sound_of_fresh hS hfresh hout hwp hc hstore
  have hne : a.outputs ≠ [] := by
    refine hinv.gather.outputs_ne_nil fun comp => ⟨comp, rfl, ?_⟩
    obtain ⟨e, he, hop⟩ := jobs_finished_of_success hjobs hc hzero comp.job
    exact hinv.reported e he comp hop
  have hfilter : (c.shared.reviews.filter fun doc => doc.req_id = r) ≠ [] := by
    rw [show (c.shared.reviews.filter fun doc => doc.req_id = r) = _ from hinv.out]
    simpa using hne
  obtain ⟨doc, hdoc⟩ := List.exists_mem_of_ne_nil _ hfilter
  obtain ⟨hmem, hreq⟩ := List.mem_filter.mp hdoc
  exact ⟨doc, hmem, by simpa using hreq⟩

/-- Request 0 has the given id, and there is no other request with an id. -/
def oneRequest (req_id : Int) (q : Nat) : Json :=
  if q = 0 then
    ⟨some (.integer req_id), some (.string (ascii "Up")), none, some (.string (ascii "good")),
      some (.integer 5)⟩
  else ⟨none, none, none, none, none⟩

/-- A world with one movie. -/
def movieWorld : World := { World.empty with movies := [⟨ascii "Up", ascii "m1"⟩] }

/-- The jobs of request 0 run one after the other, up to the insertion of the review. -/
def untilInsert : List (ServiceLabel (Nat × Task)) :=
  okRun (List.replicate 3 (0, .main) ++ List.replicate 25 (0, .job .movieId) ++
    List.replicate 11 (0, .job .uniqueId) ++ List.replicate 17 (0, .job .text))

/-- The steps of a request up to the insertion of its review. -/
def afterInsert : List (ServiceLabel (Nat × Task)) :=
  okRun (List.replicate 2 (0, .job .text) ++ List.replicate 6 (0, .main))

theorem review_stored_of_success_sample :
    ∃ c, ReachableFrom movieWorld Faulty (composeReviews (oneRequest 7)) c ∧
      (c.threads (0, .main)).outcome = some (.ok 0) ∧ ∃ doc ∈ c.shared.reviews, doc.req_id = 7 := by
  obtain ⟨c, hc, hstore, hzero⟩ :
      ∃ c, ReachableFrom movieWorld Faulty (composeReviews (oneRequest 7)) c ∧
        (∀ e ∈ c.trace, e.thread.1 = 0 → ¬ failsToStore 7 e) ∧
        (c.threads (0, .main)).outcome = some (.ok 0) :=
    ⟨_, reachable_of_labels (untilInsert ++ .run (0, .job .text) ⟨.ok, 0⟩ :: afterInsert) (by decide) rfl,
      by decide, rfl⟩
  have hunique : ∀ q, q ≠ 0 → (oneRequest 7 q).uploadId ≠ some 7 := by
    intro q hq
    simp [oneRequest, hq, Json.uploadId]
  exact ⟨c, hc, hzero, review_stored_of_success (q := 0) rfl (by decide) hunique (fun _ _ => rfl)
    (by simp [movieWorld, World.empty]) (fun _ => rfl) hc hstore hzero⟩

/-- The insertion of the review fails, or the id does not fit an `int` and nothing fails: the request
succeeds, and there is no document with its id. -/
theorem review_missing_after_success :
    (∃ c, ReachableFrom movieWorld Faulty (composeReviews (oneRequest 7)) c ∧
      (oneRequest 7 0).requestId = some 7 ∧ (∀ q, q ≠ 0 → (oneRequest 7 q).requestId = none) ∧
      (c.threads (0, .main)).outcome = some (.ok 0) ∧ ∀ doc ∈ c.shared.reviews, doc.req_id ≠ 7) ∧
    ∃ c, ReachableFrom movieWorld Faulty (composeReviews (oneRequest 4294967303)) c ∧
      (oneRequest 4294967303 0).requestId = some 4294967303 ∧
      (∀ q, q ≠ 0 → (oneRequest 4294967303 q).requestId = none) ∧
      (c.threads (0, .main)).outcome = some (.ok 0) ∧
      ∀ doc ∈ c.shared.reviews, doc.req_id ≠ 4294967303 :=
  ⟨⟨_, reachable_of_labels (untilInsert ++ .run (0, .job .text) ⟨.failed, 0⟩ :: afterInsert) (by decide)
      rfl, rfl, fun q hq => by simp [oneRequest, hq, Json.requestId], rfl, by decide⟩,
    _, reachable_of_labels (untilInsert ++ .run (0, .job .text) ⟨.ok, 0⟩ :: afterInsert) (by decide) rfl,
      rfl, fun q hq => by simp [oneRequest, hq, Json.requestId], rfl, by decide⟩

end Requests

end MediaService
