import Fuyao.MediaService.Pipeline
import Fuyao.MediaService.Proofs.CallersProofs
import Fuyao.MediaService.Proofs.UtilsProofs

/-!
# Proofs: the threads of a request stay with their request
-/

namespace MediaService

open Cpp Concurrency Gather

/-- `Upload` depends on the runtime only through the invocations of `exp02StoreReview4`. -/
theorem upload_congr {worker worker' : FaasWorker}
    (h : ∀ review, worker.invoke_func_fn_ (.exp02StoreReview4 review) =
      worker'.invoke_func_fn_ (.exp02StoreReview4 review)) (val : Review) (op : UploadOp) :
    upload worker val op = upload worker' val op := by
  have hcompose : ∀ r, composeAndUpload worker r = composeAndUpload worker' r := by
    intro r
    simp only [composeAndUpload, h]
  have hfinish : ∀ r n, finishUpload worker r n = finishUpload worker' r n := by
    intro r n
    simp only [finishUpload, hcompose]
  simp only [upload, countUpload, hfinish]

theorem serve_invoke (worker : FaasWorker) (f : Invocation) :
    (serve worker).invoke_func_fn_ f = runFunction f (functionTable worker f) := rfl

theorem functionTable_invocation (worker : FaasWorker) (call : Call) :
    functionTable worker call.invocation = call.run worker := by
  cases call <;> rfl

/-- No invocation of a job reaches the worker at the bottom of the runtime. -/
theorem runtime_eq (worker : FaasWorker) (input : Json) (f : Downstream) :
    (serve (serve (serve worker))).invoke_func_fn_ (f.func input) =
      runtime.invoke_func_fn_ (f.func input) := by
  have hstage3 : ∀ call : Call, (serve (serve worker)).invoke_func_fn_ call.invocation =
      (serve (serve .anyRuntime)).invoke_func_fn_ call.invocation := by
    intro call
    have hstore : ∀ review, (serve worker).invoke_func_fn_ (.exp02StoreReview4 review) =
        (serve .anyRuntime).invoke_func_fn_ (.exp02StoreReview4 review) := fun _ => rfl
    rw [serve_invoke, serve_invoke, functionTable_invocation, functionTable_invocation, Call.run,
      Call.run, upload_congr hstore]
  have hmovie := fun val => hstage3 (.movieId val)
  have hrating := fun val => hstage3 (.rating val)
  have htext := fun val => hstage3 (.text val)
  have hunique := fun val => hstage3 (.uniqueId val)
  simp only [Call.invocation] at hmovie hrating htext hunique
  rw [runtime, serve_invoke, serve_invoke]
  cases f with
  | movieId =>
    simp only [Downstream.func, functionTable, uploadMovieId1, uploadMovieId, hmovie, hrating]
  | text => simp only [Downstream.func, functionTable, uploadText1, uploadText, htext]
  | uniqueId => simp only [Downstream.func, functionTable, uploadUniqueId1, uploadUniqueId, hunique]

section Touches

variable {q : Nat} {input : Json} {worker : FaasWorker}

/-- An upload invoked for the request touches what the request may touch. -/
theorem serve_call_uses (call : Call) (h : input.uploadId = some call.req_id) :
    ((serve (serve worker)).invoke_func_fn_ call.invocation).Uses (RequestTouches q input)
      fun _ => True := by
  have hrun : (call.run (serve worker)).Uses (RequestTouches q input) fun _ => True := by
    refine upload_uses (fun _ => .isLocal) call.review call.op (fun o ho => .upload h ho)
      fun review hreview => ?_
    have hid : input.uploadId = some review.req_id := by rw [h, hreview]; rfl
    refine runFunction_uses (.invoke ?_) (storeReview_uses (fun _ => .isLocal) (.insertReview hid))
    rintro review' ⟨⟩
    exact hid
  refine runFunction_uses (.invoke ?_) (functionTable_invocation (serve worker) call ▸ hrun)
  intro review heq
  cases call <;> cases heq

/-- The code after an invocation that only looks at its return code. -/
theorem uses_code {U : Op → Prop} (ret : Int) :
    (if ret ≠ 0 then return -1 else return 0 : Service Int).Uses U fun _ => True := by
  split <;> trivial

section Entry

variable {U : Op → Prop}

theorem uploadMovieId1_uses (hlocal : ∀ o, o.isLocal = true → U o)
    (hget : ∀ title, input.uploadTitle = some title → U (.get (keyTitle title)))
    (hset : ∀ title movie_id, input.uploadTitle = some title → U (.set (keyTitle title) movie_id 0))
    (hcall : ∀ call : Call, input.uploadId = some call.req_id →
      (worker.invoke_func_fn_ call.invocation).Uses U fun _ => True) :
    (uploadMovieId1 worker input).Uses U fun _ => True := by
  unfold uploadMovieId1
  split
  next req_id title rating hreq htitle hrating =>
    refine Prog.uses_ofExcept_bind fun n hn => ?_
    refine Prog.uses_ofExcept_bind fun s hs => ?_
    refine Prog.uses_ofExcept_bind fun m hm => ?_
    refine Prog.uses_ofExcept_bind fun t ht => ?_
    have hid : input.uploadId = some n.toInt64 := by simp [Json.uploadId, hreq, hn, Except.toOption]
    have htitle' : input.uploadTitle = some t := by
      simp [Json.uploadTitle, htitle, hs, ht, Except.toOption]
    exact uploadMovieId_uses hlocal (hget t htitle') (fun movie_id => hset t movie_id htitle')
      (fun s => hcall (.movieId ⟨n.toInt64, s, 0⟩) hid) (hcall (.rating ⟨n.toInt64, m.toInt64⟩) hid)
  · trivial

theorem uploadText1_uses (hcall : ∀ call : Call, input.uploadId = some call.req_id →
      (worker.invoke_func_fn_ call.invocation).Uses U fun _ => True) :
    (uploadText1 worker input).Uses U fun _ => True := by
  unfold uploadText1
  split
  next req_id text hreq htext =>
    refine Prog.uses_ofExcept_bind fun n hn => ?_
    refine Prog.uses_ofExcept_bind fun s hs => ?_
    refine Prog.uses_ofExcept_bind fun t ht => ?_
    have hid : input.uploadId = some n.toInt64 := by simp [Json.uploadId, hreq, hn, Except.toOption]
    exact Prog.Uses.bind (hcall (.text ⟨n.toInt64, t⟩) hid) fun ret _ => uses_code ret
  · trivial

theorem uploadUniqueId1_uses (hlocal : ∀ o, o.isLocal = true → U o)
    (hcall : ∀ call : Call, input.uploadId = some call.req_id →
      (worker.invoke_func_fn_ call.invocation).Uses U fun _ => True) :
    (uploadUniqueId1 worker input).Uses U fun _ => True := by
  unfold uploadUniqueId1
  split
  next req_id hreq =>
    refine Prog.uses_ofExcept_bind fun n hn => ?_
    have hid : input.uploadId = some n.toInt64 := by simp [Json.uploadId, hreq, hn, Except.toOption]
    refine Prog.Uses.bind (makeUniqueId_uses hlocal) fun review_id _ => ?_
    exact Prog.Uses.bind (hcall (.uniqueId ⟨n.toInt64, review_id⟩) hid) fun ret _ => uses_code ret
  · trivial

end Entry

theorem invokeJob_uses (f : Downstream) :
    (invokeJob runtime q input f).Uses (RequestTouches q input) fun _ => True := by
  have hbody : (functionTable (serve (serve .anyRuntime)) (f.func input)).Uses
      (RequestTouches q input) fun _ => True := by
    cases f with
    | movieId =>
      exact uploadMovieId1_uses (fun _ => .isLocal) (fun _ htitle => .title htitle rfl)
        (fun _ _ htitle => .title htitle rfl) serve_call_uses
    | text => exact uploadText1_uses serve_call_uses
    | uniqueId => exact uploadUniqueId1_uses (fun _ => .isLocal) serve_call_uses
  refine uses_ask_bind (.job rfl) fun _ => Prog.Uses.bind (runFunction_uses (.invoke ?_) hbody)
    fun ret _ => uses_ask_bind (.job rfl) fun _ => trivial
  intro review heq
  cases f <;> cases heq

theorem forM_uses {U : Op → Prop} {g : Downstream → Service Unit}
    (hg : ∀ f, (g f).Uses U fun _ => True) (fs : List Downstream) :
    (fs.forM g).Uses U fun _ => True := by
  induction fs with
  | nil => trivial
  | cons f fs ih => exact Prog.Uses.bind (hg f) fun _ _ => ih

theorem checkJobs_uses {U : Op → Prop} (hread : ∀ f, U (.readSucceed q f)) (fs : List Downstream) :
    (checkJobs q fs).Uses U fun _ => True := by
  induction fs with
  | nil => trivial
  | cons f fs ih =>
    refine uses_ask_bind (hread f) ?_
    rintro (_ | _)
    · trivial
    · exact ih

theorem composeReview_uses {U : Op → Prop} (henqueue : ∀ f, U (.enqueue q f))
    (hget : ∀ f, U (.futureGet q f)) (hread : ∀ f, U (.readSucceed q f)) :
    (composeReview q input).Uses U fun _ => True := by
  unfold composeReview
  split
  · refine Prog.uses_ofExcept_bind fun _ _ => ?_
    refine Prog.Uses.bind (forM_uses (fun f => uses_ask (henqueue f)) _) fun _ _ => ?_
    exact Prog.Uses.bind (forM_uses (fun f => uses_ask (hget f)) _) fun _ _ => checkJobs_uses hread _
  · trivial

/-- Every thread stays with its request. -/
theorem composeReviews_uses (requests : Nat → Json) (i : Nat × Task) :
    (composeReviews requests i).Uses (RequestTouches i.1 (requests i.1)) fun _ => True := by
  obtain ⟨q, _ | f⟩ := i
  · exact composeReview_uses (fun _ => .job rfl) (fun _ => .job rfl) fun _ => .job rfl
  · exact invokeJob_uses f

end Touches

end MediaService
