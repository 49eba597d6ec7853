import Fuyao.MediaService.Proofs.ProvenanceProofs
import Fuyao.MediaService.Proofs.StoreProofs

/-!
# Proofs: requests do not mix

Two requests that upload under different ids touch no common key but that of a title they share, and
the reviews a request passes on are made of its own components.
-/

namespace MediaService

open Cpp Concurrency

section Isolation

variable {requests : Nat → Json} {q : Nat} {r : Int64} {worker : FaasWorker} {input : Json}
  {T : List (ServiceEvent (Nat × Task))} {mine : Nat × Task → Prop} {i : Nat × Task}

theorem respects_title {title : CString 128} {o : Op} (ho : o.key = some (keyTitle title)) :
    Respects mine r i o := by
  refine respects_of_key ho fun comp h => not_isComposeKey_keyTitle r title ?_
  rw [h]
  exact .component _

theorem respects_invoke {f : Invocation} (hf : ∀ review, f ≠ .exp02StoreReview4 review) :
    Respects mine r i (.invoke f) := by
  refine ⟨fun comp hkey => (by cases hkey), fun review hop => ?_⟩
  exact absurd (Op.invoke.inj hop) (hf review)

theorem respects_job {o : Op} {x : Nat × Downstream} (ho : o.job = some x) : Respects mine r i o := by
  refine ⟨?_, ?_⟩
  · intro comp hkey
    rw [Op.key_eq_none_of_job ho] at hkey
    cases hkey
  · intro review hop
    rw [hop] at ho
    cases ho

theorem respects_insertReview (doc : Review) : Respects mine r i (.insertReview doc) :=
  ⟨fun comp hkey => (by cases hkey), fun review hop => by cases hop⟩

/-- What a request that uploads under another id touches respects the components of the request. -/
theorem respects_of_touches {o : Op} (hid : input.uploadId ≠ some r) (h : RequestTouches q input o) :
    Respects mine r i o := by
  cases h with
  | isLocal ho => exact respects_of_isLocal ho
  | job ho => exact respects_job ho
  | title _ hkey => exact respects_title hkey
  | upload hval ho => exact respects_of_upload ho fun hr => absurd (hr ▸ hval) hid
  | invoke hf =>
    refine ⟨fun comp hkey => (by cases hkey), fun review hop hr => ?_⟩
    obtain rfl := Op.invoke.inj hop
    exact hid (hr ▸ hf review rfl)
  | insertReview _ => exact respects_insertReview _

/-- An invocation whose step and whose function are fine. -/
theorem runFunction_provenance {f : Invocation} {body : Service Int}
    (hf : (provenance mine r).Performs i (.invoke f) () T fun _ _ T' =>
      (provenance mine r).wp i body (fun _ _ _ => True) () T') :
    (provenance mine r).wp i (runFunction f body) (fun _ _ _ => True) () T := by
  refine wp_ask (hf.mono fun _ _ T' _ hbody => ?_)
  exact Logic.wp_bind (Logic.wp_attempt (Logic.wp_mono hbody fun _ _ _ _ _ => trivial))

/-- An upload invoked by a thread among `mine`. -/
theorem serve_call_provenance (call : Call) (hr : call.req_id = r) (hmine : mine i) :
    (provenance mine r).wp i ((serve (serve worker)).invoke_func_fn_ call.invocation)
      (fun _ _ _ => True) () T := by
  have hinvoke : Respects mine r i (.invoke call.invocation) :=
    respects_invoke fun review h => by cases call <;> cases h
  rw [serve_invoke, functionTable_invocation]
  refine runFunction_provenance ((keeps_of_respects hinvoke).performs fun _ T₁ _ => ?_)
  refine upload_provenance call.op hr hmine fun review T₂ hreview => ?_
  refine runFunction_provenance (performs_invoke hreview fun _ T₃ _ => ?_)
  exact wp_of_respects (storeReview_uses (fun _ => respects_of_isLocal) (respects_insertReview _))

/-- A job of a request that uploads under the id. -/
theorem invokeJob_provenance (hid : input.uploadId = some r) (hmine : mine i) (f : Downstream) :
    (provenance mine r).wp i (invokeJob runtime q input f) (fun _ _ _ => True) () T := by
  have hlocal : ∀ o : Op, o.isLocal = true → Respects mine r i o := fun _ => respects_of_isLocal
  have hbody : ∀ T', (provenance mine r).wp i
      (functionTable (serve (serve .anyRuntime)) (f.func input)) (fun _ _ _ => True) () T' := by
    intro T'
    cases f with
    | movieId =>
      simp only [Downstream.func, functionTable, uploadMovieId1]
      split
      next req_id title rating hreq _ _ =>
        refine Logic.wp_ofExcept (fun n hn => ?_) fun _ _ => trivial
        refine Logic.wp_ofExcept (fun s _ => ?_) fun _ _ => trivial
        refine Logic.wp_ofExcept (fun m _ => ?_) fun _ _ => trivial
        refine Logic.wp_ofExcept (fun t _ => ?_) fun _ _ => trivial
        have hr := req_id_of_uploadId hid hreq hn
        refine provenance_bind (wp_of_respects (lookupMovieId_uses hlocal (respects_get _))) ?_
        rintro (_ | movie_id) T₁
        · trivial
        refine provenance_bind (wp_of_respects (cacheMovieId_uses hlocal (respects_title rfl))) ?_
        rintro (_ | _) T₂
        · trivial
        refine Logic.wp_ofExcept (fun s _ => ?_) fun _ _ => trivial
        refine provenance_bind (serve_call_provenance (.movieId ⟨n.toInt64, s, 0⟩) hr hmine)
          fun ret1 T₃ => ?_
        refine provenance_bind (serve_call_provenance (.rating ⟨n.toInt64, m.toInt64⟩) hr hmine)
          fun ret2 T₄ => ?_
        by_cases hret : ret1 ≠ 0 ∨ ret2 ≠ 0
        · simp only [hret, if_true]; trivial
        · simp only [hret, if_false]; trivial
      · trivial
    | text =>
      simp only [Downstream.func, functionTable, uploadText1]
      split
      next req_id text hreq _ =>
        refine Logic.wp_ofExcept (fun n hn => ?_) fun _ _ => trivial
        refine Logic.wp_ofExcept (fun s _ => ?_) fun _ _ => trivial
        refine Logic.wp_ofExcept (fun t _ => ?_) fun _ _ => trivial
        have hr := req_id_of_uploadId hid hreq hn
        exact provenance_bind (serve_call_provenance (.text ⟨n.toInt64, t⟩) hr hmine)
          fun ret T₁ => wp_of_respects (uses_code ret)
      · trivial
    | uniqueId =>
      simp only [Downstream.func, functionTable, uploadUniqueId1]
      split
      next req_id hreq =>
        refine Logic.wp_ofExcept (fun n hn => ?_) fun _ _ => trivial
        have hr := req_id_of_uploadId hid hreq hn
        refine provenance_bind (wp_of_respects (makeUniqueId_uses hlocal)) fun review_id T₁ => ?_
        exact provenance_bind
          (serve_call_provenance (.uniqueId ⟨n.toInt64, review_id⟩) hr hmine)
          fun ret T₂ => wp_of_respects (uses_code ret)
      · trivial
  refine wp_ask ((keeps_of_respects (respects_job rfl)).performs fun _ T₁ _ => ?_)
  refine provenance_bind (runFunction_provenance ((keeps_of_respects (respects_invoke ?_)).performs
    fun _ T₂ _ => hbody T₂)) fun ret T₃ => ?_
  · intro review h
    cases f <;> cases h
  · exact wp_ask ((keeps_of_respects (respects_job rfl)).performs fun _ T₄ _ => trivial)

/-- Every thread keeps what is known about the components of the request. -/
theorem composeReviews_provenance (i : Nat × Task) :
    (provenance (fun i => (requests i.1).uploadId = some r) r).wp i (composeReviews requests i)
      (fun _ _ _ => True) () T := by
  by_cases hid : (requests i.1).uploadId = some r
  · obtain ⟨q, _ | f⟩ := i
    · exact wp_of_respects (composeReview_uses (fun _ => respects_job rfl) (fun _ => respects_job rfl)
        fun _ => respects_job rfl)
    · exact invokeJob_provenance hid hid f
  · exact wp_of_respects ((composeReviews_uses requests i).mono (fun _ => respects_of_touches hid)
      fun _ => id)

theorem RequestTouches.review_req_id {review : Review}
    (h : RequestTouches q input (.invoke (.exp02StoreReview4 review))) :
    input.uploadId = some review.req_id := by
  cases h with
  | isLocal ho => cases ho
  | job ho => cases ho
  | title _ hkey => cases hkey
  | upload _ ho => cases ho
  | invoke hf => exact hf review rfl

/-- The keys two requests have in common. -/
theorem title_of_touches {input' : Json} {q' : Nat} {o o' : Op} {key : Bytes}
    (hne : ∀ id, input.uploadId = some id → input'.uploadId ≠ some id)
    (h : RequestTouches q input o) (h' : RequestTouches q' input' o') (hkey : o.key = some key)
    (hkey' : o'.key = some key) :
    ∃ title, input.uploadTitle = some title ∧ input'.uploadTitle = some title ∧
      key = keyTitle title := by
  -- a key is that of a title, or it belongs to the id of the request
  have hkind : ∀ {q input o}, RequestTouches q input o → o.key = some key →
      (∃ title, input.uploadTitle = some title ∧ key = keyTitle title) ∨
        ∃ id, input.uploadId = some id ∧ IsComposeKey id key := by
    intro q input o h hkey
    cases h with
    | isLocal ho =>
      rw [Op.key_eq_none_of_isLocal ho] at hkey
      cases hkey
    | job ho =>
      rw [Op.key_eq_none_of_job ho] at hkey
      cases hkey
    | title ht hk => exact .inl ⟨_, ht, Option.some.inj (hkey.symm.trans hk)⟩
    | upload hval ho =>
      obtain ⟨k, hk, hcomp⟩ := ho.exists_key
      obtain rfl := Option.some.inj (hkey.symm.trans hk)
      exact .inr ⟨_, hval, hcomp⟩
    | invoke _ => cases hkey
    | insertReview _ => cases hkey
  rcases hkind h hkey with ⟨title, ht, rfl⟩ | ⟨id, hid, hcomp⟩
  · rcases hkind h' hkey' with ⟨title', ht', heq⟩ | ⟨id', -, hcomp'⟩
    · obtain rfl := keyTitle_injective heq
      exact ⟨title, ht, ht', rfl⟩
    · exact absurd hcomp' (not_isComposeKey_keyTitle id' title)
  · rcases hkind h' hkey' with ⟨title', -, rfl⟩ | ⟨id', hid', hcomp'⟩
    · exact absurd hcomp (not_isComposeKey_keyTitle id title')
    · obtain rfl := hcomp.req_id_eq hcomp'
      exact absurd hid' (hne id hid)

/-- Two requests have different ids that fit an `int`. Whatever fails, expires or is evicted, and
whatever other requests there are: the only keys both requests use are those of a title they share,
and each of the two passes on only reviews with its own id, made of components that were uploaded under
this id. -/
theorem requests_do_not_mix {q' : Nat} {r' : Int64} {w₀ : World} {c : ServiceConfig (Nat × Task)}
    (hid : (requests q).requestId = some r) (hid' : (requests q').requestId = some r') (hne : r ≠ r')
    (hfit : FitsInt r) (hfit' : FitsInt r') (hfresh : FreshFor r w₀) (hfresh' : FreshFor r' w₀)
    (hc : ReachableFrom w₀ (fun _ => True) (composeReviews requests) c) :
    ShareOnlyTitle requests q q' c.trace ∧ PassesOwnReviews requests q r c.trace ∧
      PassesOwnReviews requests q' r' c.trace := by
  have htouch := trace_uses (S := fun i => RequestTouches i.1 (requests i.1)) (composeReviews_uses requests) hc
  have hown : ∀ {q r}, (requests q).requestId = some r → FitsInt r → FreshFor r w₀ →
      PassesOwnReviews requests q r c.trace := by
    intro q r hid hfit hfresh e he hthread review hop
    have htouches := htouch e he
    rw [hthread, hop] at htouches
    have hr : review.req_id = r := by
      have hreview := htouches.review_req_id
      rw [uploadId_of_requestId hid hfit] at hreview
      exact (Option.some.inj hreview).symm
    exact ⟨hr, (provenance_sound hfresh composeReviews_provenance hc).sent e he review
      (reviewInvoked_of_op hop hr)⟩
  refine ⟨fun e he e' he' hq hq' key hkey hkey' => ?_, hown hid hfit hfresh, hown hid' hfit' hfresh'⟩
  have h := htouch e he
  have h' := htouch e' he'
  rw [hq] at h
  rw [hq'] at h'
  refine title_of_touches (fun id h₁ h₂ => hne ?_) h h' hkey hkey'
  rw [uploadId_of_requestId hid hfit] at h₁
  rw [uploadId_of_requestId hid' hfit'] at h₂
  exact (Option.some.inj h₁).trans (Option.some.inj h₂).symm

/-- Requests 0 and 1 are about the same movie. -/
def sameTitle (q : Nat) : Json :=
  if q = 0 then oneRequest 7 0 else if q = 1 then oneRequest 8 0 else oneRequest 7 1

theorem requests_do_not_mix_sample :
    ∃ c, ReachableFrom movieWorld (fun _ => True) (composeReviews sameTitle) c ∧
      storeReviewCalls 7 c.trace ≠ [] ∧ ShareOnlyTitle sameTitle 0 1 c.trace ∧
      PassesOwnReviews sameTitle 0 7 c.trace ∧ PassesOwnReviews sameTitle 1 8 c.trace := by
  obtain ⟨c, hc, hsent⟩ :
      ∃ c, ReachableFrom movieWorld (fun _ => True) (composeReviews sameTitle) c ∧
        storeReviewCalls 7 c.trace ≠ [] :=
    ⟨_, reachable_of_labels untilInsert (fun _ _ => trivial) rfl, by decide⟩
  exact ⟨c, hc, hsent, requests_do_not_mix rfl rfl (by decide) (by decide) (by decide) (fun _ _ => rfl)
    (fun _ _ => rfl) hc⟩

/-- The id of the movie that request 0 has cached is read by request 1. -/
theorem requests_share_cached_title :
    ∃ c, ReachableFrom movieWorld (fun _ => True) (composeReviews sameTitle) c ∧
      (sameTitle 0).requestId = some 7 ∧ (sameTitle 1).requestId = some 8 ∧
      ∃ e ∈ c.trace, ∃ e' ∈ c.trace, e.thread.1 = 0 ∧ e'.thread.1 = 1 ∧
        e.op = .set (ascii "VXA=") (ascii "m1") 0 ∧ e'.op = .get (ascii "VXA=") :=
  ⟨_, reachable_of_labels (okRun (List.replicate 3 (0, .main) ++ List.replicate 12 (0, .job .movieId) ++
    List.replicate 3 (1, .main) ++ List.replicate 4 (1, .job .movieId))) (fun _ _ => trivial) rfl,
    rfl, rfl, by decide⟩

end Isolation

end MediaService
