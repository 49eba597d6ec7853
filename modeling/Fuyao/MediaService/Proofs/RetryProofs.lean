import Fuyao.MediaService.Proofs.ComposeProofs

/-!
# Proofs: callers that try again

A caller whose upload returned -1 makes the same call again. Each of its attempts is a party of the
gathering of its own. If an attempt that stored its component could not count it, the next attempt
finds the component stored, and the component is never counted; where that does not happen, and
composing does not fail, the review is composed.
-/

namespace MediaService

open Cpp Concurrency Gather

section Retry

variable {ι : Type} {calls : ι → Call} {retries : ι → ℕ} {r : Int64} {w₀ : World}
  {c : ServiceConfig ι}

theorem retrySession_lawful : (retrySession calls r).Lawful := by
  refine callSession_lawful (fun _ => id) ?_ (fun _ => by simp) ?_ fun _ _ _ _ _ _ _ _ _ => by simp
  · rintro p hp rfl
    cases hp
  · rintro ⟨i, ch, hadm, hf⟩
    exact absurd hf hadm

/-- An attempt that returned 0 has done its duties. -/
theorem done_of_returned_zero {k : {i // (calls i).req_id = r} × ℕ}
    {v : {i // (calls i).req_id = r} × ℕ → Phase Component Review} {p : Phase Component Review}
    (h : (retrySession calls r).Ends k v (.ok 0) p) : p.done = true := by
  cases h with
  | done hp => exact hp
  | repeated hk hc hs hr =>
    obtain ⟨n, hn, w, w', hw, hgood⟩ := hr
    exact absurd (readsPartialCounter_get hn hw) hgood.1
  | aborted hp hf =>
    obtain ⟨o, hop, hfail⟩ := hf
    obtain ⟨e, hgood, hthread, hcompose⟩ := failsToCompose_of_mayFail hop hfail
    refine absurd hcompose (hgood.2 ?_)
    rw [hthread]
    exact k.1.2

variable [DecidableEq ι]

/-- A caller that returns 0 has an attempt that has done its duties. -/
theorem retryUpload_wp (i : {i // (calls i).req_id = r}) (n : ℕ)
    {v : {i // (calls i).req_id = r} × ℕ → Phase Component Review} (hv : ∀ m ≤ n, v (i, m) = .idle)
    {T : List (ServiceEvent ι)} :
    (retrySession calls r).logic.wp i (retryUpload .anyRuntime (calls i) n)
      (fun out v' _ => out = .ok 0 → ∃ m, (v' (i, m)).done = true) v T := by
  have hrun : ∀ m {v : {i // (calls i).req_id = r} × ℕ → Phase Component Review}
      {T : List (ServiceEvent ι)}, v (i, m) = .idle → (retrySession calls r).logic.wp i
        ((calls i).run .anyRuntime) (fun out v' _ => ∃ p, v' = Function.update v (i, m) p ∧
          (retrySession calls r).Ends (i, m) v' out p) v T :=
    fun m _ _ hm => run_wp retrySession_lawful (by simp) (i, m) hm
  have hlast : ∀ {m p out} {v v' : {i // (calls i).req_id = r} × ℕ → Phase Component Review},
      (retrySession calls r).Ends (i, m) v' out p → out = .ok 0 →
      ∃ m', (Function.update v (i, m) p (i, m')).done = true := by
    rintro m p out v v' hends rfl
    exact ⟨m, by rw [Function.update_self]; exact done_of_returned_zero hends⟩
  induction n generalizing v T with
  | zero =>
    refine Logic.wp_mono (hrun 0 (hv 0 le_rfl)) ?_
    rintro out _ T' - ⟨p, rfl, hends⟩
    exact hlast hends
  | succ n ih =>
    refine Logic.wp_bind (Logic.wp_mono (hrun (n + 1) (hv _ le_rfl)) ?_)
    rintro (e | ret) _ T' - ⟨p, rfl, hends⟩
    · exact hlast hends
    by_cases hret : ret = -1
    · simp only [hret, if_true]
      refine ih fun m hm => ?_
      rw [Function.update_of_ne (by simp; omega)]
      exact hv m (by omega)
    · simp only [hret, if_false]
      exact hlast hends

/-- A caller for another request is no matter of the session. -/
theorem retryUpload_wp_of_ne {call : Call} (h : call.req_id ≠ r) {i : ι} (n : ℕ)
    {v : {i // (calls i).req_id = r} × ℕ → Phase Component Review} {T : List (ServiceEvent ι)} :
    (retrySession calls r).logic.wp i (retryUpload .anyRuntime call n) (fun _ v' _ => v' = v) v T := by
  induction n generalizing T with
  | zero => exact run_wp_of_ne retrySession_lawful h
  | succ n ih =>
    refine Logic.wp_bind (Logic.wp_mono (run_wp_of_ne retrySession_lawful h) ?_)
    rintro (e | ret) _ T' - rfl
    · rfl
    by_cases hret : ret = -1
    · simpa only [hret, if_true] using ih
    · simp only [hret, if_false]
      rfl

/-- Callers try again whenever their upload returned -1, and operations may fail without effect. If
each component has an upload that returned 0, no upload of the request took the branch for a component
that is stored already with a counter that was not full, and no operation of `ComposeAndUpload` for
the request failed, then the review has been composed. -/
theorem review_composed_of_all_returned_zero (hfresh : FreshFor r w₀)
    (hc : ReachableFrom w₀ FailStop (retryUploads calls retries) c)
    (hread : ∀ e ∈ c.trace, ¬ ReadsPartialCounter r e)
    (hcompose : ∀ e ∈ c.trace, (calls e.thread).req_id = r → ¬ failsToCompose r e)
    (hzero : ∀ comp, ∃ i, (calls i).req_id = r ∧ (calls i).component = comp ∧
      (c.threads i).outcome = some (.ok 0)) :
    storeReviewCalls r c.trace ≠ [] := by
  have hwp : ∀ i, (retrySession calls r).logic.wp i (retryUploads calls retries i)
      (fun out v _ => ∀ h : (calls i).req_id = r, out = .ok 0 → ∃ m, (v (⟨i, h⟩, m)).done = true)
      (fun _ => .idle) [] := by
    intro i
    by_cases h : (calls i).req_id = r
    · exact Logic.wp_mono (retryUpload_wp ⟨i, h⟩ (retries i) fun _ _ => rfl) fun _ _ _ _ hz _ => hz
    · exact Logic.wp_mono (retryUpload_wp_of_ne h (retries i)) fun _ _ _ _ _ h' => absurd h' h
  obtain ⟨a, hinv, hth⟩ := Session.sound_of_fresh retrySession_lawful hfresh rfl hwp hc
    fun e he => ⟨hread e he, hcompose e he⟩
  have hne : a.outputs ≠ [] := by
    refine hinv.gather.outputs_ne_nil fun comp => ?_
    obtain ⟨i, hi, hcomp, hout⟩ := hzero comp
    obtain ⟨T, -, hwp⟩ := hth i
    obtain ⟨m, hm⟩ := Logic.wp_outcome hwp hout hi rfl
    have hview : (retrySession calls r).logic.view i a (⟨i, hi⟩, m) = a.phase (⟨i, hi⟩, m) :=
      (Session.view_of_owner rfl rfl).symm
    exact ⟨(⟨i, hi⟩, m), hcomp, hview ▸ hm⟩
  rw [show storeReviewCalls r c.trace = _ from hinv.out]
  simpa using hne

/-- The text's first attempt fails before it stores anything, and its second attempt succeeds. -/
theorem review_composed_of_all_returned_zero_sample :
    ∃ c, ReachableFrom World.empty FailStop (retryUploads sampleCalls fun _ => 1) c ∧
      storeReviewCalls 7 c.trace ≠ [] := by
  obtain ⟨c, hc, hread, hcompose, hzero⟩ :
      ∃ c, ReachableFrom World.empty FailStop (retryUploads sampleCalls fun _ => 1) c ∧
        (∀ e ∈ c.trace, ¬ ReadsPartialCounter 7 e) ∧
        (∀ e ∈ c.trace, (sampleCalls e.thread).req_id = 7 → ¬ failsToCompose 7 e) ∧
        ∀ comp, ∃ i, (sampleCalls i).req_id = 7 ∧ (sampleCalls i).component = comp ∧
          (c.threads i).outcome = some (.ok 0) :=
    ⟨_, reachable_of_labels ([.run 0 ⟨.ok, 0⟩, .run 0 ⟨.ok, 0⟩, .run 0 ⟨.failed, 0⟩, .run 0 ⟨.ok, 0⟩] ++
      okRun ((List.replicate 5 [0, 1, 2, 3]).flatten ++ List.replicate 7 3)) (by decide) rfl,
      by decide, by decide, by decide⟩
  exact ⟨c, hc, review_composed_of_all_returned_zero (fun _ _ => rfl) hc hread hcompose hzero⟩

/-- The text is stored and its count fails; the caller tries again, finds the text stored and returns
0. All four components have been uploaded with success, and no review is composed. -/
theorem review_lost_after_failed_incr :
    ∃ c, ReachableFrom World.empty FailStop (retryUploads sampleCalls fun _ => 1) c ∧
      (∀ i ∈ [0, 1, 2, 3], (c.threads i).outcome = some (.ok 0)) ∧ storeReviewCalls 7 c.trace = [] :=
  ⟨_, reachable_of_labels ([.run 0 ⟨.ok, 0⟩, .run 0 ⟨.ok, 0⟩, .run 0 ⟨.ok, 0⟩, .run 0 ⟨.failed, 0⟩,
    .run 0 ⟨.ok, 0⟩] ++ okRun (List.replicate 5 [0, 1, 2, 3]).flatten) (by decide) rfl,
    by decide, by decide⟩

end Retry

end MediaService
