import Fuyao.MediaService.Proofs.ComposeProofs
import Fuyao.MediaService.Proofs.ProvenanceProofs

/-!
# Proofs: keys that expire

`ComposeAndUpload` skips a key it does not find, so a review whose component has expired is passed on
without it. A review that is passed on is complete when each of its keys was there when it was asked
for, whatever has expired before and in between.
-/

namespace MediaService

open Cpp Concurrency

/-- The text under which a component is kept determines it. -/
theorem Component.copy_eq_of_encode {c : Component} {val val' rev : Review}
    (h : c.encode val = c.encode val') : c.copy val rev = c.copy val' rev := by
  cases c with
  | text => simp only [copy, CString.ext (s := val.text) (t := val'.text) h]
  | uniqueId => simp only [copy, Int64.toInt_inj.mp (toStr_injective h)]
  | movieId => simp only [copy, CString.ext (s := val.movie_id) (t := val'.movie_id) h]
  | rating => simp only [copy, Int64.toInt_inj.mp (toStr_injective h)]

section Expiry

variable {ι : Type} {calls : ι → Call} {r : Int64} {w₀ : World} {c : ServiceConfig ι}

/-- A call of any request keeps what is known about the components of request `r`. -/
theorem uploads_provenance (i : ι) {T : List (ServiceEvent ι)} :
    (provenance (fun i => (calls i).req_id = r) r).wp i (uploads calls i) (fun _ _ _ => True) () T := by
  by_cases hr : (calls i).req_id = r
  · refine upload_provenance (calls i).op hr hr fun review T' hreview => ?_
    exact performs_invoke hreview fun _ _ _ => trivial
  · refine wp_of_respects (upload_uses (fun _ => respects_of_isLocal) (calls i).review (calls i).op
      (fun o ho => respects_of_upload ho fun h => absurd h hr) fun review hreview => ?_)
    refine uses_ask (o := .invoke (.exp02StoreReview4 review)) ⟨fun comp hkey => (by cases hkey), ?_⟩
    rintro review' hop hr'
    obtain rfl : review = review' := by simpa using hop
    exact hr (hreview.symm.trans hr')

/-- The upload of a component is the call of a thread that has this component. -/
theorem call_of_uploaded [DecidableEq ι] {adm : ServiceLabel ι → Prop}
    (hc : ReachableFrom w₀ adm (uploads calls) c) {comp : Component} {val : Review}
    (h : Uploaded (fun i => (calls i).req_id = r) r comp val c.trace) :
    ∃ i, (calls i).req_id = r ∧ (calls i).component = comp ∧
      comp.encode val = comp.encode (calls i).review := by
  have htouch := trace_uses (S := fun i o => o.isLocal = true ∨ (∃ f, o = .invoke f) ∨
    UploadTouches (calls i).review (calls i).op o) (Q := fun _ _ => True) (fun i =>
      upload_uses (fun _ ho => .inl ho) _ _ (fun _ ho => .inr (.inr ho)) fun review _ =>
        uses_ask (o := .invoke (.exp02StoreReview4 review)) (.inr (.inl ⟨_, rfl⟩))) hc
  obtain ⟨e, he, hmine, hop⟩ := h
  refine ⟨e.thread, hmine, ?_⟩
  have ho := htouch e he
  rw [hop] at ho
  rcases ho with ho | ⟨f, ho⟩ | ho
  · cases ho
  · cases ho
  rcases ho.add_cases with hkey | ⟨hkey, hvalue⟩
  · exact absurd hkey.symm (keyCounter_ne_keyComponent _ _ _)
  · have hcomp : (calls e.thread).component = comp :=
      Component.op_injective ((Call.op_eq _).symm.trans (keyComponent_inj hkey).2.symm)
    rw [Call.op_eq, hcomp, componentValue_op] at hvalue
    exact ⟨hcomp, (Option.some.inj hvalue).symm⟩

/-- Keys expire while uploads of the request are under way. If each `Get` of a component key of the
request is made while memcached holds the key, every review passed to `exp02StoreReview4` consists of
four components that were uploaded for the request. -/
theorem reviews_complete_of_components_present [DecidableEq ι] (hfresh : FreshFor r w₀)
    (hc : ReachableFrom w₀ Expiring (uploads calls) c)
    (hpresent : ∀ e ∈ c.trace, ∀ comp : Component, ¬ FindsNothing (keyComponent r comp.op) e) :
    ∀ review ∈ storeReviewCalls r c.trace, ∃ source : Component → ι,
      (∀ comp, (calls (source comp)).req_id = r ∧ (calls (source comp)).component = comp) ∧
      review = assemble r fun comp => (calls (source comp)).review := by
  intro review hreview
  obtain ⟨e, he, hinvoked⟩ := List.mem_filterMap.mp hreview
  have hprov : ProvenanceInv (fun i => (calls i).req_id = r) r c.shared c.trace :=
    provenance_sound hfresh (fun i => uploads_provenance i) hc
  obtain ⟨hassembled, hsource⟩ := hprov.sent e he review hinvoked
  have hcall : ∀ comp, ∃ i, ((calls i).req_id = r ∧ (calls i).component = comp) ∧
      comp.copy (calls i).review review = review := by
    intro comp
    rcases hsource comp with ⟨val, hup, hcopy⟩ | ⟨-, e', he', hmiss⟩
    · obtain ⟨i, hr, hcomp, hval⟩ := call_of_uploaded hc hup
      exact ⟨i, ⟨hr, hcomp⟩, by rw [← Component.copy_eq_of_encode hval, hcopy]⟩
    · exact absurd hmiss (hpresent e' he' comp)
  choose source hmine hcopy using hcall
  exact ⟨source, hmine, eq_assemble hassembled hcopy⟩

/-- Time passes before the last upload reads the components, and no key is lost. -/
theorem reviews_complete_of_components_present_sample :
    ∃ c, ReachableFrom World.empty Expiring (uploads sampleCalls) c ∧
      storeReviewCalls 7 c.trace ≠ [] ∧
      ∀ review ∈ storeReviewCalls 7 c.trace, ∃ source : Component → Fin 5,
        (∀ comp, (sampleCalls (source comp)).req_id = 7 ∧
          (sampleCalls (source comp)).component = comp) ∧
        review = assemble 7 fun comp => (sampleCalls (source comp)).review := by
  obtain ⟨c, hc, hpresent, hsent⟩ :
      ∃ c, ReachableFrom World.empty Expiring (uploads sampleCalls) c ∧
        (∀ e ∈ c.trace, ∀ comp : Component, ¬ FindsNothing (keyComponent 7 comp.op) e) ∧
        storeReviewCalls 7 c.trace ≠ [] :=
    ⟨_, reachable_of_labels (okRun (List.replicate 5 [0, 1, 2, 3]).flatten ++
      List.replicate 10 (.env .tick) ++ okRun (List.replicate 7 3)) (by decide) rfl, by decide, by decide⟩
  exact ⟨c, hc, hsent, reviews_complete_of_components_present (fun _ _ => rfl) hc hpresent⟩

/-- All four components are stored and counted. Ten time units pass before the call that counted last
reads them, and the text expires: the review is passed on with an empty text. -/
theorem review_passed_without_text :
    ∃ c, ReachableFrom World.empty Expiring (uploads sampleCalls) c ∧
      ∃ review ∈ storeReviewCalls 7 c.trace, ∀ i, (sampleCalls i).component = .text →
        review.text ≠ (sampleCalls i).review.text :=
  ⟨_, reachable_of_labels (okRun (List.replicate 5 [0, 1, 2, 3]).flatten ++
    List.replicate 10 (.env .tick) ++ .env (.expire (keyComponent 7 .uploadText)) ::
    okRun (List.replicate 7 3)) (by decide) rfl, by decide⟩

end Expiry

end MediaService
