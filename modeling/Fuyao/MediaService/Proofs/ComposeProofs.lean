import Fuyao.MediaService.Proofs.CallersProofs

/-!
# Proofs: when and from what a review is composed

Every run of upload calls, seen from one request. If each component is uploaded once and nothing
fails, the review is composed exactly once, from the values that were uploaded. Whatever fails, a
composed review is complete, and all reviews composed for a request are equal.
-/

namespace MediaService

open Cpp Concurrency Gather

section Uploads

variable {ι : Type} {calls : ι → Call} {r : Int64} {adm : ServiceLabel ι → Prop}
  {good : ServiceEvent ι → Prop} {Allowed : Phase Component Review → Prop} {w₀ : World}
  {c : ServiceConfig ι}

/-- A composed review is made of what the parties in the store uploaded. -/
theorem outputs_review {a : State Component {i // (calls i).req_id = r} Review}
    (hinv : (callSession calls r id adm good Allowed).Inv c.shared c.trace a)
    {k : {i // (calls i).req_id = r}} {v : Component → Review} (hv : (k, v) ∈ a.outputs)
    (comp : Component) :
    ∃ i, (calls i).req_id = r ∧ (calls i).component = comp ∧ v comp = (calls i).review := by
  obtain ⟨⟨i, hi⟩, hs⟩ := hinv.gather.outputs_store k v hv comp
  exact ⟨i, hi, (hinv.gather.store_comp _ _ _ hs).1, hinv.val _ _ _ hs⟩

/-- Where nothing fails, no operation may fail. -/
theorem not_mayFail_of_reliable {κ : Type} {caller : κ → {i // (calls i).req_id = r}} {i : ι}
    {o : Op} : ¬ (callSession calls r caller Reliable good Allowed).MayFail i o := by
  rintro (⟨ch, n, w, w', hadm, -, -, hf⟩ | ⟨ch, n, w, w', hadm, -, -, hf⟩) <;>
  · rw [show ch.fault = .ok from hadm] at hf
    cases hf

/-- Where nothing fails, only the phases of parties for which nothing goes wrong occur, provided that
nobody reads a full counter of a component stored by another party. -/
theorem callSession_lawful_of_reliable
    (hagain : ∀ (k k' : {i // (calls i).req_id = r}) i w w', k' ≠ k →
      (calls k').component = (calls k).component →
      w.memcached.get (keyCounter r) = some (toStr numComponents) →
      ¬ good ⟨i, .get (keyCounter r), some (some (toStr numComponents)), w, w'⟩) :
    (callSession calls r id Reliable good fun p => p.regular = true).Lawful := by
  have hok : ∀ (i : ι) ch f, Reliable (.run i ch) → ch.fault = f → f = .ok := by
    intro i ch f hadm hf
    exact hf.symm.trans hadm
  refine callSession_lawful (fun _ => id) (fun _ => id) ?_ ?_ ?_
  · rintro ⟨i, ch, hadm, hf⟩
    cases hok i ch _ hadm hf
  · rintro ⟨i, ch, hadm, hf⟩
    cases hok i ch _ hadm hf
  · intro k k' i w w' hne hcomp hw hgood
    exact absurd hgood (hagain k k' i w w' hne hcomp hw)

/-- Where nothing fails, a call that ends returns 0 and has done its duties, unless there is another
call for the same component. -/
theorem done_of_reliable {k : {i // (calls i).req_id = r}}
    {v : {i // (calls i).req_id = r} → Phase Component Review} {out : Except Exn Int}
    {p : Phase Component Review}
    (hinj : ∀ i j, (calls i).req_id = r → (calls j).req_id = r →
      (calls i).component = (calls j).component → i = j)
    (hfit : ∀ i, (calls i).req_id = r → (calls i).component = .rating →
      FitsInt (calls i).review.rating)
    (h : (callSession calls r id Reliable good Allowed).Ends k v out p) :
    out = .ok 0 ∧ p.done = true := by
  cases h with
  | failed hp hf => exact absurd hf.choose_spec not_mayFail_of_reliable
  | done hp => exact ⟨rfl, hp⟩
  | @repeated k' hk hc _ _ => exact absurd (Subtype.ext (hinj _ _ k'.2 k.2 hc)) hk
  | aborted hp hf => exact absurd hf.choose_spec.2 not_mayFail_of_reliable
  | threw hp hf =>
    obtain ⟨k', val, hc, rfl, hnot⟩ := hf
    exact absurd (hfit _ k'.2 hc) hnot

variable [DecidableEq ι]

/-- In every run of upload calls the invariant of the session holds, and each call for the request
that has ended has ended in one of the ways `Session.Ends` lists. -/
theorem uploads_sound (hS : (callSession calls r id adm good Allowed).Lawful)
    (hre : ∀ v, Allowed (.again v) → Allowed .recomposed) (hfresh : FreshFor r w₀)
    (hc : ReachableFrom w₀ adm (uploads calls) c) (hgood : ∀ e ∈ c.trace, good e) :
    ∃ a, (callSession calls r id adm good Allowed).Inv c.shared c.trace a ∧
      ∀ (k : {i // (calls i).req_id = r}) out, (c.threads k).outcome = some out →
        ∃ v, (callSession calls r id adm good Allowed).Ends k v out (a.phase k) := by
  have hwp : ∀ i, (callSession calls r id adm good Allowed).logic.wp i (uploads calls i)
      (fun out v _ => ∀ h : (calls i).req_id = r,
        (callSession calls r id adm good Allowed).Ends ⟨i, h⟩ v out (v ⟨i, h⟩))
      (fun _ => .idle) [] := by
    intro i
    by_cases h : (calls i).req_id = r
    · refine Logic.wp_mono (run_wp hS hre ⟨i, h⟩ rfl) ?_
      rintro out v T - ⟨p, rfl, hends⟩ h'
      rwa [Function.update_self]
    · exact Logic.wp_mono (run_wp_of_ne hS h) fun _ _ _ _ _ h' => absurd h' h
  obtain ⟨a, hinv, hth⟩ := Session.sound_of_fresh hS hfresh rfl hwp hc hgood
  refine ⟨a, hinv, fun ⟨i, hi⟩ out hout => ?_⟩
  obtain ⟨T, -, hwp⟩ := hth i
  have hview : (callSession calls r id adm good Allowed).logic.view i a ⟨i, hi⟩ = a.phase ⟨i, hi⟩ :=
    (Session.view_of_owner rfl rfl).symm
  have hends := Logic.wp_outcome hwp hout hi
  rw [hview] at hends
  exact ⟨_, hends⟩

/-- If nothing fails and each component has one call, then once these calls have ended they have
returned 0, and the review has been composed once. -/
theorem composed_once_of_one_call_each
    (hone : ∀ comp, ∃ i, (calls i).req_id = r ∧ (calls i).component = comp)
    (hinj : ∀ i j, (calls i).req_id = r → (calls j).req_id = r →
      (calls i).component = (calls j).component → i = j)
    (hfit : ∀ i, (calls i).req_id = r → (calls i).component = .rating →
      FitsInt (calls i).review.rating)
    (hfresh : FreshFor r w₀) (hc : ReachableFrom w₀ Reliable (uploads calls) c)
    (hend : ∀ i, (calls i).req_id = r → (c.threads i).outcome ≠ none) :
    (∀ i, (calls i).req_id = r → (c.threads i).outcome = some (.ok 0)) ∧
      ∃ v, storeReviewCalls r c.trace = [assemble r v] ∧ ∀ comp, ∃ i, (calls i).req_id = r ∧
        (calls i).component = comp ∧ v comp = (calls i).review := by
  have hS : (callSession calls r id Reliable (fun _ => True) fun p => p.regular = true).Lawful := by
    refine callSession_lawful_of_reliable ?_
    intro k k' i w w' hne hcomp
    exact absurd (Subtype.ext (hinj _ _ k'.2 k.2 hcomp)) hne
  obtain ⟨a, hinv, hends⟩ := uploads_sound hS (fun _ h => by cases h) hfresh hc fun _ _ => trivial
  have hdone : ∀ i (hi : (calls i).req_id = r), (c.threads i).outcome = some (.ok 0) ∧
      (a.phase ⟨i, hi⟩).done = true := by
    intro i hi
    obtain ⟨out, hout⟩ := Option.ne_none_iff_exists'.mp (hend i hi)
    obtain ⟨v, hv⟩ := hends ⟨i, hi⟩ out hout
    obtain ⟨rfl, hp⟩ := done_of_reliable hinj hfit hv
    exact ⟨hout, hp⟩
  refine ⟨fun i hi => (hdone i hi).1, ?_⟩
  have hne : a.outputs ≠ [] := hinv.gather.outputs_ne_nil fun comp => by
    obtain ⟨i, hi, hcomp⟩ := hone comp
    exact ⟨⟨i, hi⟩, hcomp, (hdone i hi).2⟩
  have hle : a.outputs.length ≤ 1 := hinv.gather.outputs_length_le fun h => by cases h
  obtain ⟨⟨k, v⟩, houts⟩ := List.length_eq_one_iff.mp
    (le_antisymm hle (List.length_pos_iff.mpr hne))
  refine ⟨v, ?_, outputs_review hinv (k := k) (by simp [houts])⟩
  have hout := hinv.out
  rw [houts] at hout
  exact hout

/-- If the four components of a request are uploaded by one call each, then in every interleaving
with each other and with calls for other requests, once the four calls have ended they have all
returned 0, and `exp02StoreReview4` has been invoked exactly once for the request, with exactly the
components that were uploaded. -/
theorem review_composed_exactly_once {text : CString 512} {review_id rating unused : Int64}
    {movie_id : CString 128} (hrating : FitsInt rating) {it iu im ir : ι}
    (ht : calls it = .text ⟨r, text⟩) (hu : calls iu = .uniqueId ⟨r, review_id⟩)
    (hm : calls im = .movieId ⟨r, movie_id, unused⟩) (hr : calls ir = .rating ⟨r, rating⟩)
    (honly : ∀ i, (calls i).req_id = r → i ∈ [it, iu, im, ir]) (hfresh : FreshFor r w₀)
    (hc : ReachableFrom w₀ Reliable (uploads calls) c)
    (hend : ∀ i ∈ [it, iu, im, ir], (c.threads i).outcome ≠ none) :
    (∀ i ∈ [it, iu, im, ir], (c.threads i).outcome = some (.ok 0)) ∧
      storeReviewCalls r c.trace =
        [{ Review.zero with req_id := r, review_id, movie_id, text, rating }] := by
  let slot := Component.threadOf it iu im ir
  have hslot : ∀ i, (calls i).req_id = r → i = slot (calls i).component := by
    intro i hi
    have hmem := honly i hi
    simp only [List.mem_cons, List.not_mem_nil, or_false] at hmem
    rcases hmem with rfl | rfl | rfl | rfl <;>
      simp [slot, Component.threadOf, ht, hu, hm, hr, Call.component]
  have hreq : ∀ i ∈ [it, iu, im, ir], (calls i).req_id = r := by
    simp [ht, hu, hm, hr, Call.req_id, Call.review]
  have hone : ∀ comp, (calls (slot comp)).req_id = r ∧ (calls (slot comp)).component = comp := by
    rintro (_ | _ | _ | _) <;>
      simp [slot, Component.threadOf, ht, hu, hm, hr, Call.req_id, Call.review, Call.component]
  have hfit : ∀ i, (calls i).req_id = r → (calls i).component = .rating →
      FitsInt (calls i).review.rating := by
    intro i hi hcomp
    rw [hslot i hi, hcomp, show slot .rating = ir from rfl, hr]
    exact hrating
  obtain ⟨hzero, v, hv, hvals⟩ := composed_once_of_one_call_each (fun comp => ⟨_, hone comp⟩)
    (fun i j hi hj hij => by rw [hslot i hi, hslot j hj, hij]) hfit hfresh hc
    fun i hi => hend i (honly i hi)
  refine ⟨fun i hi => hzero i (hreq i hi), hv.trans ?_⟩
  have hval : ∀ comp, v comp = (calls (slot comp)).review := by
    intro comp
    obtain ⟨i, hi, rfl, hvi⟩ := hvals comp
    rw [hvi, ← hslot i hi]
  simp [assemble, hval, slot, Component.threadOf, ht, hu, hm, hr, Call.review]

/-- The four uploads of request 7 and one of request 8. -/
def sampleCalls : Fin 5 → Call
  | 0 => .text ⟨7, ⟨ascii "good", by decide, by decide⟩⟩
  | 1 => .uniqueId ⟨7, -3⟩
  | 2 => .movieId ⟨7, ⟨ascii "m1", by decide, by decide⟩, 0⟩
  | 3 => .rating ⟨7, 5⟩
  | 4 => .rating ⟨8, 1⟩

/-- The calls take turns, and the one that counted last composes the review. -/
theorem review_composed_exactly_once_sample :
    ∃ c, ReachableFrom World.empty Reliable (uploads sampleCalls) c ∧
      storeReviewCalls 7 c.trace = [{ Review.zero with
        req_id := 7
        review_id := -3
        movie_id := ⟨ascii "m1", by decide, by decide⟩
        text := ⟨ascii "good", by decide, by decide⟩
        rating := 5 }] := by
  obtain ⟨c, hc, hend⟩ : ∃ c, ReachableFrom World.empty Reliable (uploads sampleCalls) c ∧
      ∀ i ∈ [0, 1, 2, 3], (c.threads i).outcome ≠ none :=
    ⟨_, reachable_okRun ((List.replicate 5 [0, 1, 2, 3, 4]).flatten ++ List.replicate 7 3) rfl,
      by decide⟩
  exact ⟨c, hc, (review_composed_exactly_once (by decide) (show sampleCalls 0 = _ from rfl)
    (show sampleCalls 1 = _ from rfl) (show sampleCalls 2 = _ from rfl)
    (show sampleCalls 3 = _ from rfl) (by decide) (fun _ _ => rfl) hc hend).2⟩

/-- Whatever fails, with or without effect: the counter of a request never runs ahead of its
components; when `exp02StoreReview4` is invoked for the request, its caller has found all components,
and no `Get` of a component ever misses; all reviews it is invoked with are equal, and each of their
components is what the first `Add` that stored that component stored. -/
theorem composed_reviews_complete_and_equal (hfresh : FreshFor r w₀)
    (hc : ReachableFrom w₀ Faulty (uploads calls) c) :
    (∀ s, c.shared.memcached.get (keyCounter r) = some s → ∃ n : ℕ, s = toStr n ∧ n ≤ numComponents ∧
      n ≤ (Finset.univ.filter fun comp : Component =>
        c.shared.memcached.get (keyComponent r comp.op) ≠ none).card) ∧
    (∀ T₁ e T₂ review, c.trace = T₁ ++ e :: T₂ → reviewInvoked r e = some review →
      ∀ comp : Component, FoundGet e.thread (keyComponent r comp.op) T₁) ∧
    (∀ e ∈ c.trace, ∀ comp : Component, ¬ MissedGet (keyComponent r comp.op) e) ∧
    (∀ review ∈ storeReviewCalls r c.trace, ∀ review' ∈ storeReviewCalls r c.trace,
      review = review') ∧
    ∀ review ∈ storeReviewCalls r c.trace, ∀ comp : Component,
      firstStored (keyComponent r comp.op) c.trace = some (comp.encode review) := by
  have hS : (callSession calls r id Faulty (fun _ => True) fun _ => True).Lawful :=
    callSession_lawful (fun _ => id) (fun _ _ => trivial) (fun _ => trivial)
      (fun _ => ⟨trivial, trivial⟩) fun _ _ _ _ _ _ _ _ _ => ⟨fun _ => trivial, trivial⟩
  obtain ⟨a, hinv, -⟩ := uploads_sound hS (fun _ => id) hfresh hc fun _ _ => trivial
  have hout : ∀ review ∈ storeReviewCalls r c.trace,
      ∃ k v, (k, v) ∈ a.outputs ∧ review = assemble r v := by
    intro review hmem
    rw [show storeReviewCalls r c.trace = _ from hinv.out] at hmem
    obtain ⟨⟨k, v⟩, hkv, rfl⟩ := List.mem_map.mp hmem
    exact ⟨k, v, hkv, rfl⟩
  refine ⟨?_, ?_, hinv.found, ?_, ?_⟩
  · intro s hs
    rw [show c.shared.memcached.get (keyCounter r) = _ from hinv.counter] at hs
    obtain ⟨n, hn, rfl⟩ := Option.map_eq_some_iff.mp hs
    refine ⟨n, rfl, Session.counter_le hinv hn, (hinv.gather.counter_le hn).trans
      (Finset.card_le_card fun comp hcomp => ?_)⟩
    have hget : c.shared.memcached.get (keyComponent r comp.op) = _ := hinv.store comp
    have hstored : (a.store comp).isSome = true := by simpa [State.storedSet] using hcomp
    obtain ⟨x, hx⟩ := Option.isSome_iff_exists.mp hstored
    simp [hget, hx]
  · intro T₁ e T₂ review hT he
    exact hinv.gets T₁ e T₂ hT ⟨review, reviewInvoked_eq_some he⟩
  · intro review hmem review' hmem'
    obtain ⟨k, v, hkv, rfl⟩ := hout review hmem
    obtain ⟨k', v', hkv', rfl⟩ := hout review' hmem'
    rw [hinv.gather.outputs_agree hkv hkv']
  · intro review hmem comp
    obtain ⟨k, v, hkv, rfl⟩ := hout review hmem
    obtain ⟨k', hs⟩ := hinv.gather.outputs_store k v hkv comp
    refine (hinv.first comp).trans ?_
    rw [hs]
    cases comp <;> rfl

/-- The four uploads of request 7 and a second upload of its text. -/
def repeatedCalls : Fin 5 → Call
  | 4 => .text ⟨7, ⟨ascii "bad", by decide, by decide⟩⟩
  | i => sampleCalls i

/-- The second upload of the text fails after having created the counter; the others compose the
review. -/
theorem composed_reviews_complete_and_equal_sample :
    ∃ c, ReachableFrom World.empty Faulty (uploads repeatedCalls) c ∧
      (storeReviewCalls 7 c.trace).length = 1 ∧
      ∀ review ∈ storeReviewCalls 7 c.trace, ∀ comp : Component,
        firstStored (keyComponent 7 comp.op) c.trace = some (comp.encode review) := by
  obtain ⟨c, hc, hlen⟩ : ∃ c, ReachableFrom World.empty Faulty (uploads repeatedCalls) c ∧
      (storeReviewCalls 7 c.trace).length = 1 :=
    ⟨_, reachable_of_labels ([.run 4 ⟨.ok, 0⟩, .run 4 ⟨.unreported, 0⟩, .run 4 ⟨.ok, 0⟩] ++
      okRun ((List.replicate 5 [0, 1, 2, 3]).flatten ++ List.replicate 7 3)) (by decide) rfl, by decide⟩
  exact ⟨c, hc, hlen, (composed_reviews_complete_and_equal (fun _ _ => rfl) hc).2.2.2.2⟩

/-- Where nothing fails and no `Get` reads a full counter, which only a repeated upload does, the
review of a request is composed at most once. -/
theorem review_composed_at_most_once (hfresh : FreshFor r w₀)
    (hc : ReachableFrom w₀ Reliable (uploads calls) c) (hread : ∀ e ∈ c.trace, ¬ ReadsFullCounter r e) :
    (storeReviewCalls r c.trace).length ≤ 1 := by
  have hS : (callSession calls r id Reliable (fun e => ¬ ReadsFullCounter r e)
      fun p => p.regular = true).Lawful := by
    refine callSession_lawful_of_reliable ?_
    intro k k' i w w' _ _ hw hgood
    exact hgood ⟨by simp [readBy_get], hw⟩
  obtain ⟨a, hinv, -⟩ := uploads_sound hS (fun _ h => by cases h) hfresh hc hread
  rw [show storeReviewCalls r c.trace = _ from hinv.out, List.length_map]
  exact hinv.gather.outputs_length_le fun h => by cases h

/-- The text is uploaded again while the counter is at 1. -/
theorem review_composed_at_most_once_sample :
    ∃ c, ReachableFrom World.empty Reliable (uploads repeatedCalls) c ∧
      (∀ i, (c.threads i).outcome = some (.ok 0)) ∧ (storeReviewCalls 7 c.trace).length ≤ 1 := by
  obtain ⟨c, hc, hread, hend⟩ : ∃ c, ReachableFrom World.empty Reliable (uploads repeatedCalls) c ∧
      (∀ e ∈ c.trace, ¬ ReadsFullCounter 7 e) ∧ ∀ i, (c.threads i).outcome = some (.ok 0) :=
    ⟨_, reachable_okRun ((List.replicate 5 [0, 4]).flatten ++
      (List.replicate 5 [1, 2, 3]).flatten ++ List.replicate 7 3) rfl, by decide, by decide⟩
  exact ⟨c, hc, hend, review_composed_at_most_once (fun _ _ => rfl) hc hread⟩

/-- A text that is uploaded again after the review has been composed makes the review be composed
again. -/
theorem review_composed_twice :
    ∃ c, ReachableFrom World.empty Reliable (uploads repeatedCalls) c ∧
      (storeReviewCalls 7 c.trace).length = 2 :=
  ⟨_, reachable_okRun ((List.replicate 5 [0, 1, 2, 3]).flatten ++ List.replicate 7 3 ++
    List.replicate 12 4) rfl, by decide⟩

end Uploads

end MediaService
