import Fuyao.MediaService.Callers
import Fuyao.MediaService.Proofs.FootprintProofs
import Fuyao.MediaService.Proofs.UploadProofs

/-!
# Proofs: runs of upload calls

The session of a request accounts for every run of upload calls: calls for other requests do not
matter to it, and each call for the request follows `Session.upload_wp`.
-/

namespace MediaService

open Cpp Concurrency Gather

section Runs

variable {ι : Type} [DecidableEq ι] {w₀ : World} {threads : ι → Service Int} {c : ServiceConfig ι}

/-- An executed list of admissible labels is a run. -/
theorem reachable_of_labels {adm : ServiceLabel ι → Prop} (ls : List (ServiceLabel ι))
    (hadm : ∀ l ∈ ls, adm l)
    (h : runLabels (Config.step machine) ls (Config.initial w₀ threads) = some c) :
    ReachableFrom w₀ adm threads c :=
  reach_of_runLabels ls (admissibleRun_of_labels hadm) h

theorem reachable_okRun (is : List ι)
    (h : runLabels (Config.step machine) (okRun is) (Config.initial w₀ threads) = some c) :
    ReachableFrom w₀ Reliable threads c := by
  refine reachable_of_labels _ (fun l hl => ?_) h
  obtain ⟨i, -, rfl⟩ := List.mem_map.mp hl
  rfl

end Runs

namespace Session

variable {ι κ : Type} {S : Session ι κ} {i : ι}

/-- A call for another request is foreign. -/
theorem upload_foreign (hS : S.Lawful) {worker : FaasWorker} {val : Review} (op : UploadOp)
    (hr : val.req_id ≠ S.req_id)
    (hworker : ∀ review, review.req_id = val.req_id →
      (worker.invoke_func_fn_ (.exp02StoreReview4 review)).Uses S.Foreign fun _ => True) :
    (upload worker val op).Uses S.Foreign fun _ => True := by
  refine upload_uses (fun _ => foreign_of_isLocal hS) val op (fun o ho => ?_) hworker
  obtain ⟨key, hkey, hcomp⟩ := ho.exists_key
  exact foreign_of_key hS hkey fun hcomp' => hr (hcomp.req_id_eq hcomp')

variable [DecidableEq ι]

/-- The invariant holds in every configuration that is reached from a world that is fresh for the
request. -/
theorem sound_of_fresh (hS : S.Lawful) {w₀ : World}
    (hfresh : ∀ key, IsComposeKey S.req_id key → w₀.memcached.get key = none)
    (hout : S.out w₀ [] = []) {p : ι → Service Int}
    {Q : ι → Except Exn Int → (κ → Phase Component Review) → List (ServiceEvent ι) → Prop}
    (hwp : ∀ i, S.logic.wp i (p i) (Q i) (fun _ => .idle) []) {c : ServiceConfig ι}
    (hc : ReachableFrom w₀ S.adm p c) (hgood : ∀ e ∈ c.trace, S.good e) :
    ∃ a, S.Inv c.shared c.trace a ∧
      ∀ i, ∃ T, T <+: c.trace ∧ S.logic.wp i (c.threads i) (Q i) (S.logic.view i a) T := by
  have hview : ∀ i, S.logic.view i State.initial = fun _ => .idle := by
    intro i
    funext k
    simp [logic, State.initial]
  refine Logic.sound (P := S.logic) State.initial ?_ (fun i => ?_) ?_ hc hgood
  · exact
      { gather := State.inv_initial (hS.regular _ rfl)
        counter := hfresh _ .counter
        store := fun c => hfresh _ (isComposeKey_key c)
        first := fun c => rfl
        val := fun c k v h => by simp [State.initial] at h
        found := by simp
        gets := fun T₁ e T₂ h => by simp at h
        out := hout
        reported := by simp }
  · rw [hview]
    exact hwp i
  · intro c a e w' _ hadm
    exact absurd hadm (hS.no_env e)

end Session

section CallSession

variable {ι κ : Type} {calls : ι → Call} {r : Int64} {caller : κ → {i // (calls i).req_id = r}}
  {adm : ServiceLabel ι → Prop} {good : ServiceEvent ι → Prop}
  {Allowed : Phase Component Review → Prop}

theorem storeReviewCalls_append_singleton (T : List (ServiceEvent ι)) (e : ServiceEvent ι) :
    storeReviewCalls r (T ++ [e]) = storeReviewCalls r T ++ (reviewInvoked r e).toList := by
  cases h : reviewInvoked r e <;> simp [storeReviewCalls, List.filterMap_append, h]

theorem reviewInvoked_eq_none {e : ServiceEvent ι}
    (h : ¬ ∃ review, e.op = .invoke (.exp02StoreReview4 review) ∧ review.req_id = r) :
    reviewInvoked r e = none := by
  unfold reviewInvoked
  split
  next review _ _ _ => exact if_neg fun hr => h ⟨review, rfl, hr⟩
  · rfl

theorem reviewInvoked_eq_some {e : ServiceEvent ι} {review : Review}
    (h : reviewInvoked r e = some review) :
    e.op = .invoke (.exp02StoreReview4 review) ∧ review.req_id = r := by
  unfold reviewInvoked at h
  split at h
  next review' _ _ _ =>
    split at h
    next hr =>
      obtain rfl := Option.some.inj h
      exact ⟨rfl, hr⟩
    · cases h
  · cases h

theorem reviewInvoked_of_op {e : ServiceEvent ι} {review : Review}
    (hop : e.op = .invoke (.exp02StoreReview4 review)) (hr : review.req_id = r) :
    reviewInvoked r e = some review := by
  obtain ⟨i, o, res, pre, post⟩ := e
  obtain rfl : o = .invoke (.exp02StoreReview4 review) := hop
  exact if_pos hr

theorem storeReviewCalls_invoke {i : ι} {review : Review} {code : Int} {w w' : World}
    (T : List (ServiceEvent ι)) (h : review.req_id = r) :
    storeReviewCalls r (T ++ [⟨i, .invoke (.exp02StoreReview4 review), code, w, w'⟩]) =
      storeReviewCalls r T ++ [review] := by
  rw [storeReviewCalls_append_singleton]
  simp [reviewInvoked, h]

theorem readsPartialCounter_get {i : ι} {n : ℕ} (hn : n < numComponents) {w w' : World}
    (hw : w.memcached.get (keyCounter r) = some (toStr n)) :
    ReadsPartialCounter r
      (⟨i, .get (keyCounter r), some (some (toStr n)), w, w'⟩ : ServiceEvent ι) := by
  refine ⟨by simp [readBy_get], ?_⟩
  intro hfull
  rw [hw, Option.some.injEq] at hfull
  exact hn.ne (Int.ofNat_inj.mp (toStr_injective hfull))

/-- A failed operation of `ComposeAndUpload` shows in the history. -/
theorem failsToCompose_of_mayFail {S : Session ι κ} {i : ι} {o : Op} (ho : S.ComposeOp o)
    (hf : S.MayFail i o) :
    ∃ e, S.good e ∧ e.thread = i ∧ failsToCompose S.req_id e = true := by
  obtain ⟨ch, res, w, w', hex, hgood, hfault⟩ : ∃ ch res w w', w.exec o ch = some (res, w') ∧
      S.good ⟨i, o, res, w, w'⟩ ∧ ch.fault ≠ .ok := by
    rcases hf with ⟨ch, res, w, w', -, hex, hgood, hf⟩ | ⟨ch, res, w, w', -, hex, hgood, hf⟩ <;>
      exact ⟨ch, res, w, w', hex, hgood, by simp [hf]⟩
  refine ⟨_, hgood, rfl, ?_⟩
  cases ho with
  | pop =>
    obtain ⟨-, ⟨hok, -⟩ | ⟨-, rfl⟩⟩ := World.faulty_self hex
    · exact absurd hok hfault
    · rfl
  | get c =>
    obtain ⟨-, ⟨hok, -⟩ | ⟨-, rfl⟩⟩ := World.faulty_self hex
    · exact absurd hok hfault
    · cases c <;> simp [failsToCompose, composeKeys, Session.key, Component.op]

/-- What makes the session of a request an account of its runs: which phases occur. -/
theorem callSession_lawful (hadm : ∀ e, ¬ adm (.env e))
    (hregular : ∀ p : Phase Component Review, p.regular = true → Allowed p)
    (hfailed : (∃ i ch, adm (.run i ch) ∧ ch.fault = .failed) → Allowed .lost)
    (hunreported : (∃ i ch, adm (.run i ch) ∧ ch.fault = .unreported) →
      Allowed .lost ∧ Allowed .blind)
    (hagain : ∀ k k' i w w', k' ≠ k →
      (calls (caller k')).component = (calls (caller k)).component →
      w.memcached.get (keyCounter r) = some (toStr numComponents) →
      good ⟨i, .get (keyCounter r), some (some (toStr numComponents)), w, w'⟩ →
      (∀ v, Allowed (.again v)) ∧ Allowed .recomposed) :
    (callSession calls r caller adm good Allowed).Lawful where
  no_env := hadm
  regular := hregular
  lost_incr := by
    rintro k ⟨ch, n, w, w', hrun, -, -, hf⟩
    exact hfailed ⟨_, ch, hrun, hf⟩
  lost_add := by
    rintro k c value ⟨ch, n, w, w', hrun, -, -, hf⟩
    exact (hunreported ⟨_, ch, hrun, hf⟩).1
  blind := by
    rintro k ⟨ch, n, w, w', hrun, -, -, hf⟩
    exact (hunreported ⟨_, ch, hrun, hf⟩).2
  again := fun k k' hne hcomp ⟨w, w', hw, hgood⟩ => hagain k k' _ w w' hne hcomp hw hgood
  emits := by
    rintro o ⟨review, rfl, -⟩
    exact .inl ⟨_, rfl⟩
  out_keep := by
    intro i o ch n w w' T _ hem
    refine (storeReviewCalls_append_singleton T _).trans ?_
    rw [reviewInvoked_eq_none (e := ⟨i, o, n, w, w'⟩) hem]
    simp [callSession]
  reports := fun _ _ h => h.elim

variable [DecidableEq ι]

/-- A call for another request is no matter of the session. -/
theorem run_wp_of_ne (hS : (callSession calls r caller adm good Allowed).Lawful) {call : Call}
    (h : call.req_id ≠ r) {i : ι} {v : κ → Phase Component Review} {T : List (ServiceEvent ι)} :
    (callSession calls r caller adm good Allowed).logic.wp i (call.run .anyRuntime)
      (fun _ v' _ => v' = v) v T := by
  refine Logic.wp_mono (Session.wp_of_foreign hS (Session.upload_foreign hS call.op h
    fun review hreview => ?_)) fun _ _ _ _ hv => hv.1
  refine uses_ask (o := .invoke (.exp02StoreReview4 review)) ⟨fun _ hkey => (by cases hkey), ?_,
    Session.not_reporting hS (by simp)⟩
  rintro ⟨review', hop, hreq⟩
  obtain rfl : review = review' := by simpa using hop
  exact h (hreview.symm.trans hreq)

variable [DecidableEq κ]

/-- An unknown runtime delivers a review by being invoked with it. -/
theorem delivers_anyRuntime (hS : (callSession calls r caller adm good Allowed).Lawful)
    (hrecomposed : ∀ v, Allowed (.again v) → Allowed .recomposed) :
    (callSession calls r caller adm good Allowed).Delivers .anyRuntime := by
  intro k v vals p T hv hgets
  refine Session.performs_of_moves rfl fun w T' a ch code w' hT hinv hk _ hadm hex hgood => .inr ?_
  have hk' : a.phase k = .last vals ∧ p = .composed ∨ a.phase k = .again vals ∧ p = .recomposed := by
    rw [hk]; exact hv
  have hp : Allowed p := by
    rcases hk' with ⟨-, rfl⟩ | ⟨hagain, rfl⟩
    · exact hS.regular _ rfl
    · exact hrecomposed vals (hagain ▸ hinv.gather.allowed k)
  refine ⟨a.emit k vals p, p, rfl, hinv.emitStep hS hex ⟨_, rfl, rfl⟩ hp hk'
    (fun c => (hgets c).mono hT) ?_, ⟨code, rfl⟩, rfl⟩
  exact storeReviewCalls_invoke T' rfl

/-- A call of party `k` follows the specification of `Upload`. -/
theorem run_wp (hS : (callSession calls r caller adm good Allowed).Lawful)
    (hrecomposed : ∀ v, Allowed (.again v) → Allowed .recomposed) (k : κ)
    {v : κ → Phase Component Review} (hv : v k = .idle) {T : List (ServiceEvent ι)} :
    (callSession calls r caller adm good Allowed).logic.wp (caller k)
      ((calls (caller k)).run .anyRuntime)
      (fun out v' _ => ∃ p, v' = Function.update v k p ∧
        (callSession calls r caller adm good Allowed).Ends k v' out p) v T := by
  have hop : ((callSession calls r caller adm good Allowed).comp k).op = (calls (caller k)).op :=
    (Call.op_eq _).symm
  have hup := Session.upload_wp (T := T) hS (delivers_anyRuntime hS hrecomposed) (k := k) rfl hv
    (calls (caller k)).review rfl (caller k).2
  rw [hop] at hup
  exact hup

end CallSession

end MediaService
