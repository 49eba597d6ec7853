import Fuyao.MediaService.Provenance
import Fuyao.MediaService.Proofs.CallersProofs

/-!
# Proofs: where the components of a review come from

Only uploads write the component keys of a request, so whatever `ComposeAndUpload` finds under them
was uploaded for the request. Nothing is assumed about failures, expiry or eviction.
-/

namespace MediaService

open Cpp Concurrency

section Components

theorem Component.copy_idem (val rev : Review) (c : Component) :
    c.copy val (c.copy val rev) = c.copy val rev := by
  cases c <;> rfl

/-- Copying one component leaves the others as they are. -/
theorem Component.copy_comm {val val' rev : Review} {c c' : Component} (h : c ≠ c') :
    c.copy val (c'.copy val' rev) = c'.copy val' (c.copy val rev) := by
  cases c <;> cases c' <;> first | rfl | exact absurd rfl h

theorem assemble_copy {r : Int64} {val rev : Review} (c : Component)
    (h : assemble r (fun _ => rev) = rev) :
    assemble r (fun _ => c.copy val rev) = c.copy val rev := by
  rw [← h]
  cases c <;> rfl

/-- A review whose components are those of `vals` is assembled from them. -/
theorem eq_assemble {r : Int64} {rev : Review} {vals : Component → Review}
    (h : assemble r (fun _ => rev) = rev) (hvals : ∀ c : Component, c.copy (vals c) rev = rev) :
    rev = assemble r vals := by
  have htext := congrArg Review.text (hvals .text)
  have hunique := congrArg Review.review_id (hvals .uniqueId)
  have hmovie := congrArg Review.movie_id (hvals .movieId)
  have hrating := congrArg Review.rating (hvals .rating)
  simp only [Component.copy] at htext hunique hmovie hrating
  rw [← h]
  simp only [assemble, htext, hunique, hmovie, hrating]

end Components

section History

variable {ι : Type} {mine : ι → Prop} {r : Int64} {comp : Component} {val review : Review}
  {T T' : List (ServiceEvent ι)}

theorem Uploaded.mono (h : Uploaded mine r comp val T) (hT : T <+: T') :
    Uploaded mine r comp val T' := by
  obtain ⟨e, he, hmine, hop⟩ := h
  exact ⟨e, hT.subset he, hmine, hop⟩

/-- What is known about the origin of a component stays known. -/
theorem source_mono
    (h : TakenFrom mine r review comp T ∨ LeftOut r review comp T) (hT : T <+: T') :
    TakenFrom mine r review comp T' ∨ LeftOut r review comp T' := by
  rcases h with ⟨val, hup, hcopy⟩ | ⟨hcopy, e, he, hmiss⟩
  · exact .inl ⟨val, hup.mono hT, hcopy⟩
  · exact .inr ⟨hcopy, e, hT.subset he, hmiss⟩

/-- Setting another component does not change where a component comes from. -/
theorem source_copy {c : Component}
    (h : TakenFrom mine r review comp T ∨ LeftOut r review comp T) (hne : comp ≠ c) :
    TakenFrom mine r (c.copy val review) comp T ∨ LeftOut r (c.copy val review) comp T := by
  rcases h with ⟨val', hup, hcopy⟩ | ⟨hcopy, hmiss⟩
  · exact .inl ⟨val', hup, by rw [Component.copy_comm hne, hcopy]⟩
  · exact .inr ⟨by rw [Component.copy_comm hne, hcopy], hmiss⟩

theorem Accounted.mono (h : Accounted mine r review T) (hT : T <+: T') :
    Accounted mine r review T' :=
  ⟨h.assembled, fun c => source_mono (h.source c) hT⟩

/-- An operation that respects the components keeps what is known about them. -/
theorem keeps_of_respects {i : ι} {o : Op} (ho : Respects mine r i o) :
    (provenance mine r).Keeps i o := by
  intro c a ch res w' hinv hex
  have hpre : c.trace <+: c.trace ++ [⟨i, o, res, c.shared, w'⟩] := List.prefix_append _ _
  -- what was held before was uploaded before
  have hold : ∀ (comp : Component) value,
      c.shared.memcached.get (keyComponent r comp.op) = some value →
      ∃ val, value = comp.encode val ∧
        Uploaded mine r comp val (c.trace ++ [⟨i, o, res, c.shared, w'⟩]) := by
    intro comp value hget
    obtain ⟨val, hval, hup⟩ := hinv.held comp value hget
    exact ⟨val, hval, hup.mono hpre⟩
  refine ⟨?_, ?_⟩
  · intro comp value hget
    by_cases hkey : o.key = some (keyComponent r comp.op)
    · rcases ho.1 comp hkey with rfl | ⟨hmine, val, rfl⟩
      · exact hold comp value ((World.exec_get hex).1 ▸ hget)
      · cases hcur : c.shared.memcached.get (keyComponent r comp.op) with
        | some cur =>
          obtain ⟨rfl, -⟩ := World.exec_add_of_some hcur hex
          exact hold comp value hget
        | none =>
          rcases World.exec_add_of_none hcur hex with ⟨-, -, rfl⟩ | ⟨-, rfl⟩
          · exact hold comp value hget
          · refine ⟨val, ?_, _, List.mem_append_right _ (List.mem_singleton_self _), hmine, rfl⟩
            simpa using hget.symm
    · rw [World.exec_get_of_ne hex hkey] at hget
      exact hold comp value hget
  · intro e he review hreview
    rcases List.mem_append.mp he with he | he
    · exact (hinv.sent e he review hreview).mono hpre
    · obtain rfl := List.mem_singleton.mp he
      obtain ⟨hop, hr⟩ := reviewInvoked_eq_some hreview
      exact absurd hr (ho.2 review hop)

end History

/-! ## Operations that respect the components -/

section Respects

variable {ι : Type} {mine : ι → Prop} {r : Int64} {i : ι}

theorem respects_get (key : Bytes) : Respects mine r i (.get key) := by
  refine ⟨fun comp hkey => ?_, fun review hop => by cases hop⟩
  obtain rfl := Option.some.inj hkey
  exact .inl rfl

theorem respects_of_isLocal {o : Op} (ho : o.isLocal = true) : Respects mine r i o := by
  refine ⟨?_, ?_⟩
  · intro comp hkey
    rw [Op.key_eq_none_of_isLocal ho] at hkey
    cases hkey
  · intro review hop
    rw [hop] at ho
    cases ho

/-- An operation on a key that is not one of the component keys. -/
theorem respects_of_key {o : Op} {key : Bytes} (hkey : o.key = some key)
    (hne : ∀ comp : Component, key ≠ keyComponent r comp.op) : Respects mine r i o := by
  refine ⟨?_, ?_⟩
  · intro comp hcomp
    rw [hkey] at hcomp
    exact absurd (Option.some.inj hcomp) (hne comp)
  · intro review hop
    rw [hop] at hkey
    cases hkey

/-- The operations of an upload respect the components of its own request if its thread is among
`mine`, and those of every other request anyway. -/
theorem respects_of_upload {val : Review} {op : UploadOp} {o : Op} (ho : UploadTouches val op o)
    (hmine : val.req_id = r → mine i) : Respects mine r i o := by
  have hcounter : ∀ comp : Component, keyCounter val.req_id ≠ keyComponent r comp.op :=
    fun comp => keyCounter_ne_keyComponent _ _ _
  cases ho with
  | addCounter => exact respects_of_key rfl hcounter
  | getCounter => exact respects_get _
  | incrCounter => exact respects_of_key rfl hcounter
  | getComponent c => exact respects_get _
  | @addComponent value hvalue =>
    refine ⟨fun comp hkey => .inr ?_, fun review hop => by cases hop⟩
    obtain ⟨hr, hop⟩ := keyComponent_inj (Option.some.inj hkey)
    rw [hop, componentValue_op] at hvalue
    obtain rfl := Option.some.inj hvalue
    exact ⟨hmine hr, val, by rw [hr, hop]⟩

end Respects

/-! ## Programs -/

section Programs

variable {ι : Type} {mine : ι → Prop} {r : Int64} {i : ι} {T : List (ServiceEvent ι)} {β γ : Type}

theorem wp_of_respects {p : Service β} {Q : β → Prop} (hp : p.Uses (Respects mine r i) Q) :
    (provenance mine r).wp i p (fun _ _ _ => True) () T :=
  Logic.wp_mono (Logic.wp_of_uses hp fun _ ho => keeps_of_respects ho) fun _ _ _ _ _ => trivial

theorem provenance_bind {p : Service β} {f : β → Service γ}
    (hp : (provenance mine r).wp i p (fun _ _ _ => True) () T)
    (hf : ∀ b T', (provenance mine r).wp i (f b) (fun _ _ _ => True) () T') :
    (provenance mine r).wp i (p >>= f) (fun _ _ _ => True) () T := by
  refine Logic.wp_bind (Logic.wp_mono hp ?_)
  rintro (e | b) _ T' - -
  · trivial
  · exact hf b T'

end Programs

/-! ## `Upload` -/

section Upload

variable {ι : Type} {mine : ι → Prop} {r : Int64} {i : ι} {worker : FaasWorker}
  {T : List (ServiceEvent ι)}

/-- The loop over the keys: the components before are accounted for, those to come are not set. -/
theorem getComponents_provenance (cs : List Component) (hcs : cs.Nodup) {rev : Review}
    (hrev : assemble r (fun _ => rev) = rev) (hrest : ∀ c ∈ cs, c.copy Review.zero rev = rev)
    (hdone : ∀ c, c ∉ cs → TakenFrom mine r rev c T ∨ LeftOut r rev c T) :
    (provenance mine r).wp i (getComponents r (cs.map fun c => keyComponent r c.op) rev)
      (fun out _ T' => ∀ review, out = .ok (some review) → Accounted mine r review T') () T := by
  induction cs generalizing rev T with
  | nil =>
    rintro review ⟨⟩
    exact ⟨hrev, fun c => hdone c (List.not_mem_nil)⟩
  | cons c cs ih =>
    obtain ⟨hc, hcs⟩ := List.nodup_cons.mp hcs
    refine wp_ask ?_
    intro cfg a ch res w' hT hinv _ _ _ hex _
    refine ⟨(), keeps_of_respects (respects_get _) cfg a ch res w' hinv hex, fun _ _ => rfl, ?_⟩
    have hpre : T <+: cfg.trace ++ [⟨i, .get (keyComponent r c.op), res, cfg.shared, w'⟩] :=
      hT.trans (List.prefix_append _ _)
    have hnew : (⟨i, .get (keyComponent r c.op), res, cfg.shared, w'⟩ : ServiceEvent ι) ∈
        cfg.trace ++ [⟨i, .get (keyComponent r c.op), res, cfg.shared, w'⟩] :=
      List.mem_append_right _ (List.mem_singleton_self _)
    obtain ⟨rfl, hres | ⟨hres, -⟩⟩ := World.exec_get hex
    · subst hres
      cases hget : cfg.shared.memcached.get (keyComponent r c.op) with
      | none =>
        -- the key is skipped, and the component stays unset
        refine ih hcs hrev (fun c' hc' => hrest c' (List.mem_cons_of_mem _ hc')) fun c' hc' => ?_
        by_cases hcc : c' = c
        · subst hcc
          exact .inr ⟨hrest c' (List.mem_cons_self ..), _, hget ▸ hnew, rfl, hget⟩
        · exact source_mono (hdone c' (by simp [hcc, hc'])) (hget ▸ hpre)
      | some value =>
        obtain ⟨val, rfl, hup⟩ := hinv.held c value hget
        rcases setComponent_encode_cases r c val rev with hset | ⟨-, -, hset⟩
        · refine Logic.wp_ofExcept (fun rev' hrev' => ?_) fun e _ review h => by cases h
          rw [hset] at hrev'
          obtain rfl := Except.ok.inj hrev'
          refine ih hcs (assemble_copy c hrev) (fun c' hc' => ?_) fun c' hc' => ?_
          · have hne : c' ≠ c := fun h => hc (h ▸ hc')
            rw [Component.copy_comm hne, hrest c' (List.mem_cons_of_mem _ hc')]
          · by_cases hcc : c' = c
            · subst hcc
              exact .inl ⟨val, hup.mono (List.prefix_append _ _), Component.copy_idem _ _ _⟩
            · exact source_copy (source_mono (hdone c' (by simp [hcc, hc'])) (hget ▸ hpre)) hcc
        · refine Logic.wp_ofExcept (fun rev' hrev' => ?_) fun e _ review h => by cases h
          rw [hset] at hrev'
          cases hrev'
    · subst hres
      refine wp_ask ((keeps_of_respects (respects_of_isLocal rfl)).performs fun _ T' _ => ?_)
      intro review h
      cases h

theorem composeAndUpload_provenance
    (hworker : ∀ review T', Accounted mine r review T' →
      (provenance mine r).wp i (worker.invoke_func_fn_ (.exp02StoreReview4 review))
        (fun _ _ _ => True) () T') :
    (provenance mine r).wp i (composeAndUpload worker r) (fun _ _ _ => True) () T := by
  refine wp_ask ((keeps_of_respects (respects_of_isLocal rfl)).performs fun mc_client T₁ _ => ?_)
  cases mc_client with
  | false => trivial
  | true =>
  have hloop : (provenance mine r).wp i (getComponents r (composeKeys r) { Review.zero with req_id := r })
      (fun out _ T' => ∀ review, out = .ok (some review) → Accounted mine r review T') () T₁ := by
    refine getComponents_provenance composeOrder (by decide) rfl (fun c _ => ?_) fun c hc => ?_
    · cases c <;> rfl
    · exact absurd (by cases c <;> decide) hc
  refine Logic.wp_bind (Logic.wp_mono hloop ?_)
  rintro (e | _ | review) _ T₂ - hreview
  · trivial
  · trivial
  refine wp_ask ((keeps_of_respects (respects_of_isLocal rfl)).performs fun _ T₃ hT₃ => ?_)
  refine Logic.wp_bind (Logic.wp_mono (hworker review T₃ ((hreview review rfl).mono hT₃)) ?_)
  rintro (e | code) _ T₄ - -
  · trivial
  · by_cases hcode : code = 0 <;> simp [hcode]

/-- `Upload` when its own operations keep the invariant and `ComposeAndUpload` does what it should. -/
theorem upload_wp_of_compose {A V : Type} {P : Logic ι Op Op.Res Exn Int World Choice Env A V} {v : V}
    {val : Review} {op : UploadOp} (hlocal : ∀ o, o.isLocal = true → P.Keeps i o)
    (hkeys : ∀ o, UploadTouches val op o → P.Keeps i o)
    (hcompose : ∀ T', P.wp i (composeAndUpload worker val.req_id) (fun _ _ _ => True) v T') :
    P.wp i (upload worker val op) (fun _ _ _ => True) v T := by
  have hreturn : ∀ (n : Int) T', P.wp i (ask (.push .upload) >>= fun _ => return n)
      (fun _ _ _ => True) v T' :=
    fun n T' => wp_ask ((hlocal _ rfl).performs fun _ _ _ => trivial)
  have hfinish : ∀ n T', P.wp i (finishUpload worker val.req_id n) (fun _ _ _ => True) v T' := by
    intro n T'
    refine wp_ask ((hlocal _ rfl).performs fun _ T'' _ => ?_)
    by_cases hn : n.toNat = numComponents
    · simp only [hn, if_true]
      refine Logic.wp_bind (Logic.wp_mono (hcompose T'') ?_)
      rintro (e | ret) _ _ - - <;> trivial
    · simp only [hn, if_false]
      trivial
  have hcount : ∀ success T', P.wp i (countUpload worker val.req_id success) (fun _ _ _ => True) v T' := by
    rintro (_ | _ | _) T'
    · exact hreturn _ T'
    · refine wp_ask ((hkeys _ .getCounter).performs ?_)
      rintro (_ | _ | value) T'' -
      · exact hreturn _ T''
      · exact hreturn _ T''
      · exact Logic.wp_ofExcept (fun n _ => hfinish n T'') fun _ _ => trivial
    · refine wp_ask ((hkeys _ .incrCounter).performs ?_)
      rintro (_ | result) T'' -
      · exact hreturn _ T''
      · exact Logic.wp_ofExcept (fun n _ => hfinish n T'') fun _ _ => trivial
  unfold upload
  refine wp_ask ((hlocal _ rfl).performs ?_)
  rintro (_ | _) T₁ -
  · trivial
  refine wp_ask ((hkeys _ .addCounter).performs ?_)
  rintro (_ | stored) T₂ -
  · exact hreturn _ T₂
  simp only
  cases hvalue : componentValue val op with
  | none => exact hcount (some stored) T₂
  | some value =>
    exact wp_ask ((hkeys _ (.addComponent hvalue)).performs fun success T₃ _ => hcount success T₃)

/-- A call of `Upload` for the request by a thread among `mine`. -/
theorem upload_provenance {val : Review} (op : UploadOp) (hr : val.req_id = r) (hmine : mine i)
    (hworker : ∀ review T', Accounted mine r review T' →
      (provenance mine r).wp i (worker.invoke_func_fn_ (.exp02StoreReview4 review))
        (fun _ _ _ => True) () T') :
    (provenance mine r).wp i (upload worker val op) (fun _ _ _ => True) () T := by
  refine upload_wp_of_compose (fun _ ho => keeps_of_respects (respects_of_isLocal ho))
    (fun _ ho => keeps_of_respects (respects_of_upload ho fun _ => hmine)) fun T' => ?_
  rw [hr]
  exact composeAndUpload_provenance hworker

/-- Passing an accounted review on keeps the invariant. -/
theorem performs_invoke {review : Review} (h : Accounted mine r review T)
    {K : Int → Unit → List (ServiceEvent ι) → Prop} (hK : ∀ code T', T <+: T' → K code () T') :
    (provenance mine r).Performs i (.invoke (.exp02StoreReview4 review)) () T K := by
  intro c a ch code w' hT hinv _ _ _ hex _
  have hpre : c.trace <+: c.trace ++ [⟨i, .invoke (.exp02StoreReview4 review), code, c.shared, w'⟩] :=
    List.prefix_append _ _
  refine ⟨(), ⟨fun comp value hget => ?_, fun e he review' hreview' => ?_⟩, fun _ _ => rfl,
    hK code _ (hT.trans hpre)⟩
  · have hsame : w' = c.shared := by
      obtain rfl | rfl := World.exec_effect (o := .invoke (.exp02StoreReview4 review)) hex <;> rfl
    rw [hsame] at hget
    obtain ⟨val, hval, hup⟩ := hinv.held comp value hget
    exact ⟨val, hval, hup.mono hpre⟩
  · rcases List.mem_append.mp he with he | he
    · exact (hinv.sent e he review' hreview').mono hpre
    · obtain rfl := List.mem_singleton.mp he
      obtain ⟨hop, -⟩ := reviewInvoked_eq_some hreview'
      obtain rfl : review = review' := by simpa using hop
      exact h.mono (hT.trans hpre)

/-- In every run that starts without keys of the request the invariant holds. -/
theorem provenance_sound [DecidableEq ι] {w₀ : World} (hfresh : FreshFor r w₀) {adm : ServiceLabel ι → Prop}
    {p : ι → Service Int} (hwp : ∀ i, (provenance mine r).wp i (p i) (fun _ _ _ => True) () [])
    {c : ServiceConfig ι} (hc : ReachableFrom w₀ adm p c) : ProvenanceInv mine r c.shared c.trace := by
  have hinv : (provenance mine r).inv w₀ [] () := by
    refine ⟨fun comp value hget => ?_, by simp⟩
    rw [hfresh _ (.component _)] at hget
    cases hget
  have henv : ∀ (c : ServiceConfig ι) a e w', (provenance mine r).inv c.shared c.trace a → True →
      World.env e c.shared = some w' → ∃ a', (provenance mine r).inv w' c.trace a' ∧
        ∀ j, (provenance mine r).view j a' = (provenance mine r).view j a := by
    intro c a e w' h _ he
    refine ⟨(), ⟨fun comp value hget => h.held comp value ?_, h.sent⟩, fun _ => rfl⟩
    exact World.env_get he hget
  obtain ⟨_, h, -⟩ := Logic.sound (P := provenance mine r) () hinv hwp henv
    (hc.mono fun _ _ _ => trivial) fun _ _ => trivial
  exact h

end Upload

end MediaService
