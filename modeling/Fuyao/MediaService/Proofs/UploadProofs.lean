import Fuyao.MediaService.Proofs.SessionProofs

/-!
# Proofs: a call of `Upload` takes part in the gathering

`Session.upload_wp` is the specification of `Upload`: whatever the other threads do in between, a call
keeps the invariant of its session, moves only its own party, and ends in one of the ways of
`Session.Ends`.
-/

namespace MediaService

open Cpp Concurrency Gather

/-- The rule for one operation of a service. -/
theorem wp_ask {ι A V β : Type} {P : Logic ι Op Op.Res Exn Int World Choice Env A V} {i : ι} {o : Op}
    {f : o.Res → Service β} {Q : Except Exn β → V → List (ServiceEvent ι) → Prop} {v : V}
    {T : List (ServiceEvent ι)}
    (h : P.Performs i o v T fun r v' T' => P.wp i (f r) Q v' T') : P.wp i (ask o >>= f) Q v T := h

namespace Session

variable {ι κ : Type} [DecidableEq ι] {S : Session ι κ} {T : List (ServiceEvent ι)}
  {i : ι} {k : κ} {v : κ → Phase Component Review} {p : Phase Component Review}
  {vals : Component → Review} {worker : FaasWorker}

/-- The end of `Upload` when the counter is not full. -/
theorem finishUpload_wp_of_ne (hS : S.Lawful) {n : UInt64} (hn : n.toNat ≠ numComponents) {r : Int64}
    {Q : Except Exn Int → (κ → Phase Component Review) → List (ServiceEvent ι) → Prop}
    (hok : ∀ T', Q (.ok 0) v T') : S.logic.wp i (finishUpload worker r n) Q v T := by
  refine wp_ask ((keeps_of_isLocal hS rfl).performs fun _ T₁ _ => ?_)
  simpa [hn] using hok T₁

variable [DecidableEq κ]

/-- Reading the components `cs`: they are copied into the review one after the other. -/
theorem getComponents_wp (hS : S.Lawful) (hown : S.owner k = i)
    (hv : v k = .last vals ∨ v k = .again vals) (cs : List Component) (rev : Review)
    {Q : Except Exn (Option Review) → (κ → Phase Component Review) → List (ServiceEvent ι) → Prop}
    (hok : ∀ T', T <+: T' → (∀ c ∈ cs, FoundGet i (S.key c) T') →
      Q (.ok (some (cs.foldl (fun rev c => c.copy (vals c) rev) rev))) v T')
    (hfail : (∃ o, S.ComposeOp o ∧ S.MayFail i o) → ∀ T', Q (.ok none) v T')
    (hthrow : (∃ k' val, S.comp k' = .rating ∧ S.Val k' val ∧ ¬ FitsInt val.rating) →
      ∀ e T', Q (.error e) v T') :
    S.logic.wp i (getComponents S.req_id (cs.map S.key) rev) Q v T := by
  induction cs generalizing rev T with
  | nil => exact hok T (List.prefix_refl _) (by simp)
  | cons c cs ih =>
    refine wp_ask (performs_getComponent hS hown hv c (fun hm T₁ _ => ?_)
      fun k' hk' hval T₁ hT₁ hfound => ?_)
    · exact wp_ask ((keeps_of_isLocal hS rfl).performs fun _ T₂ _ => hfail ⟨_, .get c, hm⟩ T₂)
    · rcases setComponent_encode_cases S.req_id c (vals c) rev with hset | ⟨hc, hfit, hset⟩
      · have hcont := ih (T := T₁) (c.copy (vals c) rev) fun T₂ hT₂ hcs =>
          hok T₂ (hT₁.trans hT₂) (List.forall_mem_cons.mpr ⟨hfound.mono hT₂, hcs⟩)
        simpa only [key, hset, Prog.ofExcept_ok, Prog.ret_bind] using hcont
      · have hraise := hthrow ⟨k', vals c, hk'.trans hc, hval, hfit⟩ .outOfRange T₁
        simpa only [key, hset, Prog.ofExcept_error, Prog.raise_bind, Logic.wp_raise] using hraise

/-- `ComposeAndUpload` after a full counter: it delivers the assembled review, unless it fails. -/
theorem composeAndUpload_wp (hS : S.Lawful) (hworker : S.Delivers worker) (hown : S.owner k = i)
    (hv : v k = .last vals ∧ p = .composed ∨ v k = .again vals ∧ p = .recomposed)
    {Q : Except Exn Int → (κ → Phase Component Review) → List (ServiceEvent ι) → Prop}
    (hok : ∀ code T', Q (.ok code) (Function.update v k p) T')
    (hfail : (∃ o, S.ComposeOp o ∧ S.MayFail i o) → ∀ code T', Q (.ok code) v T')
    (hthrow : (∃ k' val, S.comp k' = .rating ∧ S.Val k' val ∧ ¬ FitsInt val.rating) →
      ∀ e T', Q (.error e) v T') :
    S.logic.wp i (composeAndUpload worker S.req_id) Q v T := by
  have hv' : v k = .last vals ∨ v k = .again vals := hv.imp And.left And.left
  refine wp_ask (performs_pop hS _ (fun hm T₁ _ => hfail ⟨_, .pop, hm⟩ _ T₁) fun T₁ _ => ?_)
  refine Logic.wp_bind (getComponents_wp hS hown hv' composeOrder _ (fun T₂ _ hfound => ?_)
    (fun hm T₂ => hfail hm _ T₂) fun hm e T₂ => hthrow hm e T₂)
  rw [copy_composeOrder]
  refine wp_ask ((keeps_of_isLocal hS rfl).performs fun _ T₃ hT₃ => ?_)
  subst hown
  have hgets : ∀ c, FoundGet (S.owner k) (S.key c) T₃ := fun c =>
    (hfound c (by cases c <;> simp [composeOrder])).mono hT₃
  refine Logic.wp_bind (Logic.wp_mono (hworker k v vals p T₃ hv hgets) ?_)
  rintro out v' T₄ - ⟨⟨code, rfl⟩, rfl⟩
  -- the code of the invocation only decides which code is returned
  by_cases hcode : code = 0
  · simpa [hcode] using hok 0 T₄
  · simpa [hcode] using hok (-1) T₄

/-- The end of `Upload` when the counter is full. -/
theorem finishUpload_wp_of_full (hS : S.Lawful) (hworker : S.Delivers worker) (hown : S.owner k = i)
    (hv : v k = .last vals ∧ p = .composed ∨ v k = .again vals ∧ p = .recomposed) {n : UInt64}
    (hn : n.toNat = numComponents)
    {Q : Except Exn Int → (κ → Phase Component Review) → List (ServiceEvent ι) → Prop}
    (hok : ∀ T', Q (.ok 0) (Function.update v k p) T')
    (hfail : (∃ o, S.ComposeOp o ∧ S.MayFail i o) → ∀ T', Q (.ok 0) v T')
    (hthrow : (∃ k' val, S.comp k' = .rating ∧ S.Val k' val ∧ ¬ FitsInt val.rating) →
      ∀ e T', Q (.error e) v T') :
    S.logic.wp i (finishUpload worker S.req_id n) Q v T := by
  refine wp_ask ((keeps_of_isLocal hS rfl).performs fun _ T₁ _ => ?_)
  simp only [hn, if_true]
  exact Logic.wp_bind (composeAndUpload_wp hS hworker hown hv (fun _ T₂ => hok T₂)
    (fun hm _ T₂ => hfail hm T₂) hthrow)

/-- The specification of `Upload`. -/
theorem upload_wp (hS : S.Lawful) (hworker : S.Delivers worker) (hown : S.owner k = i)
    (hv : v k = .idle) (val : Review) (hval : S.Val k val) (hr : val.req_id = S.req_id) :
    S.logic.wp i (upload worker val (S.comp k).op)
      (fun out v' _ => ∃ p, v' = Function.update v k p ∧ S.Ends k v' out p) v T := by
  subst hown
  simp only [upload, componentValue_op]
  generalize val.req_id = r at hr ⊢
  subst hr
  -- a failed operation: the client goes back and the call returns -1
  have hpush : ∀ p, (p = .idle ∨ p = .ready ∨ p = .lost ∨ p = .blind) →
      (∃ o, S.MayFail (S.owner k) o) → ∀ T',
      S.logic.wp (S.owner k) (ask (.push .upload) >>= fun _ => return -1)
        (fun out v' _ => ∃ p, v' = Function.update v k p ∧ S.Ends k v' out p)
        (Function.update v k p) T' := fun p hp hm T' =>
    wp_ask ((keeps_of_isLocal hS rfl).performs fun _ T'' _ => ⟨p, rfl, .failed hp hm⟩)
  have hidle : Function.update v k .idle = v := by rw [← hv, Function.update_eq_self]
  refine wp_ask (performs_pop hS _ (fun hm T₁ _ => ?_) fun T₁ _ => ?_)
  · exact ⟨.idle, hidle.symm, .failed (.inl rfl) ⟨_, hm⟩⟩
  refine wp_ask (performs_addCounter hS rfl hv (fun hm T₂ _ => ?_) fun b T₂ _ => ?_)
  · simpa only [hidle] using hpush .idle (.inl rfl) hm T₂
  refine wp_ask (performs_addComponent hS rfl (Function.update_self ..) hval
    (fun hm p hp T₃ _ => ?_) (fun T₃ _ => ?_) fun k' hne hcomp hstored T₃ _ => ?_)
  · simpa only [Function.update_idem, countUpload] using hpush p (hp.elim (fun h => .inr (.inl h))
      fun h => .inr (.inr (.inl h))) hm T₃
  · -- the component is new: count it
    simp only [Function.update_idem]
    refine wp_ask (performs_incr hS rfl (Function.update_self ..) (fun hm p hp T₄ _ => ?_)
      (fun vals T₄ _ => ?_) fun n hn T₄ _ => ?_)
    · simpa only [Function.update_idem] using hpush p (.inr (.inr hp)) hm T₄
    · simp only [Function.update_idem]
      refine finishUpload_wp_of_full hS hworker rfl (.inl ⟨Function.update_self .., rfl⟩) rfl
        (fun T₅ => ?_) (fun hm T₅ => ⟨_, rfl, .aborted rfl hm⟩) fun hm e T₅ => ⟨_, rfl, .threw rfl hm⟩
      simp only [Function.update_idem]
      exact ⟨_, rfl, .done rfl⟩
    · simp only [Function.update_idem]
      exact finishUpload_wp_of_ne hS hn fun T₅ => ⟨_, rfl, .done rfl⟩
  · -- the component was there already: look at the counter
    refine wp_ask (performs_getCounter hS rfl (Function.update_self ..) hne hcomp
      (fun hm T₄ _ => hpush .ready (.inr (.inl rfl)) hm T₄) (fun vals T₄ _ => ?_)
      fun n hn hread T₄ _ => ?_)
    · simp only [Function.update_idem]
      refine Logic.wp_bind ?_
      rw [stoul_toStr_natCast (by unfold numComponents; norm_num)]
      refine finishUpload_wp_of_full hS hworker rfl (.inr ⟨Function.update_self .., rfl⟩) rfl
        (fun T₅ => ?_) (fun hm T₅ => ⟨_, rfl, .aborted rfl hm⟩) fun hm e T₅ => ⟨_, rfl, .threw rfl hm⟩
      simp only [Function.update_idem]
      exact ⟨_, rfl, .done rfl⟩
    · have hlt : n < 2 ^ 64 := by unfold numComponents at hn; omega
      refine Logic.wp_bind ?_
      rw [stoul_toStr_natCast hlt]
      refine finishUpload_wp_of_ne hS ?_ fun T₅ => ⟨_, rfl, .repeated hne hcomp ?_ ⟨n, hn, hread⟩⟩
      · rw [UInt64.toNat_ofNat_of_lt' hlt]
        omega
      · exact hstored

end Session

end MediaService
