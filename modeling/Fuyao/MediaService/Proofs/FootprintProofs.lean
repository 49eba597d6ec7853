import Fuyao.MediaService.ComposeReview
import Fuyao.MediaService.Proofs.CompositionProofs
import Fuyao.MediaService.Proofs.UtilsProofs
import Fuyao.MediaService.Proofs.WorldProofs

/-!
# Proofs: what the methods touch

A call of `Upload` for a request asks for clients, reads and writes keys of that request only, and
invokes `exp02StoreReview4` with a review of that request only. The movie service reads and writes the
key of its title only.
-/

namespace MediaService

open Cpp Concurrency

theorem keyTitle_eq (title : CString 128) : keyTitle title = Base64.encode title.bytes :=
  base64Encode_eq (title.fits.trans (by norm_num))

theorem keyTitle_injective : Function.Injective keyTitle := by
  intro title title' h
  rw [keyTitle_eq, keyTitle_eq] at h
  exact CString.ext (Base64.encode_injective h)

/-- `base64_encode` computes the standard encoding, and the keys of two titles differ. -/
theorem base64_encode_standard {input : Bytes} (h : input.length < 2 ^ 32) :
    base64Encode input = Base64.encode input ∧
      (base64Encode input).length = 4 * ((input.length + 2) / 3) ∧
      (∃ letters, (∀ b ∈ letters, b ∈ Base64.alphabet) ∧
        base64Encode input = letters ++ List.replicate ((3 - input.length % 3) % 3) Base64.pad) ∧
      Base64.decode (base64Encode input) = some input ∧
      (∀ input' : Bytes, input'.length < 2 ^ 32 → base64Encode input' = base64Encode input → input' = input) ∧
      ∀ title title' : CString 128, title ≠ title' → keyTitle title ≠ keyTitle title' := by
  have heq := base64Encode_eq h
  refine ⟨heq, ?_, ?_, ?_, ?_, ?_⟩
  · rw [heq, Base64.length_encode]
  · rw [heq]
    exact Base64.exists_letters input
  · rw [heq, Base64.decode_encode]
  · intro input' h' heq'
    rw [heq, base64Encode_eq h'] at heq'
    exact Base64.encode_injective heq'
  · exact fun title title' hne hkey => hne (keyTitle_injective hkey)

theorem base64_encode_standard_sample :
    Base64.decode (base64Encode [0, 255, 128, 61]) = some [0, 255, 128, 61] :=
  (@base64_encode_standard [0, 255, 128, 61] (by decide)).2.2.2.1

/-- The letters of base64 do not include the colon that every key of a request has. -/
theorem not_isComposeKey_keyTitle (r : Int64) (title : CString 128) :
    ¬ IsComposeKey r (keyTitle title) := by
  intro h
  have hmem := h.colon_mem
  rw [keyTitle_eq] at hmem
  rcases Base64.mem_encode hmem with hmem | hmem
  · exact absurd hmem (by decide)
  · cases hmem

theorem uses_ask_bind {U : Op → Prop} {β : Type} {Q : β → Prop} {o : Op} {f : o.Res → Service β}
    (ho : U o) (hf : ∀ r, (f r).Uses U Q) : (ask o >>= f).Uses U Q := ⟨ho, hf⟩

theorem uses_ask {U : Op → Prop} {o : Op} (ho : U o) : (ask o).Uses U fun _ => True :=
  ⟨ho, fun _ => trivial⟩

theorem setComponent_req_id {r : Int64} {key value : Bytes} {rev rev' : Review}
    (h : setComponent r key value rev = .ok rev') : rev'.req_id = rev.req_id := by
  have hmap : ∀ {α : Type} {x : Except Exn α} {f : α → Review},
      x.map f = .ok rev' → (∀ a, (f a).req_id = rev.req_id) → rev'.req_id = rev.req_id := by
    rintro α (e | a) f hx hf
    · cases hx
    · obtain rfl : f a = rev' := by simpa [Except.map] using hx
      exact hf a
  unfold setComponent at h
  split at h
  · exact hmap h fun _ => rfl
  split at h
  · exact hmap h fun _ => rfl
  split at h
  · exact hmap h fun _ => rfl
  split at h
  · exact hmap h fun _ => rfl
  · obtain rfl : rev = rev' := by simpa using h
    rfl

theorem UploadTouches.exists_key {val : Review} {op : UploadOp} {o : Op} (h : UploadTouches val op o) :
    ∃ key, o.key = some key ∧ IsComposeKey val.req_id key := by
  cases h with
  | addCounter => exact ⟨_, rfl, .counter⟩
  | addComponent _ => exact ⟨_, rfl, .component op⟩
  | getCounter => exact ⟨_, rfl, .counter⟩
  | incrCounter => exact ⟨_, rfl, .counter⟩
  | getComponent c => exact ⟨_, rfl, .component c.op⟩

/-- What an upload adds: the counter, or its component. -/
theorem UploadTouches.add_cases {val : Review} {op : UploadOp} {key value : Bytes} {exptime : Nat}
    (h : UploadTouches val op (.add key value exptime)) :
    key = keyCounter val.req_id ∨
      key = keyComponent val.req_id op ∧ componentValue val op = some value := by
  generalize ho : Op.add key value exptime = o at h
  cases h with
  | addCounter => exact .inl (Op.add.inj ho).1
  | addComponent hvalue =>
    obtain ⟨rfl, rfl, -⟩ := Op.add.inj ho
    exact .inr ⟨rfl, hvalue⟩
  | getCounter => cases ho
  | incrCounter => cases ho
  | getComponent c => cases ho

section Uses

variable {U : Op → Prop} {worker : FaasWorker} {r : Int64}

theorem getComponents_uses (hlocal : ∀ o, o.isLocal = true → U o)
    (hget : ∀ c : Component, U (.get (keyComponent r c.op))) (cs : List Component) (rev : Review)
    (hrev : rev.req_id = r) :
    (getComponents r (cs.map fun c => keyComponent r c.op) rev).Uses U
      fun out => ∀ rev', out = some rev' → rev'.req_id = r := by
  induction cs generalizing rev with
  | nil =>
    rintro rev' ⟨⟩
    exact hrev
  | cons c cs ih =>
    refine uses_ask_bind (hget c) ?_
    rintro (_ | _ | value)
    · exact uses_ask_bind (hlocal _ rfl) fun _ rev' h => by cases h
    · exact ih rev hrev
    · exact Prog.uses_ofExcept_bind fun rev' h =>
        ih rev' ((setComponent_req_id h).trans hrev)

theorem composeAndUpload_uses (hlocal : ∀ o, o.isLocal = true → U o)
    (hget : ∀ c : Component, U (.get (keyComponent r c.op)))
    (hworker : ∀ review, review.req_id = r →
      (worker.invoke_func_fn_ (.exp02StoreReview4 review)).Uses U fun _ => True) :
    (composeAndUpload worker r).Uses U fun _ => True := by
  refine uses_ask_bind (hlocal _ rfl) ?_
  rintro (_ | _)
  · trivial
  refine Prog.Uses.bind (getComponents_uses hlocal hget composeOrder _ rfl) ?_
  rintro (_ | review) hreview
  · trivial
  · refine uses_ask_bind (hlocal _ rfl) fun _ => Prog.Uses.bind (hworker review (hreview _ rfl)) ?_
    intro code _
    by_cases hcode : code = 0 <;> simp only [hcode, ne_eq, not_true_eq_false, not_false_eq_true,
      if_true, if_false] <;> trivial

theorem finishUpload_uses (hlocal : ∀ o, o.isLocal = true → U o)
    (hget : ∀ c : Component, U (.get (keyComponent r c.op)))
    (hworker : ∀ review, review.req_id = r →
      (worker.invoke_func_fn_ (.exp02StoreReview4 review)).Uses U fun _ => True) (n : UInt64) :
    (finishUpload worker r n).Uses U fun _ => True := by
  refine uses_ask_bind (hlocal _ rfl) fun _ => ?_
  by_cases hn : n.toNat = numComponents <;> simp only [hn, if_true, if_false]
  · exact Prog.Uses.bind (composeAndUpload_uses hlocal hget hworker) fun _ _ => trivial
  · trivial

/-- A call of `Upload` for a request stays with that request. -/
theorem upload_uses (hlocal : ∀ o, o.isLocal = true → U o) (val : Review)
    (op : UploadOp) (hkeys : ∀ o, UploadTouches val op o → U o)
    (hworker : ∀ review, review.req_id = val.req_id →
      (worker.invoke_func_fn_ (.exp02StoreReview4 review)).Uses U fun _ => True) :
    (upload worker val op).Uses U fun _ => True := by
  have hret : ∀ n : Int, (ask (.push .upload) >>= fun _ => (return n : Service Int)).Uses U
      fun _ => True := fun n => uses_ask_bind (hlocal _ rfl) fun _ => trivial
  have hfinish := finishUpload_uses hlocal (fun c => hkeys _ (.getComponent c)) hworker
  have hcount : ∀ success, (countUpload worker val.req_id success).Uses U fun _ => True := by
    rintro (_ | _ | _)
    · exact hret _
    · refine uses_ask_bind (hkeys _ .getCounter) ?_
      rintro (_ | _ | value)
      · exact hret _
      · exact hret _
      · exact Prog.uses_ofExcept_bind
          fun n _ => hfinish n
    · refine uses_ask_bind (hkeys _ .incrCounter) ?_
      rintro (_ | result)
      · exact hret _
      · exact Prog.uses_ofExcept_bind fun n _ => hfinish n
  unfold upload
  refine uses_ask_bind (hlocal _ rfl) ?_
  rintro (_ | _)
  · trivial
  refine uses_ask_bind (hkeys _ .addCounter) ?_
  rintro (_ | stored)
  · exact hret _
  simp only
  cases hvalue : componentValue val op with
  | none => exact hcount (some stored)
  | some value => exact uses_ask_bind (hkeys _ (.addComponent hvalue)) hcount

/-! ## The other handlers -/

theorem lookupMovieId_uses (hlocal : ∀ o, o.isLocal = true → U o) {title : CString 128}
    (hget : U (.get (keyTitle title))) : (lookupMovieId title).Uses U fun _ => True := by
  have hfind : (findMovieId title).Uses U fun _ => True := by
    refine uses_ask_bind (hlocal _ rfl) ?_
    rintro (_ | _)
    · trivial
    refine uses_ask_bind (hlocal _ rfl) ?_
    rintro (_ | _)
    · exact uses_ask_bind (hlocal _ rfl) fun _ => trivial
    · exact uses_ask_bind (hlocal _ rfl) fun doc => uses_ask_bind (hlocal _ rfl) fun _ => trivial
  refine uses_ask_bind (hlocal _ rfl) ?_
  rintro (_ | _)
  · trivial
  refine uses_ask_bind hget ?_
  rintro (_ | _ | movie_id)
  · exact uses_ask_bind (hlocal _ rfl) fun _ => trivial
  · exact uses_ask_bind (hlocal _ rfl) fun _ => hfind
  · exact uses_ask_bind (hlocal _ rfl) fun _ => trivial

theorem cacheMovieId_uses (hlocal : ∀ o, o.isLocal = true → U o) {title : CString 128}
    {movie_id : Bytes} (hset : U (.set (keyTitle title) movie_id 0)) :
    (cacheMovieId title movie_id).Uses U fun _ => True := by
  refine uses_ask_bind (hlocal _ rfl) ?_
  rintro (_ | _)
  · trivial
  · exact uses_ask_bind hset fun _ => uses_ask_bind (hlocal _ rfl) fun _ => trivial

theorem uploadMovieId_uses (hlocal : ∀ o, o.isLocal = true → U o) {val : Title}
    (hget : U (.get (keyTitle val.title))) (hset : ∀ movie_id, U (.set (keyTitle val.title) movie_id 0))
    (hmovie : ∀ movie_id, (worker.invoke_func_fn_
      (.exp02UploadMovieId3 ⟨val.req_id, movie_id, 0⟩)).Uses U fun _ => True)
    (hrating : (worker.invoke_func_fn_ (.exp02UploadRating3 ⟨val.req_id, val.rating⟩)).Uses U
      fun _ => True) :
    (uploadMovieId worker val).Uses U fun _ => True := by
  refine Prog.Uses.bind (lookupMovieId_uses hlocal hget) ?_
  rintro (_ | movie_id) -
  · trivial
  refine Prog.Uses.bind (cacheMovieId_uses hlocal (hset movie_id)) ?_
  rintro (_ | _) -
  · trivial
  refine Prog.uses_ofExcept_bind fun s _ => ?_
  refine Prog.Uses.bind (hmovie s) fun ret1 _ => Prog.Uses.bind hrating fun ret2 _ => ?_
  by_cases hret : ret1 ≠ 0 ∨ ret2 ≠ 0
  · simp only [hret, if_true]; trivial
  · simp only [hret, if_false]; trivial

theorem registerMovieId_uses (hlocal : ∀ o, o.isLocal = true → U o) {val : TitleForRegister}
    (hins : U (.insertMovie ⟨val.title.bytes, val.movie_id.bytes⟩)) :
    (registerMovieId val).Uses U fun _ => True := by
  have hinsert : (insertNewMovie val).Uses U fun _ => True := by
    refine uses_ask_bind (hlocal _ rfl) ?_
    rintro (_ | doc)
    · exact uses_ask_bind hins fun _ => trivial
    · trivial
  refine uses_ask_bind (hlocal _ rfl) ?_
  rintro (_ | _)
  · trivial
  refine uses_ask_bind (hlocal _ rfl) ?_
  rintro (_ | _)
  · exact uses_ask_bind (hlocal _ rfl) fun _ => trivial
  refine Prog.Uses.bind hinsert fun op_error _ => uses_ask_bind (hlocal _ rfl) fun _ => ?_
  cases op_error <;> trivial

theorem storeReview_uses (hlocal : ∀ o, o.isLocal = true → U o) {review : Review}
    (hins : U (.insertReview review)) : (storeReview review).Uses U fun _ => True := by
  refine uses_ask_bind (hlocal _ rfl) ?_
  rintro (_ | _)
  · trivial
  refine uses_ask_bind (hlocal _ rfl) ?_
  rintro (_ | _)
  · exact uses_ask_bind (hlocal _ rfl) fun _ => trivial
  refine uses_ask_bind hins fun status => uses_ask_bind (hlocal _ rfl) fun _ => ?_
  cases status <;> trivial

theorem makeUniqueId_uses (hlocal : ∀ o, o.isLocal = true → U o) : makeUniqueId.Uses U fun _ => True := by
  refine uses_ask_bind (hlocal _ rfl) fun timestamp => uses_ask_bind (hlocal _ rfl) fun counter => ?_
  exact Prog.uses_ofExcept_bind fun _ _ => trivial

theorem runFunction_uses {f : Invocation} {body : Service Int} {Q : Int → Prop} (hf : U (.invoke f))
    (hbody : body.Uses U Q) : (runFunction f body).Uses U fun _ => True := by
  have hattempt : body.attempt.Uses U fun _ => True :=
    hbody.attempt (fun _ _ => trivial) fun _ => trivial
  exact uses_ask_bind hf fun _ => Prog.Uses.bind hattempt fun _ _ => trivial

end Uses

end MediaService
