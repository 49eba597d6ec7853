import Fuyao.MediaService.Clients
import Fuyao.MediaService.Proofs.EntriesProofs

/-!
# Proofs: the clients a call takes

The handlers on memcached are followed from `Pop` to `Push`. What they find in memcached is as agreed, so
every conversion between the two succeeds except that of a rating which is not an `int`; what they do not
find does no harm except where a counter is incremented.
-/

namespace MediaService

open Cpp Concurrency

/-! ## Uses of clients -/

section Uses

variable {held held' : Option Handler} {h : Handler} {e : (o : Op) × o.Res}
  {es es' : List ((o : Op) × o.Res)} {β : Type} {P : β → Option Handler → Prop} {out : Except Exn β}

theorem clientUses_cons_of_none (hu : clientUse e = none) :
    clientUses held (e :: es) = clientUses held es := by
  simp [clientUses, hu]

theorem clientUses_append (held : Option Handler) (es es' : List ((o : Op) × o.Res)) :
    clientUses held (es ++ es') = clientUses held es ++ clientUses none es' := by
  simp [clientUses]

theorem givesBack_push (uses : List (ClientUse Handler)) :
    givesBack (clientUses (some h) (⟨.push h, ()⟩ :: es) ++ uses) =
      givesBack (clientUses none es ++ uses) := by
  simp [clientUses, clientUse, givesBack]

theorem Carries.refl (held : Option Handler) : Carries held held [] := ⟨by simp, fun _ => rfl⟩

theorem Carries.append {held'' : Option Handler} (h₁ : Carries held held' es)
    (h₂ : Carries held' held'' es') : Carries held held'' (es ++ es') := by
  refine ⟨fun e he => (List.mem_append.mp he).elim (h₁.1 e) (h₂.1 e), fun uses => ?_⟩
  rw [clientUses_append, List.append_assoc, h₁.2, ← h₂.2]
  simp [clientUses]

theorem Carries.leaves (h₁ : Carries held held' es) (h₂ : Leaves held' es') :
    Leaves held (es ++ es') := by
  obtain ⟨⟨e, he, hstop⟩, hend⟩ := h₂
  refine ⟨⟨e, List.mem_append_right _ he, hstop⟩, ?_⟩
  rw [clientUses_append, h₁.2, ← hend]
  simp [clientUses]

theorem carries_of_none (hu : clientUse e = none) (hl : ¬ LargeRating e) (hc : ¬ LostCounter e) :
    Carries held held [e] := by
  refine ⟨by simp [Stops, hl, hc], fun uses => ?_⟩
  rw [clientUses_cons_of_none hu]

theorem carries_pop : Carries none (some h) [⟨.pop h, true⟩] :=
  ⟨by simp [Stops, LargeRating, LostCounter], fun _ => rfl⟩

theorem carries_push : Carries (some h) none [⟨.push h, ()⟩] :=
  ⟨by simp [Stops, LargeRating, LostCounter], givesBack_push⟩

theorem leaves_of_stops (hu : clientUse e = none) (hs : Stops e) : Leaves (some h) [e] := by
  refine ⟨⟨e, List.mem_singleton_self e, hs⟩, ?_⟩
  rw [clientUses_cons_of_none hu]
  rfl

/-- What was done before belongs to what a part of a method does. -/
theorem Settles.append (h₁ : Carries held held' es) (h₂ : Settles held' P es' out) :
    Settles held P (es ++ es') out := by
  cases out with
  | ok b =>
    obtain ⟨held'', hcarry, hP⟩ := h₂
    exact ⟨held'', h₁.append hcarry, hP⟩
  | error e =>
    exact ⟨h₂.1, h₂.2.imp h₁.append h₁.leaves⟩

/-- A method that ends has given back every client, unless an answer has stopped it. -/
theorem Settles.givesBack_iff (hs : Settles none EmptyHanded es out) :
    givesBack (es.filterMap clientUse) = true ↔ ∀ e ∈ es, ¬ Stops e := by
  have hback : Carries none none es → givesBack (es.filterMap clientUse) = true := fun hc => by
    simpa [clientUses, givesBack] using hc.2 []
  cases out with
  | ok b =>
    obtain ⟨_, hcarry, rfl⟩ := hs
    exact ⟨fun _ => hcarry.1, fun _ => hback hcarry⟩
  | error e =>
    rcases hs.2 with hcarry | ⟨⟨e', he', hstop⟩, hend⟩
    · exact ⟨fun _ => hcarry.1, fun _ => hback hcarry⟩
    · have hend : givesBack (es.filterMap clientUse) = false := hend
      rw [hend]
      exact ⟨fun h => (by cases h), fun h => absurd hstop (h e' he')⟩

theorem Settles.ne_overflow (hs : Settles held P es out) : out ≠ .error .overflow := by
  rintro rfl
  exact hs.1 rfl

end Uses

/-! ## Rules -/

section Rules

variable {ι : Type} {calls : ι → ServiceCall} {held held' : Option Handler} {β γ : Type}
  {P : β → Option Handler → Prop} {f : γ → Service β}

theorem settles_return {b : β} (hb : P b held) :
    (storeContract calls).Meets (return b : Service β) (Settles held P) :=
  ⟨held, .refl held, hb⟩

theorem settles_bind {p : Service γ} {P' : γ → Option Handler → Prop}
    (hp : (storeContract calls).Meets p (Settles held P'))
    (hf : ∀ a held', P' a held' → (storeContract calls).Meets (f a) (Settles held' P)) :
    (storeContract calls).Meets (p >>= f) (Settles held P) := by
  refine hp.bind (fun es a ⟨held', hcarry, ha⟩ => ?_) fun es e he => he
  exact (hf a held' ha).mono fun es' out => Settles.append hcarry

/-- What follows on an operation. -/
theorem settles_after {p : Service β} {e : (o : Op) × o.Res} (he : Carries held held' [e])
    (hp : (storeContract calls).Meets p (Settles held' P)) :
    (storeContract calls).Meets p fun es out => Settles held P (e :: es) out :=
  hp.mono fun _ _ => Settles.append he

/-- An operation that has nothing to do with clients and whose answers stop nobody. -/
theorem settles_ask {o : Op} {f : o.Res → Service β} (ho : (storeContract calls).asks o)
    (hquiet : ∀ r, clientUse ⟨o, r⟩ = none ∧ ¬ LargeRating ⟨o, r⟩ ∧ ¬ LostCounter ⟨o, r⟩)
    (hf : ∀ r, (storeContract calls).gets o r →
      (storeContract calls).Meets (f r) (Settles held P)) :
    (storeContract calls).Meets (ask o >>= f) (Settles held P) :=
  ⟨ho, fun r hr => settles_after (carries_of_none (hquiet r).1 (hquiet r).2.1 (hquiet r).2.2) (hf r hr)⟩

theorem settles_pop {h : Handler} {f : Bool → Service β}
    (hnone : (storeContract calls).Meets (f false) (Settles none P))
    (hsome : (storeContract calls).Meets (f true) (Settles (some h) P)) :
    (storeContract calls).Meets (ask (.pop h) >>= f) (Settles none P) := by
  refine ⟨trivial, fun r _ => ?_⟩
  cases r with
  | false => exact settles_after (carries_of_none rfl id id) hnone
  | true => exact settles_after carries_pop hsome

theorem settles_push {h : Handler} {f : Unit → Service β}
    (hf : (storeContract calls).Meets (f ()) (Settles none P)) :
    (storeContract calls).Meets (ask (.push h) >>= f) (Settles (some h) P) :=
  ⟨trivial, fun _ _ => settles_after carries_push hf⟩

end Rules

/-! ## `ComposeReviewHandler` -/

section ComposeReview

variable {ι : Type} {calls : ι → ServiceCall} {i : ι} {req_id : Int64}

theorem not_largeRating_get {key : Bytes} (hkey : ∀ req_id, key ≠ keyComponent req_id .uploadRating)
    (r : Option (Option Bytes)) : ¬ LargeRating ⟨.get key, r⟩ := by
  rcases r with _ | _ | value
  · exact id
  · exact id
  · rintro ⟨req_id, rating, h, -⟩
    exact hkey req_id h

theorem largeRating_encode (req_id : Int64) (c : Component) (val : Review) :
    LargeRating ⟨.get (keyComponent req_id c.op), some (some (c.encode val))⟩ ↔
      c = .rating ∧ ¬ FitsInt val.rating := by
  constructor
  · rintro ⟨req_id', rating, hkey, hvalue, hfit⟩
    obtain rfl : c = .rating := Component.op_injective (keyComponent_inj hkey).2
    obtain rfl : val.rating = rating := Int64.toInt_inj.mp (toStr_injective hvalue)
    exact ⟨rfl, hfit⟩
  · rintro ⟨rfl, hfit⟩
    exact ⟨req_id, val.rating, rfl, rfl, hfit⟩

/-- The loop over the keys keeps its client, unless a `Get` fails or a rating is not an `int`. -/
theorem getComponents_settles (cs : List Component) (rev : Review) :
    (storeContract calls).Meets (getComponents req_id (cs.map fun c => keyComponent req_id c.op) rev)
      (Settles (some .composeAndUpload) fun out held =>
        held = if out.isSome then some .composeAndUpload else none) := by
  induction cs generalizing rev with
  | nil => exact settles_return rfl
  | cons c cs ih =>
    refine ⟨trivial, ?_⟩
    rintro (_ | _ | value) hentry
    · exact settles_after (carries_of_none rfl id id) (settles_push (settles_return rfl))
    · exact settles_after (carries_of_none rfl id id) (ih rev)
    obtain ⟨val, i, -, rfl⟩ := Entry.component_value hentry
    by_cases hlarge : LargeRating ⟨.get (keyComponent req_id c.op), some (some (c.encode val))⟩
    · -- the conversion throws, and nobody pushes the client
      obtain ⟨rfl, hfit⟩ := (largeRating_encode req_id c val).mp hlarge
      have hset := setComponent_encode_rating req_id rev hfit
      refine Contract.meets_ofExcept (fun rev' hrev' => ?_) fun e he => ?_
      · rw [hset] at hrev'
        cases hrev'
      · rw [hset] at he
        obtain rfl := Except.error.inj he
        exact ⟨by simp, .inr (leaves_of_stops rfl (.inl hlarge))⟩
    · have hset := setComponent_encode req_id c val rev fun hc =>
        not_not.mp fun hfit => hlarge ((largeRating_encode req_id c val).mpr ⟨hc, hfit⟩)
      refine settles_after (carries_of_none rfl hlarge id) (Contract.meets_ofExcept (fun rev' _ => ih rev') ?_)
      intro e he
      rw [hset] at he
      cases he

theorem composeAndUpload_settles :
    (storeContract calls).Meets (composeAndUpload .anyRuntime req_id) (Settles none EmptyHanded) := by
  refine settles_pop (settles_return rfl) ?_
  refine settles_bind (getComponents_settles composeOrder _) ?_
  rintro (_ | review) _ rfl
  · exact settles_return rfl
  · refine settles_push (settles_ask trivial (fun _ => ⟨rfl, id, id⟩) fun code _ => ?_)
    split <;> exact settles_return rfl

theorem finishUpload_settles (n : UInt64) :
    (storeContract calls).Meets (finishUpload .anyRuntime req_id n)
      (Settles (some .upload) EmptyHanded) := by
  refine settles_push ?_
  split
  · refine settles_bind composeAndUpload_settles ?_
    rintro _ _ rfl
    exact settles_return rfl
  · exact settles_return rfl

theorem countUpload_settles (success : Option Bool) :
    (storeContract calls).Meets (countUpload .anyRuntime req_id success)
      (Settles (some .upload) EmptyHanded) := by
  have hfail : (storeContract calls).Meets (ask (.push .upload) >>= fun _ => (return -1 : Service Int))
      (Settles (some .upload) EmptyHanded) := settles_push (settles_return rfl)
  rcases success with _ | _ | _
  · exact hfail
  · have hsmall := not_largeRating_get (keyCounter_ne_keyComponent req_id · .uploadRating)
    refine settles_ask trivial (fun r => ⟨rfl, hsmall r, id⟩) ?_
    rintro (_ | _ | value) hentry
    · exact hfail
    · exact hfail
    · obtain ⟨n, rfl⟩ := Entry.counter_value hentry
      refine Contract.meets_ofExcept (fun n _ => finishUpload_settles n) fun e he => ?_
      rw [stoul_toStr_natCast n.toNat_lt] at he
      cases he
  · refine ⟨⟨req_id, rfl⟩, ?_⟩
    rintro (_ | _ | n) -
    · exact settles_after (carries_of_none rfl id id) hfail
    · -- the null pointer is dereferenced, and nobody pushes the client
      exact ⟨by simp, .inr (leaves_of_stops rfl (.inr trivial))⟩
    · exact settles_after (carries_of_none rfl id id) (finishUpload_settles n)

theorem upload_settles {val : Review} {op : UploadOp} (hi : calls i = .upload val op) :
    (storeContract calls).Meets (upload .anyRuntime val op) (Settles none EmptyHanded) := by
  unfold upload
  refine settles_pop (settles_return rfl) ?_
  refine settles_ask (.counter val.req_id 0) (fun _ => ⟨rfl, id, id⟩) ?_
  rintro (_ | stored) -
  · exact settles_push (settles_return rfl)
  simp only
  cases hvalue : componentValue val op with
  | none => exact countUpload_settles (some stored)
  | some value =>
    obtain ⟨c, rfl, rfl⟩ := exists_component_of_value hvalue
    exact settles_ask (.component hi) (fun _ => ⟨rfl, id, id⟩) fun success _ => countUpload_settles success

end ComposeReview

/-! ## The movie service and the rest -/

section MovieId

variable {ι : Type} {calls : ι → ServiceCall}

theorem noMovieId_settles :
    (storeContract calls).Meets (return none : Service (Option Bytes))
      (Settles none fun out held => held = none ∧ ∀ id, out = some id → IsMovieId id) :=
  settles_return ⟨rfl, fun id h => by cases h⟩

theorem findMovieId_settles (title : CString 128) :
    (storeContract calls).Meets (findMovieId title)
      (Settles none fun out held => held = none ∧ ∀ id, out = some id → IsMovieId id) := by
  refine settles_ask trivial (fun _ => ⟨rfl, id, id⟩) ?_
  rintro (_ | _) -
  · exact noMovieId_settles
  refine settles_ask trivial (fun _ => ⟨rfl, id, id⟩) ?_
  rintro (_ | _) -
  · exact settles_ask trivial (fun _ => ⟨rfl, id, id⟩) fun _ _ => noMovieId_settles
  refine settles_ask trivial (fun _ => ⟨rfl, id, id⟩) fun doc hdoc => ?_
  refine settles_ask trivial (fun _ => ⟨rfl, id, id⟩) fun _ _ => settles_return ⟨rfl, fun id hid => ?_⟩
  cases doc with
  | none => cases hid
  | some doc =>
    obtain ⟨s, hs⟩ : IsMovieId doc.movie_id := hdoc
    obtain rfl : cStr doc.movie_id = id := by simpa using hid
    exact ⟨s, by rw [hs, cStr_eq_self s.no_nul]⟩

theorem lookupMovieId_settles (title : CString 128) :
    (storeContract calls).Meets (lookupMovieId title)
      (Settles none fun out held => held = none ∧ ∀ id, out = some id → IsMovieId id) := by
  refine settles_pop noMovieId_settles ?_
  have hsmall := not_largeRating_get fun req_id (h : keyTitle title = _) =>
    not_isComposeKey_keyTitle req_id title (h ▸ .component .uploadRating)
  refine settles_ask trivial (fun r => ⟨rfl, hsmall r, id⟩) ?_
  rintro (_ | _ | value) hentry
  · exact settles_push noMovieId_settles
  · exact settles_push (findMovieId_settles title)
  · refine settles_push (settles_return ⟨rfl, fun id hid => ?_⟩)
    obtain rfl := Option.some.inj hid
    exact Entry.title_value hentry

theorem cacheMovieId_settles (title : CString 128) {movie_id : Bytes} (hid : IsMovieId movie_id) :
    (storeContract calls).Meets (cacheMovieId title movie_id) (Settles none EmptyHanded) := by
  refine settles_pop (settles_return rfl) ?_
  exact settles_ask (.title title hid) (fun _ => ⟨rfl, id, id⟩) fun _ _ => settles_push (settles_return rfl)

theorem uploadMovieId_settles (val : Title) :
    (storeContract calls).Meets (uploadMovieId .anyRuntime val) (Settles none EmptyHanded) := by
  refine settles_bind (lookupMovieId_settles val.title) ?_
  rintro (_ | id) _ ⟨rfl, hid⟩
  · exact settles_return rfl
  obtain ⟨s, rfl⟩ := hid id rfl
  refine settles_bind (cacheMovieId_settles val.title ⟨s, rfl⟩) ?_
  rintro (_ | _) _ rfl
  · exact settles_return rfl
  refine Contract.meets_ofExcept (fun movie_id _ => ?_) fun e he => ?_
  · refine settles_ask trivial (fun _ => ⟨rfl, id, id⟩) fun ret1 _ => ?_
    refine settles_ask trivial (fun _ => ⟨rfl, id, id⟩) fun ret2 _ => ?_
    split <;> exact settles_return rfl
  · rw [strcpy_bytes] at he
    cases he

theorem insertNewMovie_settles (val : TitleForRegister) :
    (storeContract calls).Meets (insertNewMovie val) (Settles none EmptyHanded) := by
  refine settles_ask trivial (fun _ => ⟨rfl, id, id⟩) ?_
  rintro (_ | doc) -
  · exact settles_ask ⟨val.movie_id, rfl⟩ (fun _ => ⟨rfl, id, id⟩) fun _ _ => settles_return rfl
  · exact settles_return rfl

theorem registerMovieId_settles (val : TitleForRegister) :
    (storeContract calls).Meets (registerMovieId val) (Settles none EmptyHanded) := by
  refine settles_ask trivial (fun _ => ⟨rfl, id, id⟩) ?_
  rintro (_ | _) -
  · exact settles_return rfl
  refine settles_ask trivial (fun _ => ⟨rfl, id, id⟩) ?_
  rintro (_ | _) -
  · exact settles_ask trivial (fun _ => ⟨rfl, id, id⟩) fun _ _ => settles_return rfl
  refine settles_bind (insertNewMovie_settles val) ?_
  rintro op_error _ rfl
  refine settles_ask trivial (fun _ => ⟨rfl, id, id⟩) fun _ _ => ?_
  cases op_error <;> exact settles_return rfl

theorem storeReview_settles (review : Review) :
    (storeContract calls).Meets (storeReview review) (Settles none EmptyHanded) := by
  refine settles_ask trivial (fun _ => ⟨rfl, id, id⟩) ?_
  rintro (_ | _) -
  · exact settles_return rfl
  refine settles_ask trivial (fun _ => ⟨rfl, id, id⟩) ?_
  rintro (_ | _) -
  · exact settles_ask trivial (fun _ => ⟨rfl, id, id⟩) fun _ _ => settles_return rfl
  refine settles_ask trivial (fun _ => ⟨rfl, id, id⟩) fun status _ => ?_
  refine settles_ask trivial (fun _ => ⟨rfl, id, id⟩) fun _ _ => ?_
  cases status <;> exact settles_return rfl

theorem uploadText_settles (val : Text) :
    (storeContract calls).Meets (uploadText .anyRuntime val) (Settles none EmptyHanded) := by
  refine settles_ask trivial (fun _ => ⟨rfl, id, id⟩) fun ret _ => ?_
  split <;> exact settles_return rfl

theorem uploadUniqueId_settles (req_id : Int64) :
    (storeContract calls).Meets (uploadUniqueId .anyRuntime req_id) (Settles none EmptyHanded) := by
  have hunique : (storeContract calls).Meets makeUniqueId (Settles none EmptyHanded) := by
    refine settles_ask trivial (fun _ => ⟨rfl, id, id⟩) fun timestamp _ => ?_
    refine settles_ask trivial (fun _ => ⟨rfl, id, id⟩) fun counter _ => ?_
    refine Contract.meets_ofExcept (fun n _ => settles_return rfl) fun e he => ⟨?_, .inl (.refl none)⟩
    rintro rfl
    exact stoulBase_ne_overflow _ _ he
  refine settles_bind hunique ?_
  rintro review_id _ rfl
  refine settles_ask trivial (fun _ => ⟨rfl, id, id⟩) fun ret _ => ?_
  split <;> exact settles_return rfl

end MovieId

/-! ## Calls -/

section Calls

variable {ι : Type} {calls : ι → ServiceCall} {stopped : Prop} {field : Option JsonValue}

theorem settlesUnless_of_settles {p : Service Int}
    (hp : (storeContract calls).Meets p (Settles none EmptyHanded)) :
    (storeContract calls).Meets p (SettlesUnless stopped) :=
  hp.mono fun _ _ => .inl

theorem settlesUnless_getInt {v : JsonValue} (hv : field = some v) {f : Int32 → Service Int}
    (hstop : ¬ HasInt field → stopped)
    (hf : ∀ n, (storeContract calls).Meets (f n) (SettlesUnless stopped)) :
    (storeContract calls).Meets (Prog.ofExcept v.getInt >>= f) (SettlesUnless stopped) := by
  refine Contract.meets_ofExcept (fun n _ => hf n) fun e he => .inr ⟨rfl, hstop ?_⟩
  rintro ⟨v', n, hv', hn⟩
  obtain rfl := Option.some.inj (hv.symm.trans hv')
  rw [he] at hn
  cases hn

theorem settlesUnless_getString {v : JsonValue} (hv : field = some v) {f : Bytes → Service Int}
    (hstop : ¬ HasString field → stopped)
    (hf : ∀ s, field = some (.string s) → (storeContract calls).Meets (f s) (SettlesUnless stopped)) :
    (storeContract calls).Meets (Prog.ofExcept v.getString >>= f) (SettlesUnless stopped) := by
  have hstopped : (∀ s, v ≠ .string s) → stopped := by
    refine fun hne => hstop ?_
    rintro ⟨s, hs⟩
    exact hne s (Option.some.inj (hv.symm.trans hs))
  cases v with
  | string s => exact hf s hv
  | integer z => exact .inr ⟨rfl, hstopped (by simp)⟩
  | float z => exact .inr ⟨rfl, hstopped (by simp)⟩
  | boolean b => exact .inr ⟨rfl, hstopped (by simp)⟩
  | other => exact .inr ⟨rfl, hstopped (by simp)⟩

theorem settlesUnless_strcpy {n : ℕ} {s : Bytes} (hs : field = some (.string s))
    {f : CString n → Service Int} (hstop : ¬ FitsArray n field → stopped)
    (hf : ∀ t, (storeContract calls).Meets (f t) (SettlesUnless stopped)) :
    (storeContract calls).Meets (Prog.ofExcept (strcpy n s) >>= f) (SettlesUnless stopped) := by
  refine Contract.meets_ofExcept (fun t _ => hf t) fun e he => .inr ⟨rfl, hstop fun hfit => ?_⟩
  rw [strcpy, dif_pos (hfit s hs)] at he
  cases he

theorem uploadText1_settles (input_json : Json) :
    (storeContract calls).Meets (uploadText1 .anyRuntime input_json)
      (SettlesUnless ¬ ((ServiceCall.uploadText1 input_json).Accepted ∧
        (ServiceCall.uploadText1 input_json).Fits)) := by
  unfold uploadText1
  split
  next req_id text hreq htext =>
    refine settlesUnless_getInt hreq (fun h hok => h hok.1.1) fun n => ?_
    refine settlesUnless_getString htext (fun h hok => h hok.1.2) fun s hs => ?_
    refine settlesUnless_strcpy hs (fun h hok => h hok.2) fun t => ?_
    exact settlesUnless_of_settles (uploadText_settles _)
  · exact settlesUnless_of_settles (settles_return rfl)

theorem uploadUniqueId1_settles (input_json : Json) :
    (storeContract calls).Meets (uploadUniqueId1 .anyRuntime input_json)
      (SettlesUnless ¬ ((ServiceCall.uploadUniqueId1 input_json).Accepted ∧
        (ServiceCall.uploadUniqueId1 input_json).Fits)) := by
  unfold uploadUniqueId1
  split
  next req_id hreq =>
    refine settlesUnless_getInt hreq (fun h hok => h hok.1) fun n => ?_
    exact settlesUnless_of_settles (uploadUniqueId_settles _)
  · exact settlesUnless_of_settles (settles_return rfl)

theorem uploadMovieId1_settles (input_json : Json) :
    (storeContract calls).Meets (uploadMovieId1 .anyRuntime input_json)
      (SettlesUnless ¬ ((ServiceCall.uploadMovieId1 input_json).Accepted ∧
        (ServiceCall.uploadMovieId1 input_json).Fits)) := by
  unfold uploadMovieId1
  split
  next req_id title rating hreq htitle hrating =>
    refine settlesUnless_getInt hreq (fun h hok => h hok.1.1) fun n => ?_
    refine settlesUnless_getString htitle (fun h hok => h hok.1.2.1) fun s hs => ?_
    refine settlesUnless_getInt hrating (fun h hok => h hok.1.2.2) fun m => ?_
    refine settlesUnless_strcpy hs (fun h hok => h hok.2) fun t => ?_
    exact settlesUnless_of_settles (uploadMovieId_settles _)
  · exact settlesUnless_of_settles (settles_return rfl)

theorem registerMovieId1_settles (input_json : Json) :
    (storeContract calls).Meets (registerMovieId1 input_json)
      (SettlesUnless ¬ ((ServiceCall.registerMovieId1 input_json).Accepted ∧
        (ServiceCall.registerMovieId1 input_json).Fits)) := by
  unfold registerMovieId1
  split
  next req_id title movie_id hreq htitle hid =>
    refine settlesUnless_getInt hreq (fun h hok => h hok.1.1) fun n => ?_
    refine settlesUnless_getString htitle (fun h hok => h hok.1.2.1) fun s hs => ?_
    refine settlesUnless_getString hid (fun h hok => h hok.1.2.2) fun s' hs' => ?_
    refine settlesUnless_strcpy hs (fun h hok => h hok.2.1) fun t => ?_
    refine settlesUnless_strcpy hs' (fun h hok => h hok.2.2) fun t' => ?_
    exact settlesUnless_of_settles (registerMovieId_settles _)
  · exact settlesUnless_of_settles (settles_return rfl)

/-- Every call settles, unless its input stops it before it has done anything. -/
theorem run_settles (calls : ι → ServiceCall) (i : ι) :
    (storeContract calls).Meets (serviceCalls calls i)
      (SettlesUnless ¬ ((calls i).Accepted ∧ (calls i).Fits)) := by
  unfold serviceCalls
  cases hi : calls i with
  | uploadText1 input_json => exact uploadText1_settles input_json
  | uploadUniqueId1 input_json => exact uploadUniqueId1_settles input_json
  | uploadMovieId1 input_json => exact uploadMovieId1_settles input_json
  | registerMovieId1 input_json => exact registerMovieId1_settles input_json
  | uploadMovieId val => exact settlesUnless_of_settles (uploadMovieId_settles val)
  | upload val op => exact settlesUnless_of_settles (upload_settles hi)
  | composeAndUpload req_id => exact settlesUnless_of_settles composeAndUpload_settles
  | storeReview review => exact settlesUnless_of_settles (storeReview_settles review)

variable [DecidableEq ι] {adm : ServiceLabel ι → Prop} {c : ServiceConfig ι}

/-- In every run the stores hold what was agreed, and a call that has ended has settled. -/
theorem settles_of_reachable (hc : ReachableFrom World.empty adm (serviceCalls calls) c) {i : ι}
    {out : Except Exn Int} (hout : (c.threads i).outcome = some out) :
    SettlesUnless (¬ ((calls i).Accepted ∧ (calls i).Fits)) (Config.answers i c.trace) out :=
  (storeContract_keptBy calls).ended (.empty calls) (run_settles calls) hc hout

end Calls

end MediaService
