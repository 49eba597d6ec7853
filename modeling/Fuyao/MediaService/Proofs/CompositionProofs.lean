import Fuyao.Cpp.Proofs.StringsProofs
import Fuyao.MediaService.Composition

/-!
# Proofs: keys and components

No two keys that are made for different purposes coincide, and a component that is read back is the
component that was stored.
-/

namespace MediaService

open Cpp Concurrency

/-! ## Keys -/

theorem uploadOpName_injective : Function.Injective uploadOpName := by
  intro op op' h
  cases op <;> cases op' <;> first | rfl | exact absurd h (by decide)

theorem keyComponent_eq (r : Int64) (op : UploadOp) :
    keyComponent r op = toStr r.toInt ++ 58 :: uploadOpName op := by
  simp [keyComponent, ascii]

theorem keyCounter_eq (r : Int64) :
    keyCounter r = toStr r.toInt ++ 58 :: ascii "counter" := by
  simp [keyCounter, ascii]

/-- The part before the first colon of a key is the number of the request. -/
theorem takeWhile_key (z : Int) (s : Bytes) :
    (toStr z ++ 58 :: s).takeWhile (· != 58) = toStr z := by
  rw [List.takeWhile_append_of_pos fun b hb => ?_]
  · simp
  · have : b ≠ 58 := fun h => colon_notMem_toStr z (h ▸ hb)
    simpa using this

theorem key_inj {r r' : Int64} {s s' : Bytes}
    (h : toStr r.toInt ++ 58 :: s = toStr r'.toInt ++ 58 :: s') : r = r' ∧ s = s' := by
  have hr := congrArg (List.takeWhile (· != 58)) h
  rw [takeWhile_key, takeWhile_key] at hr
  rw [hr, List.append_cancel_left_eq, List.cons.injEq] at h
  exact ⟨Int64.toInt_inj.mp (toStr_injective hr), h.2⟩

theorem keyComponent_inj {r r' : Int64} {op op' : UploadOp}
    (h : keyComponent r op = keyComponent r' op') : r = r' ∧ op = op' := by
  rw [keyComponent_eq, keyComponent_eq] at h
  exact (key_inj h).imp_right fun hs => uploadOpName_injective hs

theorem keyCounter_inj {r r' : Int64} (h : keyCounter r = keyCounter r') : r = r' := by
  rw [keyCounter_eq, keyCounter_eq] at h
  exact (key_inj h).1

theorem keyCounter_ne_keyComponent (r r' : Int64) (op : UploadOp) :
    keyCounter r ≠ keyComponent r' op := by
  intro h
  rw [keyCounter_eq, keyComponent_eq] at h
  have hs := (key_inj h).2
  cases op <;> exact absurd hs (by decide)

/-- Keys of different requests differ. -/
theorem IsComposeKey.req_id_eq {r r' : Int64} {key : Bytes} (h : IsComposeKey r key)
    (h' : IsComposeKey r' key) : r = r' := by
  cases h with
  | counter =>
    generalize hk : keyCounter r = key at h'
    cases h' with
    | counter => exact keyCounter_inj hk
    | component op => exact absurd hk (keyCounter_ne_keyComponent _ _ _)
  | component op =>
    generalize hk : keyComponent r op = key at h'
    cases h' with
    | counter => exact absurd hk.symm (keyCounter_ne_keyComponent _ _ _)
    | component op' => exact (keyComponent_inj hk).1

/-- Every key of a request contains a colon. -/
theorem IsComposeKey.colon_mem {r : Int64} {key : Bytes} (h : IsComposeKey r key) : 58 ∈ key := by
  cases h with
  | counter => simp [keyCounter_eq]
  | component op => simp [keyComponent_eq]

/-! ## Components -/

theorem Component.op_injective : Function.Injective Component.op := by
  intro c c' h
  cases c <;> cases c' <;> first | rfl | exact absurd h (by decide)

theorem componentValue_op (val : Review) (c : Component) :
    componentValue val c.op = some (c.encode val) := by
  cases c <;> rfl

theorem exists_component_of_value {val : Review} {op : UploadOp} {value : Bytes}
    (h : componentValue val op = some value) : ∃ c : Component, c.op = op ∧ c.encode val = value := by
  cases op with
  | uploadText => exact ⟨.text, rfl, Option.some.inj h⟩
  | uploadUniqueId => exact ⟨.uniqueId, rfl, Option.some.inj h⟩
  | uploadMovieId => exact ⟨.movieId, rfl, Option.some.inj h⟩
  | uploadUserId => cases h
  | uploadRating => exact ⟨.rating, rfl, Option.some.inj h⟩

theorem Call.op_eq (call : Call) : call.op = call.component.op := by
  cases call <;> rfl

/-- The components of a review are those that were copied into it, in whatever it started from. -/
theorem copy_composeOrder (r : Int64) (v : Component → Review) :
    composeOrder.foldl (fun rev c => c.copy (v c) rev) { Review.zero with req_id := r } =
      assemble r v :=
  rfl

/-- A member is only set under its own key. -/
theorem setComponent_keyComponent (r : Int64) (c : Component) (value : Bytes) (rev : Review) :
    setComponent r (keyComponent r c.op) value rev =
      match c with
      | .uniqueId => (stoul value).map fun n => { rev with review_id := n.toInt64 }
      | .movieId => (strcpy 128 value).map fun s => { rev with movie_id := s }
      | .text => (strcpy 512 value).map fun s => { rev with text := s }
      | .rating => (stoi value).map fun n => { rev with rating := n.toInt64 } := by
  have hkey : ∀ op op', keyComponent r op = keyComponent r op' ↔ op = op' :=
    fun op op' => ⟨fun h => (keyComponent_inj h).2, fun h => h ▸ rfl⟩
  unfold setComponent
  simp only [hkey]
  cases c <;> simp [Component.op]

/-- Reading a component back gives the component that was stored. -/
theorem setComponent_encode (r : Int64) (c : Component) (val rev : Review)
    (h : c = .rating → FitsInt val.rating) :
    setComponent r (keyComponent r c.op) (c.encode val) rev = .ok (c.copy val rev) := by
  rw [setComponent_keyComponent]
  cases c with
  | text => simp only [Component.encode, strcpy_bytes, Except.map, Component.copy]
  | uniqueId => simp only [Component.encode, stoul_toStr_int64, Except.map, Component.copy]; rfl
  | movieId => simp only [Component.encode, strcpy_bytes, Except.map, Component.copy]
  | rating =>
    obtain ⟨hlo, hhi⟩ := h rfl
    have hback : (Int32.ofInt val.rating.toInt).toInt64 = val.rating := by
      apply Int64.toInt_inj.mp
      rw [Int32.toInt_toInt64, Int32.toInt_ofInt_of_le (by omega) (by omega)]
    simp only [Component.encode, stoi_toStr hlo hhi, Except.map, Component.copy, hback]

/-- A rating that is not an `int` is not read back. -/
theorem setComponent_encode_rating (r : Int64) {val : Review} (rev : Review)
    (h : ¬ FitsInt val.rating) :
    setComponent r (keyComponent r Component.rating.op) (Component.rating.encode val) rev =
      .error .outOfRange := by
  have hout : val.rating.toInt < -2 ^ 31 ∨ 2 ^ 31 ≤ val.rating.toInt := by
    unfold FitsInt at h
    omega
  rw [setComponent_keyComponent]
  simp only [Component.encode, stoi_toStr_outOfRange hout, Except.map]

/-- Whatever the rating is, reading a component back gives what was stored or throws. -/
theorem setComponent_encode_cases (r : Int64) (c : Component) (val rev : Review) :
    setComponent r (keyComponent r c.op) (c.encode val) rev = .ok (c.copy val rev) ∨
      c = .rating ∧ ¬ FitsInt val.rating ∧
        setComponent r (keyComponent r c.op) (c.encode val) rev = .error .outOfRange := by
  by_cases h : c = .rating → FitsInt val.rating
  · exact .inl (setComponent_encode r c val rev h)
  · obtain ⟨rfl, hfit⟩ : c = .rating ∧ ¬ FitsInt val.rating := by simpa using h
    exact .inr ⟨rfl, hfit, setComponent_encode_rating r rev hfit⟩

end MediaService
