import Fuyao.Batching.Proofs.BatchingProofs
import Fuyao.Cpp.Proofs.ContainersProofs
import Fuyao.Pheromone.Triggers

/-!
# Proofs: when triggers run their functions

The triggers that hold objects back implement batching policies: by the number of objects, by the keys
that a session still lacks, by the control keys, and by the time since the last batch. The relation
between a trigger and its policy is kept by every call (`batchSize_implements` and so on), so what the
policy guarantees of whole runs holds of the trigger.
-/

namespace Pheromone

open Cpp Batching Trigger

variable {f name : Bytes}

/-! ## By batch size -/

/-- There are enough objects. -/
def sizePolicy (n : ℕ) : Policy Unit (Bytes × Bytes) := ⟨fun _ l => n ≤ l.length, fun _ _ => ()⟩

theorem sizePolicy_justFull {n : ℕ} {b : List (Bytes × Bytes)} (h : (sizePolicy n).JustFull () b) :
    b.length = max 1 n := by
  have hpos := List.length_pos_iff.mpr h.1
  have hfull : n ≤ b.length := by simpa [sizePolicy] using h.2.1
  by_cases hone : b.dropLast = []
  · have := congrArg List.length hone
    rw [List.length_dropLast, List.length_nil] at this
    omega
  · have hlt : b.length - 1 < n := by
      simpa [sizePolicy] using h.neverFull_dropLast.full_eq_false hone
    omega

theorem sizePolicy_neverFull {n : ℕ} {l : List (Bytes × Bytes)} (h : (sizePolicy n).NeverFull () l) :
    l.length < max 1 n := by
  by_cases hl : l = []
  · rw [hl, List.length_nil]
    omega
  · have hlt : l.length < n := by simpa [sizePolicy] using h.full_eq_false hl
    omega

theorem batchSize_implements (f : Bytes) (count : Int32) :
    Implements step (sizePolicy (sizeOfInt count)) Call.arrival (fun _ => true)
      (fun b actions => actions = [⟨f, b⟩])
      (fun t a => ∃ b, t = byBatchSize b ∧ b.target_function_ = f ∧ b.count_ = count ∧ b.buffer_ = a.2) := by
  constructor
  · rintro _ a call ⟨b, rfl, hf, hc, hb⟩ hv
    cases call with
    | newObject => simp [Call.arrival] at hv
    | clear => simp [Call.arrival] at hv
    | notify => exact ⟨rfl, _, rfl, hf, hc, hb⟩
    | setRerunMetadata => exact ⟨rfl, _, rfl, hf, hc, hb⟩
  · rintro _ a call v ⟨b, rfl, hf, hc, hb⟩ hv
    cases call with
    | newObject bucket_key now =>
      obtain rfl := Option.some.inj hv
      simp only [step, actionForNewObject, ByBatchSizeTrigger.actionForNewObject, Policy.step, sizePolicy,
        decide_eq_true_eq, hb, hc]
      split <;> simp [hf]
    | clear session =>
      obtain rfl := Option.some.inj hv
      exact ⟨⟨_, rfl, hf, hc, rfl⟩, fun _ => rfl, by simp [Policy.step]⟩
    | notify => simp [Call.arrival] at hv
    | setRerunMetadata => simp [Call.arrival] at hv

/-- The objects between two calls of `clear` are handed over in their order, in batches of the size that
was asked for, until there are too few of them. -/
theorem batches_exact (f name : Bytes) (count : Int32) (calls : List Call) :
    ∃ cuts : List (List (List (Bytes × Bytes)) × List (Bytes × Bytes)),
      Event.parts (calls.filterMap Call.arrival) = cuts.map (fun cut => cut.1.flatten ++ cut.2) ∧
      (∀ cut ∈ cuts, (∀ b ∈ cut.1, b.length = max 1 (sizeOfInt count)) ∧
        cut.2.length < max 1 (sizeOfInt count)) ∧
      (Trigger.run (byBatchSize { target_function_ := f, trigger_name_ := name, count_ := count }) calls).1 =
        (cuts.flatMap Prod.fst).map (TriggerAction.mk f) := by
  obtain ⟨cuts, ⟨hparts, hfollows⟩, hrun⟩ :=
    (batchSize_implements f count).exists_cuts_map (s := byBatchSize ⟨f, name, count, [], ∅⟩) (m := ())
      ⟨_, rfl, rfl, rfl, rfl⟩ calls
  rw [List.filter_true] at hrun
  refine ⟨cuts, hparts, fun cut hcut => ⟨fun b hb => ?_, ?_⟩, hrun⟩
  · obtain ⟨_, h⟩ := (hfollows.of_mem cut hcut).1 b hb
    exact sizePolicy_justFull h
  · obtain ⟨_, h⟩ := (hfollows.of_mem cut hcut).2
    exact sizePolicy_neverFull h

/-! ## By set -/

/-- All keys of the set are there. -/
def coverPolicy (key_set : UnorderedSet Bytes) : Policy Unit Bytes :=
  ⟨fun _ l => key_set.elems.all (l.contains ·), fun _ _ => ()⟩

theorem coverPolicy_full_iff {key_set : UnorderedSet Bytes} {l : List Bytes} :
    (coverPolicy key_set).full () l = true ↔ ∀ key ∈ key_set, key ∈ l := by
  simp [coverPolicy, UnorderedSet.mem_def]

theorem coverPolicy_missing {key_set : UnorderedSet Bytes} {l : List Bytes} (hne : key_set.elems ≠ [])
    (h : (coverPolicy key_set).NeverFull () l) : ∃ key ∈ key_set, key ∉ l := by
  by_cases hl : l = []
  · obtain ⟨key, hkey⟩ := List.exists_mem_of_ne_nil _ hne
    exact ⟨key, hkey, by simp [hl]⟩
  · have hfull := mt coverPolicy_full_iff.mpr (Bool.eq_false_iff.mp (h.full_eq_false hl))
    push Not at hfull
    exact hfull

/-- A part of a set is all of it if it is as large. -/
theorem length_eq_iff_of_subset {s t : UnorderedSet Bytes} (hsub : ∀ key ∈ s, key ∈ t) :
    s.elems.length = t.elems.length ↔ ∀ key ∈ t, key ∈ s := by
  have hsubperm := List.subperm_of_subset s.nodup hsub
  constructor
  · intro hlen key hkey
    exact (hsubperm.perm_of_length_le (Nat.le_of_eq hlen.symm)).mem_iff.mpr hkey
  · intro h
    exact Nat.le_antisymm hsubperm.length_le (List.subperm_of_subset t.nodup h).length_le

/-- The keys that have arrived for a session are known. -/
structure Prepared (f : Bytes) (key_set : UnorderedSet Bytes) (session : Bytes) (b : BySetTrigger)
    (l : List Bytes) : Prop where
  function : b.target_function_ = f
  keys : b.key_set_ = key_set
  mem_iff : ∀ key, key ∈ b.prepared session ↔ key ∈ l
  subset : ∀ key ∈ l, key ∈ key_set

theorem ofSession_setAction {key_set : UnorderedSet Bytes} {session session' key : Bytes}
    (hkey : key ∈ key_set) : ofSession session (setAction f key_set session') = true ↔ session' = session := by
  simp only [ofSession, setAction, List.all_map, List.all_eq_true, Function.comp_apply, decide_eq_true_eq]
  exact ⟨fun h => h key hkey, fun h _ _ => h⟩

namespace Prepared

variable {key_set : UnorderedSet Bytes} {session : Bytes} {b : BySetTrigger} {l : List Bytes}

/-- The keys that have arrived are the whole set once they are as many. -/
theorem length_eq_iff (h : Prepared f key_set session b l) {key : Bytes} (hkey : key ∈ key_set) :
    ((b.prepared session).insert key).elems.length = key_set.elems.length ↔
      ∀ k ∈ key_set, k ∈ l ++ [key] := by
  have hmem (k : Bytes) : k ∈ (b.prepared session).insert key ↔ k ∈ l ++ [key] := by
    rw [UnorderedSet.mem_insert, h.mem_iff, List.mem_append, List.mem_singleton, or_comm]
  rw [length_eq_iff_of_subset]
  · exact forall₂_congr fun k _ => hmem k
  · intro k hk
    rcases List.mem_append.mp ((hmem k).mp hk) with hk | hk
    · exact h.subset k hk
    · rwa [List.mem_singleton.mp hk]

/-- What happens elsewhere does not matter to the session. -/
theorem of_lookup_eq (h : Prepared f key_set session b l) {b' : BySetTrigger}
    (hf : b'.target_function_ = b.target_function_) (hk : b'.key_set_ = b.key_set_)
    (hlookup : b'.session_prepared_keys_map_.lookup session = b.session_prepared_keys_map_.lookup session) :
    Prepared f key_set session b' l :=
  ⟨hf.trans h.function, hk.trans h.keys, by
    simpa only [BySetTrigger.prepared, hlookup] using h.mem_iff, h.subset⟩

/-- Nothing is prepared for a session that is not in the map. -/
theorem of_lookup_none (hf : b.target_function_ = f) (hk : b.key_set_ = key_set)
    (hlookup : b.session_prepared_keys_map_.lookup session = none) : Prepared f key_set session b [] :=
  ⟨hf, hk, by simp [BySetTrigger.prepared, hlookup], by simp⟩

/-- A key arrives that the session needs. -/
theorem arrival (h : Prepared f key_set session b l) (bucket_key : BucketKey)
    (hs : bucket_key.session_ = session) (hkey : bucket_key.key_ ∈ key_set) :
    (((coverPolicy key_set).full () (l ++ [bucket_key.key_]) = true ∧
        (b.actionForNewObject bucket_key).1 = [setAction f key_set session] ∧
        Prepared f key_set session (b.actionForNewObject bucket_key).2 []) ∨
      ((coverPolicy key_set).full () (l ++ [bucket_key.key_]) = false ∧
        (b.actionForNewObject bucket_key).1 = [] ∧
        Prepared f key_set session (b.actionForNewObject bucket_key).2 (l ++ [bucket_key.key_]))) := by
  have hlen := h.length_eq_iff hkey
  rw [← coverPolicy_full_iff, ← hs] at hlen
  unfold BySetTrigger.actionForNewObject
  rw [h.keys, if_pos hkey]
  dsimp only
  split
  case isTrue heq =>
    refine .inl ⟨hlen.mp heq, by rw [h.function, hs, setAction], ?_⟩
    exact of_lookup_none h.function rfl (by rw [hs]; exact AList.lookup_erase _ _)
  case isFalse hne =>
    refine .inr ⟨Bool.eq_false_iff.mpr (mt hlen.mpr hne), rfl, h.function, rfl, ?_, ?_⟩
    · intro key
      rw [BySetTrigger.prepared, hs, AList.lookup_insert, Option.getD_some, UnorderedSet.mem_insert,
        h.mem_iff, List.mem_append, List.mem_singleton, or_comm]
    · intro key hk
      rcases List.mem_append.mp hk with hk | hk
      · exact h.subset key hk
      · rwa [List.mem_singleton.mp hk]

/-- A key arrives for another session, or one that is not in the set. -/
theorem other (h : Prepared f key_set session b l) (bucket_key : BucketKey)
    (hother : ¬ (bucket_key.session_ = session ∧ bucket_key.key_ ∈ key_set)) :
    (b.actionForNewObject bucket_key).1.filter (ofSession session) = [] ∧
      Prepared f key_set session (b.actionForNewObject bucket_key).2 l := by
  unfold BySetTrigger.actionForNewObject
  rw [h.keys]
  split
  case isTrue hkey =>
    have hs : session ≠ bucket_key.session_ := fun heq => hother ⟨heq.symm, hkey⟩
    dsimp only
    split
    case isTrue =>
      refine ⟨?_, h.of_lookup_eq rfl h.keys.symm (AList.lookup_erase_ne hs)⟩
      have hnot : ofSession session (setAction b.target_function_ key_set bucket_key.session_) ≠ true :=
        mt (ofSession_setAction hkey).mp (Ne.symm hs)
      exact List.filter_cons_of_neg hnot
    case isFalse => exact ⟨rfl, h.of_lookup_eq rfl h.keys.symm (AList.lookup_insert_ne hs)⟩
  case isFalse => exact ⟨rfl, h⟩

end Prepared

theorem bySet_implements (f : Bytes) (key_set : UnorderedSet Bytes) (session : Bytes) :
    Implements step (coverPolicy key_set) (Call.keyArrival key_set session) (ofSession session)
      (fun _ actions => actions = [setAction f key_set session])
      (fun t a => ∃ b, t = bySet b ∧ Prepared f key_set session b a.2) := by
  constructor
  · rintro _ a call ⟨b, rfl, h⟩ hv
    cases call with
    | newObject bucket_key now =>
      have hother : ¬ (bucket_key.session_ = session ∧ bucket_key.key_ ∈ key_set) := by
        intro hand
        simp [Call.keyArrival, hand] at hv
      obtain ⟨hout, h'⟩ := h.other bucket_key hother
      exact ⟨hout, _, rfl, h'⟩
    | clear s =>
      have hs : session ≠ s := by
        rintro rfl
        simp [Call.keyArrival] at hv
      exact ⟨rfl, _, rfl, h.of_lookup_eq rfl rfl (AList.lookup_erase_ne hs)⟩
    | notify func_name session_id func_args arg_flag =>
      refine ⟨rfl, _, rfl, ?_⟩
      unfold BySetTrigger.notifySourceFunc
      split
      · exact h
      · exact h.of_lookup_eq rfl rfl rfl
    | setRerunMetadata => exact ⟨rfl, _, rfl, h.of_lookup_eq rfl rfl rfl⟩
  · rintro _ a call v ⟨b, rfl, h⟩ hv
    cases call with
    | newObject bucket_key now =>
      simp only [Call.keyArrival] at hv
      split at hv
      case isFalse => simp at hv
      case isTrue hand =>
        obtain rfl := Option.some.inj hv
        rcases h.arrival bucket_key hand.1 hand.2 with ⟨hfull, hout, h'⟩ | ⟨hfull, hout, h'⟩
        · have hmine : ofSession session (setAction f key_set session) = true :=
            (ofSession_setAction hand.2).mpr rfl
          simp only [Policy.step, hfull, if_true]
          refine ⟨⟨_, rfl, h'⟩, by simp, fun _ _ => ?_⟩
          change List.filter _ (b.actionForNewObject bucket_key).1 = _
          rw [hout, List.filter_cons_of_pos hmine, List.filter_nil]
        · simp only [Policy.step, hfull, Bool.false_eq_true, if_false]
          refine ⟨⟨_, rfl, h'⟩, fun _ => ?_, by simp⟩
          change List.filter _ (b.actionForNewObject bucket_key).1 = _
          rw [hout, List.filter_nil]
    | clear s =>
      simp only [Call.keyArrival] at hv
      split at hv
      case isFalse => simp at hv
      case isTrue hs =>
        obtain rfl := Option.some.inj hv
        subst hs
        refine ⟨⟨_, rfl, ?_⟩, fun _ => rfl, by simp [Policy.step]⟩
        exact .of_lookup_none h.function h.keys (AList.lookup_erase _ _)
    | notify => simp [Call.keyArrival] at hv
    | setRerunMetadata => simp [Call.keyArrival] at hv

theorem bySet_actions (f name : Bytes) (key_set : UnorderedSet Bytes) (calls : List Call) :
    ∀ action ∈ (Trigger.run (bySet { target_function_ := f, trigger_name_ := name, key_set_ := key_set })
      calls).1, ∃ session, action = setAction f key_set session := by
  refine (outputs_invariant
    (J := fun t => ∃ b, t = bySet b ∧ b.target_function_ = f ∧ b.key_set_ = key_set) ?_
    ⟨_, rfl, rfl, rfl⟩ calls).2
  rintro _ call ⟨b, rfl, hf, hk⟩
  cases call with
  | newObject bucket_key now =>
    simp only [step, actionForNewObject, BySetTrigger.actionForNewObject]
    split
    · split
      · refine ⟨⟨_, rfl, hf, hk⟩, fun action h => ⟨bucket_key.session_, ?_⟩⟩
        rw [hf, hk] at h
        exact List.mem_singleton.mp h
      · exact ⟨⟨_, rfl, hf, hk⟩, by simp⟩
    · exact ⟨⟨_, rfl, hf, hk⟩, by simp⟩
  | clear => exact ⟨⟨_, rfl, hf, hk⟩, by simp [step]⟩
  | notify func_name session_id func_args arg_flag =>
    refine ⟨⟨_, rfl, ?_⟩, by simp [step]⟩
    unfold BySetTrigger.notifySourceFunc
    split <;> exact ⟨hf, hk⟩
  | setRerunMetadata => exact ⟨⟨_, rfl, hf, hk⟩, by simp [step]⟩

/-- A session's function is run each time its keys have become complete, and only then; every action is
for one session. Calls of `clear` for the session start it anew, and nothing else that happens to the
trigger matters to it. -/
theorem sets_exact (f name : Bytes) (key_set : UnorderedSet Bytes) (hne : key_set.elems ≠ [])
    (calls : List Call) :
    let actions := (Trigger.run
      (bySet { target_function_ := f, trigger_name_ := name, key_set_ := key_set }) calls).1
    (∀ action ∈ actions, ∃ session, action = setAction f key_set session) ∧
    ∀ session, ∃ cuts : List (List (List Bytes) × List Bytes),
      Event.parts (calls.filterMap (Call.keyArrival key_set session)) =
        cuts.map (fun cut => cut.1.flatten ++ cut.2) ∧
      (∀ cut ∈ cuts,
        (∀ b ∈ cut.1, (∀ key ∈ key_set, key ∈ b) ∧ ∃ key ∈ key_set, key ∉ b.dropLast) ∧
          ∃ key ∈ key_set, key ∉ cut.2) ∧
      actions.filter (ofSession session) =
        (cuts.flatMap Prod.fst).map fun _ => setAction f key_set session := by
  intro actions
  refine ⟨bySet_actions f name key_set calls, fun session => ?_⟩
  obtain ⟨cuts, ⟨hparts, hfollows⟩, hrun⟩ :=
    (bySet_implements f key_set session).exists_cuts_map (m := ())
      (s := bySet { target_function_ := f, trigger_name_ := name, key_set_ := key_set })
      ⟨_, rfl, .of_lookup_none rfl rfl rfl⟩ calls
  refine ⟨cuts, hparts, fun cut hcut => ⟨fun b hb => ?_, ?_⟩, hrun⟩
  · obtain ⟨_, h⟩ := (hfollows.of_mem cut hcut).1 b hb
    exact ⟨coverPolicy_full_iff.mp h.2.1, coverPolicy_missing hne h.neverFull_dropLast⟩
  · obtain ⟨_, h⟩ := (hfollows.of_mem cut hcut).2
    exact coverPolicy_missing hne h

/-- The keys `a` and `b`. -/
def sampleKeys : UnorderedSet Bytes := ⟨[[97], [98]], by decide⟩

/-- Session 7 gets both keys, session 8 only one of them. -/
def sampleKeyCalls : List Call :=
  [.newObject ⟨[], [97], [7]⟩ 0, .newObject ⟨[], [97], [8]⟩ 0, .newObject ⟨[], [98], [7]⟩ 0]

theorem sets_exact_sample :
    sampleKeys.elems ≠ [] ∧
      (∀ action ∈ (Trigger.run (bySet ⟨[1], [2], sampleKeys, ∅, ∅, ∅⟩) sampleKeyCalls).1,
        ∃ session, action = setAction [1] sampleKeys session) ∧
      ∀ session, ∃ cuts : List (List (List Bytes) × List Bytes),
        Event.parts (sampleKeyCalls.filterMap (Call.keyArrival sampleKeys session)) =
          cuts.map (fun cut => cut.1.flatten ++ cut.2) ∧
        (∀ cut ∈ cuts,
          (∀ b ∈ cut.1, (∀ key ∈ sampleKeys, key ∈ b) ∧ ∃ key ∈ sampleKeys, key ∉ b.dropLast) ∧
            ∃ key ∈ sampleKeys, key ∉ cut.2) ∧
        (Trigger.run (bySet ⟨[1], [2], sampleKeys, ∅, ∅, ∅⟩) sampleKeyCalls).1.filter (ofSession session) =
          (cuts.flatMap Prod.fst).map fun _ => setAction [1] sampleKeys session :=
  ⟨by decide, sets_exact [1] [2] sampleKeys (by decide) sampleKeyCalls⟩

end Pheromone
