import Fuyao.Batching.Proofs.BatchingProofs
import Fuyao.Cpp.Proofs.ContainersProofs
import Fuyao.Pheromone.Primitives
import Fuyao.Protobuf.Proofs.MessageProofs
import Fuyao.Protobuf.Proofs.WireProofs
import Mathlib.Data.List.TakeWhile

/-!
# Proofs: triggers that are sent as primitives

A trigger that is made from the primitive of another one has its parameters, except that a set of keys
may be in another order. Triggers that differ in this way only do the same on all calls
(`Trigger.Alike`), so the new trigger acts as the other one did when it was new.
-/

namespace Pheromone

open Cpp Protobuf

variable {rt : Runtime}

/-! ## Primitives are read back -/

theorem ImmediatePrimitive.parse_write {m : ImmediatePrimitive} (h : (m.write rt).length < 2 ^ 31)
    (hfunction : rt.isValidUtf8 m.function = true) :
    parse rt (read rt) ⟨[]⟩ (rt.serializeToString (m.write rt)) = m := by
  have hm : Carries rt (read rt) ⟨[]⟩ (m.write rt) m :=
    Carries.string ImmediatePrimitive.mk 10 (by decide) (fun _ => rfl) h hfunction
  exact hm.parse_eq h

theorem ByNamePrimitive.parse_write {m : ByNamePrimitive} (h : (m.write rt).length < 2 ^ 31)
    (hfunction : rt.isValidUtf8 m.function = true) (hkey : rt.isValidUtf8 m.key_name = true) :
    parse rt (read rt) ⟨[], []⟩ (rt.serializeToString (m.write rt)) = m := by
  have hlen := h
  rw [write, List.length_append] at hlen
  have hm : Carries rt (read rt) ⟨[], []⟩ (m.write rt) m :=
    (Carries.string (ByNamePrimitive.mk · []) 10 (by decide) (fun _ => rfl)
      (by omega) hfunction).append
    (Carries.string (ByNamePrimitive.mk m.function ·) 18 (by decide) (fun _ => rfl)
      (by omega) hkey)
  exact hm.parse_eq h

theorem NumberPrimitive.parse_write {m : NumberPrimitive} (h : (m.write rt).length < 2 ^ 31)
    (hfunction : rt.isValidUtf8 m.function = true) :
    parse rt (read rt) ⟨[], 0⟩ (rt.serializeToString (m.write rt)) = m := by
  have hlen := h
  rw [write, List.length_append] at hlen
  have hm : Carries rt (read rt) ⟨[], 0⟩ (m.write rt) m :=
    (Carries.string (NumberPrimitive.mk · 0) 10 (by decide) (fun _ => rfl)
      (by omega) hfunction).append
    (Carries.uint32 (NumberPrimitive.mk m.function ·) 16 (by decide) fun _ => rfl)
  exact hm.parse_eq h

theorem KeysPrimitive.parse_write {m : KeysPrimitive} (h : (m.write rt).length < 2 ^ 31)
    (hfunction : rt.isValidUtf8 m.function = true) (hkeys : ∀ key ∈ m.keys, rt.isValidUtf8 key = true) :
    parse rt (read rt) ⟨[], []⟩ (rt.serializeToString (m.write rt)) = m := by
  have hlen := h
  rw [write, List.length_append] at hlen
  have hm : Carries rt (read rt) ⟨[], []⟩ (m.write rt) m :=
    (Carries.string (KeysPrimitive.mk · []) 10 (by decide) (fun _ => rfl)
      (by omega) hfunction).append
    (Carries.repeatedStrings (KeysPrimitive.mk m.function ·) 18 (by decide)
      (fun _ _ => rfl) (by omega) hkeys)
  exact hm.parse_eq h

theorem RedundantPrimitive.parse_write {m : RedundantPrimitive} (h : (m.write rt).length < 2 ^ 31)
    (hfunction : rt.isValidUtf8 m.function = true) :
    parse rt (read rt) ⟨[], 0, 0⟩ (rt.serializeToString (m.write rt)) = m := by
  have hlen := h
  rw [write, List.length_append, List.length_append] at hlen
  have hm : Carries rt (read rt) ⟨[], 0, 0⟩ (m.write rt) m :=
    ((Carries.string (RedundantPrimitive.mk · 0 0) 10 (by decide) (fun _ => rfl)
      (by omega) hfunction).append
    (Carries.uint32 (RedundantPrimitive.mk m.function · 0) 16 (by decide) fun _ => rfl)).append
    (Carries.uint32 (RedundantPrimitive.mk m.function m.k ·) 24 (by decide) fun _ => rfl)
  exact hm.parse_eq h

/-! ## Triggers that differ in the order of their keys -/

theorem foldl_insert_perm (s : UnorderedSet Bytes) :
    s.elems.Perm (s.elems.foldl UnorderedSet.insert ∅).elems := by
  refine (List.perm_ext_iff_of_nodup s.nodup (UnorderedSet.nodup _)).mpr fun x => ?_
  exact (UnorderedSet.mem_insertAll.trans (or_iff_left (UnorderedSet.notMem_empty x))).symm

/-- The same trigger, with its keys in any order. -/
inductive Trigger.Alike : Trigger → Trigger → Prop where
  | refl (t : Trigger) : Alike t t
  | bySet (t : BySetTrigger) (keys : UnorderedSet Bytes) (h : t.key_set_.elems.Perm keys.elems) :
    Alike (.bySet t) (.bySet { t with key_set_ := keys })
  | dynamicGroup (t : DynamicGroupTrigger) (keys : UnorderedSet Bytes)
    (h : t.control_group_.elems.Perm keys.elems) :
    Alike (.dynamicGroup t) (.dynamicGroup { t with control_group_ := keys })

theorem TriggerAction.Alike.refl (a : TriggerAction) : a.Alike a := ⟨rfl, .refl _⟩

theorem BySetTrigger.alike_actionForNewObject (t : BySetTrigger) {keys : UnorderedSet Bytes}
    (h : t.key_set_.elems.Perm keys.elems) (bucket_key : BucketKey) :
    List.Forall₂ TriggerAction.Alike (t.actionForNewObject bucket_key).1
        (actionForNewObject { t with key_set_ := keys } bucket_key).1 ∧
      (actionForNewObject { t with key_set_ := keys } bucket_key).2 =
        { (t.actionForNewObject bucket_key).2 with key_set_ := keys } ∧
      (t.actionForNewObject bucket_key).2.key_set_ = t.key_set_ := by
  have hmem : bucket_key.key_ ∈ keys ↔ bucket_key.key_ ∈ t.key_set_ := h.mem_iff.symm
  unfold actionForNewObject
  dsimp only [prepared]
  rw [← h.length_eq]
  simp only [hmem]
  split
  · split
    · exact ⟨.cons ⟨rfl, h.map _⟩ .nil, rfl, rfl⟩
    · exact ⟨.nil, rfl, rfl⟩
  · exact ⟨.nil, rfl, rfl⟩

theorem DynamicGroupTrigger.alike_actionForNewObject (t : DynamicGroupTrigger) {keys : UnorderedSet Bytes}
    (h : t.control_group_.elems.Perm keys.elems) (bucket_key : BucketKey) :
    (actionForNewObject { t with control_group_ := keys } bucket_key).1 =
        (t.actionForNewObject bucket_key).1 ∧
      (actionForNewObject { t with control_group_ := keys } bucket_key).2 =
        { (t.actionForNewObject bucket_key).2 with control_group_ := keys } ∧
      (t.actionForNewObject bucket_key).2.control_group_ = t.control_group_ := by
  have hmem : bucket_key.key_ ∈ keys ↔ bucket_key.key_ ∈ t.control_group_ := h.mem_iff.symm
  have hcontrol : controlKeys { t with control_group_ := keys } bucket_key.key_ =
      t.controlKeys bucket_key.key_ := by
    simp only [controlKeys, hmem]
  unfold actionForNewObject
  dsimp only
  rw [← h.length_eq, hcontrol]
  split
  · split
    · exact ⟨rfl, rfl, rfl⟩
    · exact ⟨rfl, rfl, rfl⟩
  · exact ⟨rfl, rfl, rfl⟩

namespace Trigger

theorem Alike.step {t t' : Trigger} (h : Alike t t') (call : Call) :
    List.Forall₂ TriggerAction.Alike (t.step call).1 (t'.step call).1 ∧
      Alike (t.step call).2 (t'.step call).2 := by
  cases h with
  | refl => exact ⟨List.forall₂_same.mpr fun a _ => .refl a, .refl _⟩
  | bySet t keys h =>
    cases call with
    | newObject bucket_key now =>
      obtain ⟨hout, hnext, hkeys⟩ := t.alike_actionForNewObject h bucket_key
      refine ⟨hout, ?_⟩
      change Alike (.bySet (t.actionForNewObject bucket_key).2)
        (.bySet (BySetTrigger.actionForNewObject { t with key_set_ := keys } bucket_key).2)
      rw [hnext]
      exact .bySet _ keys (by rw [hkeys]; exact h)
    | notify func_name session_id func_args arg_flag =>
      refine ⟨.nil, ?_⟩
      change Alike (.bySet (t.notifySourceFunc func_name session_id func_args arg_flag))
        (.bySet (BySetTrigger.notifySourceFunc { t with key_set_ := keys } func_name session_id func_args
          arg_flag))
      unfold BySetTrigger.notifySourceFunc
      dsimp only
      split
      · exact .bySet _ keys h
      · exact .bySet _ keys h
    | setRerunMetadata rerun_metadata => exact ⟨.nil, .bySet _ keys h⟩
    | clear session => exact ⟨.nil, .bySet _ keys h⟩
  | dynamicGroup t keys h =>
    cases call with
    | newObject bucket_key now =>
      obtain ⟨hout, hnext, hkeys⟩ := t.alike_actionForNewObject h bucket_key
      constructor
      · change List.Forall₂ _ (t.actionForNewObject bucket_key).1
          (DynamicGroupTrigger.actionForNewObject { t with control_group_ := keys } bucket_key).1
        rw [hout]
        exact List.forall₂_same.mpr fun a _ => .refl a
      · change Alike (.dynamicGroup (t.actionForNewObject bucket_key).2)
          (.dynamicGroup (DynamicGroupTrigger.actionForNewObject { t with control_group_ := keys } bucket_key).2)
        rw [hnext]
        exact .dynamicGroup _ keys (by rw [hkeys]; exact h)
    | notify func_name session_id func_args arg_flag => exact ⟨.nil, .dynamicGroup _ keys h⟩
    | setRerunMetadata rerun_metadata => exact ⟨.nil, .dynamicGroup _ keys h⟩
    | clear session => exact ⟨.nil, .dynamicGroup _ keys h⟩

theorem Alike.actionForRerun {t t' : Trigger} (h : Alike t t') (session_id : Bytes) :
    (t.actionForRerun session_id).Perm (t'.actionForRerun session_id) := by
  cases h with
  | refl => exact .refl _
  | bySet t keys h =>
    change (t.actionForRerun session_id).Perm
      (BySetTrigger.actionForRerun { t with key_set_ := keys } session_id)
    unfold BySetTrigger.actionForRerun
    dsimp only
    split
    · exact .refl _
    · exact h.filterMap _
  | dynamicGroup t keys h => exact .refl _

/-- The trigger that is made from the primitive of a trigger. -/
theorem exists_genTriggerPointer {t : Trigger} (hlen : (t.primitive rt).length < 2 ^ 31)
    (hnames : ∀ name ∈ t.names, rt.isValidUtf8 name = true) (now : ℤ) :
    ∃ t', genTriggerPointer rt t.type t.triggerName (t.dumpPritimive rt) now = some t' ∧
      Alike (t.fresh now) t' := by
  rw [dumpPritimive]
  cases t with
  | immediate t =>
    rw [names, List.forall_mem_singleton] at hnames
    refine ⟨_, rfl, ?_⟩
    simp only [primitive, ImmediatePrimitive.parse_write hlen hnames]
    exact .refl _
  | byName t =>
    rw [names, List.forall_mem_cons, List.forall_mem_singleton] at hnames
    refine ⟨_, rfl, ?_⟩
    simp only [primitive, ByNamePrimitive.parse_write hlen hnames.1 hnames.2]
    exact .refl _
  | byBatchSize t =>
    rw [names, List.forall_mem_singleton] at hnames
    refine ⟨_, rfl, ?_⟩
    simp only [primitive, NumberPrimitive.parse_write hlen hnames]
    exact .refl _
  | bySet t =>
    rw [names, List.forall_mem_cons] at hnames
    refine ⟨_, rfl, ?_⟩
    simp only [primitive, KeysPrimitive.parse_write hlen hnames.1 hnames.2]
    exact .bySet _ _ (foldl_insert_perm t.key_set_)
  | dynamicGroup t =>
    rw [names, List.forall_mem_cons] at hnames
    refine ⟨_, rfl, ?_⟩
    simp only [primitive, KeysPrimitive.parse_write hlen hnames.1 hnames.2]
    exact .dynamicGroup _ _ (foldl_insert_perm t.control_group_)
  | redundant t =>
    rw [names, List.forall_mem_singleton] at hnames
    refine ⟨_, rfl, ?_⟩
    simp only [primitive, RedundantPrimitive.parse_write hlen hnames]
    exact .refl _
  | byTime t =>
    rw [names, List.forall_mem_singleton] at hnames
    refine ⟨_, rfl, ?_⟩
    simp only [primitive, NumberPrimitive.parse_write hlen hnames]
    exact .refl _

end Trigger

theorem sent_triggers_act_alike (rt : Runtime) (t : Trigger) (hlen : (t.primitive rt).length < 2 ^ 31)
    (hnames : ∀ name ∈ t.names, rt.isValidUtf8 name = true) (now : ℤ) :
    ∃ t', genTriggerPointer rt t.type t.triggerName (t.dumpPritimive rt) now = some t' ∧
      ∀ calls, List.Forall₂ TriggerAction.Alike ((t.fresh now).run calls).1 (t'.run calls).1 ∧
        ∀ session, (((t.fresh now).run calls).2.actionForRerun session).Perm
          ((t'.run calls).2.actionForRerun session) := by
  obtain ⟨t', hgen, halike⟩ := Trigger.exists_genTriggerPointer hlen hnames now
  refine ⟨t', hgen, fun calls => ?_⟩
  obtain ⟨houts, hend⟩ := Batching.outputs_related (R := Trigger.Alike)
    (fun _ _ call h => h.step call) halike calls
  exact ⟨houts, hend.actionForRerun⟩

/-- A trigger for two keys. -/
def sampleTrigger : Trigger :=
  .bySet ⟨ascii "merge", ascii "both", ⟨[ascii "left", ascii "right"], by decide⟩, ∅, ∅, ∅⟩

theorem sent_triggers_act_alike_sample :
    (sampleTrigger.primitive .ascii).length < 2 ^ 31 ∧
      ∃ t', genTriggerPointer .ascii .bySet (ascii "both") (sampleTrigger.dumpPritimive .ascii) 0 = some t' ∧
        ∀ calls, List.Forall₂ TriggerAction.Alike ((sampleTrigger.fresh 0).run calls).1 (t'.run calls).1 ∧
          ∀ session, (((sampleTrigger.fresh 0).run calls).2.actionForRerun session).Perm
            ((t'.run calls).2.actionForRerun session) :=
  ⟨by decide, sent_triggers_act_alike .ascii sampleTrigger (by decide) (by decide) 0⟩

/-! ## The words of a string -/

theorem words_dropWhile (s : Bytes) : words (s.dropWhile (· == 32)) = words s := by
  induction s with
  | nil => rfl
  | cons b s ih =>
    by_cases hb : b = 32
    · subst hb
      rw [List.dropWhile_cons_of_pos rfl, ih, words, words, List.splitOn_cons_eq_if_modifyHead, beq_self_eq_true,
        if_pos rfl]
      rfl
    · rw [List.dropWhile_cons_of_neg (by simpa using hb)]

theorem notMem_takeWhile (s : Bytes) : 32 ∉ s.takeWhile (· != 32) := fun h => by
  simpa using List.mem_takeWhile_imp h

/-- The words of a string that starts with one. -/
theorem words_eq_cons {s : Bytes} (h : s.takeWhile (· != 32) ≠ []) :
    words s = s.takeWhile (· != 32) :: words ((s.dropWhile (· != 32)).drop 1) := by
  have hfilter (l : List Bytes) : ((s.takeWhile (· != 32) :: l).filter fun word => !word.isEmpty) =
      s.takeWhile (· != 32) :: l.filter fun word => !word.isEmpty :=
    List.filter_cons_of_pos (by simpa using h)
  have hs := s.takeWhile_append_dropWhile (p := (· != (32 : UInt8)))
  cases hrest : s.dropWhile (· != 32) with
  | nil =>
    rw [hrest, List.append_nil] at hs
    have hsplit : s.splitOn 32 = [s.takeWhile (· != 32)] := by
      rw [hs]
      exact List.splitOn_eq_singleton (hs ▸ notMem_takeWhile s)
    rw [words, hsplit, hfilter]
    rfl
  | cons b rest =>
    have hb : b = 32 := by
      have := List.head?_dropWhile_not (· != (32 : UInt8)) s
      rw [hrest] at this
      simpa using this
    subst hb
    have hsplit : s.splitOn 32 = s.takeWhile (· != 32) :: rest.splitOn 32 := by
      conv => lhs; rw [← hs, hrest]
      exact List.splitOn_append_cons_self_of_not_mem (notMem_takeWhile s) rest
    rw [words, hsplit, hfilter]
    rfl

theorem strtokWords_eq {fuel : ℕ} {s : Bytes} (h : s.length < fuel) : strtokWords fuel s = words s := by
  induction fuel generalizing s with
  | zero => exact absurd h (Nat.not_lt_zero _)
  | succ fuel ih =>
    rw [← words_dropWhile, strtokWords, strtok]
    have hlen := List.length_dropWhile_le (· == (32 : UInt8)) s
    generalize hrest : s.dropWhile (· == 32) = rest at hlen
    cases rest with
    | nil => rfl
    | cons b rest =>
      have hb : (b != 32) = true := by
        have := List.head?_dropWhile_not (· == (32 : UInt8)) s
        rw [hrest] at this
        simpa using this
      have hword : (b :: rest).takeWhile (· != 32) ≠ [] := by
        rw [List.takeWhile_cons, if_pos hb]
        exact List.cons_ne_nil _ _
      rw [words_eq_cons hword]
      have hdrop := List.length_dropWhile_le (· != (32 : UInt8)) (b :: rest)
      rw [List.isEmpty_cons, if_neg Bool.false_ne_true]
      dsimp only
      rw [ih]
      rw [List.length_drop]
      rw [List.length_cons] at hlen hdrop
      omega

/-! ## Triggers that a client adds -/

theorem client_key_sets_act_alike (rt : Runtime) (trigger_name : Bytes) (primitive : UnorderedMap Bytes Bytes)
    {f text : Bytes} (hf : primitive.lookup (ascii "function") = some f)
    (htext : primitive.lookup (ascii "key_name") = some text)
    (hlen : (KeysPrimitive.write rt ⟨f, words (cStr text)⟩).length < 2 ^ 31)
    (hvalid : rt.isValidUtf8 f = true ∧ ∀ key ∈ words (cStr text), rt.isValidUtf8 key = true) (now : ℤ) :
    ∃ t, genTriggerPointer rt .bySet trigger_name (addTriggerPrimitive rt .bySet primitive) now = some t ∧
      ∀ keys : UnorderedSet Bytes, (∀ key, key ∈ keys ↔ key ∈ words (cStr text)) → ∀ calls,
        List.Forall₂ TriggerAction.Alike ((Trigger.bySet ⟨f, trigger_name, keys, ∅, ∅, ∅⟩).run calls).1
          (t.run calls).1 := by
  have hsent : addTriggerPrimitive rt .bySet primitive =
      rt.serializeToString (KeysPrimitive.write rt ⟨f, words (cStr text)⟩) := by
    rw [addTriggerPrimitive, hf, htext]
    dsimp only [Option.getD_some]
    rw [strtokWords_eq (Nat.lt_succ_self _)]
  rw [hsent]
  refine ⟨_, rfl, fun keys hkeys calls => ?_⟩
  simp only [KeysPrimitive.parse_write hlen hvalid.1 hvalid.2]
  have hperm : keys.elems.Perm ((words (cStr text)).foldl UnorderedSet.insert ∅).elems := by
    refine (List.perm_ext_iff_of_nodup keys.nodup (UnorderedSet.nodup _)).mpr fun key => ?_
    refine (hkeys key).trans (Iff.symm ?_)
    exact UnorderedSet.mem_insertAll.trans (or_iff_left (UnorderedSet.notMem_empty key))
  exact (Batching.outputs_related (R := Trigger.Alike) (fun _ _ call h => h.step call)
    (.bySet ⟨f, trigger_name, keys, ∅, ∅, ∅⟩ _ hperm) calls).1

/-- What a client gives for a trigger with two keys. -/
def samplePrimitive : UnorderedMap Bytes Bytes :=
  AList.insert (ascii "key_name") (ascii " left  right") (AList.insert (ascii "function") (ascii "merge") ∅)

theorem client_key_sets_act_alike_sample :
    words (cStr (ascii " left  right")) = [ascii "left", ascii "right"] ∧
      ∃ t, genTriggerPointer .ascii .bySet (ascii "both") (addTriggerPrimitive .ascii .bySet samplePrimitive) 0 =
          some t ∧
        ∀ keys : UnorderedSet Bytes, (∀ key, key ∈ keys ↔ key ∈ words (cStr (ascii " left  right"))) →
          ∀ calls, List.Forall₂ TriggerAction.Alike
            ((Trigger.bySet ⟨ascii "merge", ascii "both", keys, ∅, ∅, ∅⟩).run calls).1 (t.run calls).1 :=
  ⟨by decide, client_key_sets_act_alike .ascii (ascii "both") samplePrimitive rfl rfl (by decide)
    ⟨by decide, by decide⟩ 0⟩

namespace Trigger

theorem actionForNewObject_targetFunction (t : Trigger) (bucket_key : BucketKey) (now : ℤ) :
    (t.actionForNewObject bucket_key now).2.targetFunction = t.targetFunction ∧
      ∀ a ∈ (t.actionForNewObject bucket_key now).1, a.function_ = t.targetFunction := by
  cases t with
  | immediate t => exact ⟨rfl, fun a ha => by rw [List.mem_singleton.mp ha]; rfl⟩
  | byName t =>
    refine ⟨rfl, fun a ha => ?_⟩
    change a ∈ (t.actionForNewObject bucket_key).1 at ha
    unfold ByNameTrigger.actionForNewObject at ha
    dsimp only at ha
    split at ha
    · rw [List.mem_singleton.mp ha]
      rfl
    · exact absurd ha List.not_mem_nil
  | byBatchSize t =>
    change (t.actionForNewObject bucket_key).2.target_function_ = _ ∧
      ∀ a ∈ (t.actionForNewObject bucket_key).1, _
    unfold ByBatchSizeTrigger.actionForNewObject
    dsimp only
    split
    · exact ⟨rfl, fun a ha => by rw [List.mem_singleton.mp ha]; rfl⟩
    · exact ⟨rfl, fun a ha => absurd ha List.not_mem_nil⟩
  | bySet t =>
    change (t.actionForNewObject bucket_key).2.target_function_ = _ ∧
      ∀ a ∈ (t.actionForNewObject bucket_key).1, _
    unfold BySetTrigger.actionForNewObject
    dsimp only
    split
    · split
      · exact ⟨rfl, fun a ha => by rw [List.mem_singleton.mp ha]; rfl⟩
      · exact ⟨rfl, fun a ha => absurd ha List.not_mem_nil⟩
    · exact ⟨rfl, fun a ha => absurd ha List.not_mem_nil⟩
  | dynamicGroup t =>
    change (t.actionForNewObject bucket_key).2.target_function_ = _ ∧
      ∀ a ∈ (t.actionForNewObject bucket_key).1, _
    unfold DynamicGroupTrigger.actionForNewObject
    dsimp only
    split
    · split
      · refine ⟨rfl, fun a ha => ?_⟩
        obtain ⟨group, -, rfl⟩ := List.mem_map.mp ha
        rfl
      · exact ⟨rfl, fun a ha => absurd ha List.not_mem_nil⟩
    · exact ⟨rfl, fun a ha => absurd ha List.not_mem_nil⟩
  | redundant t =>
    change (t.actionForNewObject bucket_key).2.target_function_ = _ ∧
      ∀ a ∈ (t.actionForNewObject bucket_key).1, _
    unfold RedundantTrigger.actionForNewObject
    dsimp only
    split
    · split
      · exact ⟨rfl, fun a ha => by rw [List.mem_singleton.mp ha]; rfl⟩
      · exact ⟨rfl, fun a ha => absurd ha List.not_mem_nil⟩
    · split
      · exact ⟨rfl, fun a ha => absurd ha List.not_mem_nil⟩
      · exact ⟨rfl, fun a ha => absurd ha List.not_mem_nil⟩
  | byTime t =>
    change (t.actionForNewObject bucket_key now).2.target_function_ = _ ∧
      ∀ a ∈ (t.actionForNewObject bucket_key now).1, _
    unfold ByTimeTrigger.actionForNewObject
    dsimp only
    split
    · exact ⟨rfl, fun a ha => by rw [List.mem_singleton.mp ha]; rfl⟩
    · exact ⟨rfl, fun a ha => absurd ha List.not_mem_nil⟩

/-- Every action is for the target function, which never changes. -/
theorem step_targetFunction (t : Trigger) (call : Call) :
    (t.step call).2.targetFunction = t.targetFunction ∧
      ∀ a ∈ (t.step call).1, a.function_ = t.targetFunction := by
  cases call with
  | newObject bucket_key now => exact t.actionForNewObject_targetFunction bucket_key now
  | notify func_name session_id func_args arg_flag =>
    refine ⟨?_, fun a ha => absurd ha List.not_mem_nil⟩
    cases t with
    | bySet t =>
      change (t.notifySourceFunc func_name session_id func_args arg_flag).target_function_ = _
      unfold BySetTrigger.notifySourceFunc
      split <;> rfl
    | _ => rfl
  | setRerunMetadata rerun_metadata => exact ⟨by cases t <;> rfl, fun a ha => absurd ha List.not_mem_nil⟩
  | clear session => exact ⟨by cases t <;> rfl, fun a ha => absurd ha List.not_mem_nil⟩

theorem run_targetFunction (t : Trigger) (calls : List Call) :
    ∀ a ∈ (t.run calls).1, a.function_ = t.targetFunction :=
  (Batching.outputs_invariant (J := fun t' => t'.targetFunction = t.targetFunction)
    (fun t' call h => by
      obtain ⟨hnext, hout⟩ := t'.step_targetFunction call
      exact ⟨hnext.trans h, fun a ha => (hout a ha).trans h⟩) rfl calls).2

end Trigger

theorem client_parameters_lost (rt : Runtime) (type : PrimitiveType) (h : type ≠ .immediate ∧ type ≠ .bySet)
    (primitive : UnorderedMap Bytes Bytes) :
    addTriggerPrimitive rt type primitive = [] ∧
      ∀ trigger_name now t,
        genTriggerPointer rt type trigger_name (addTriggerPrimitive rt type primitive) now = some t →
        ∀ calls, ∀ a ∈ (t.run calls).1, a.function_ = [] := by
  have hsent : addTriggerPrimitive rt type primitive = [] := by
    cases type with
    | immediate => exact absurd rfl h.1
    | bySet => exact absurd rfl h.2
    | _ => rfl
  refine ⟨hsent, ?_⟩
  intro trigger_name now t ht calls
  rw [hsent] at ht
  have hfunction : t.targetFunction = [] := by
    cases type with
    | immediate => exact absurd rfl h.1
    | bySet => exact absurd rfl h.2
    | other n => exact absurd ht (Option.some_ne_none t).symm
    | _ =>
      simp only [genTriggerPointer, parse_nil, Option.some.injEq] at ht
      rw [← ht, Trigger.targetFunction]
  rw [← hfunction]
  exact t.run_targetFunction calls

/-- The client asks for batches of two objects and gets a trigger that fires for every object. -/
theorem client_parameters_lost_sample :
    genTriggerPointer .ascii .byBatchSize (ascii "pairs")
        (addTriggerPrimitive .ascii .byBatchSize samplePrimitive) 0 =
        some (.byBatchSize ⟨[], ascii "pairs", 0, [], ∅⟩) ∧
      addTriggerPrimitive .ascii .byBatchSize samplePrimitive = [] ∧
      ∀ a ∈ (Trigger.run (.byBatchSize ⟨[], ascii "pairs", 0, [], ∅⟩)
        [.newObject ⟨[], ascii "s", ascii "k"⟩ 0]).1, a.function_ = [] := by
  obtain ⟨hsent, hlost⟩ :=
    client_parameters_lost .ascii .byBatchSize ⟨by decide, by decide⟩ samplePrimitive
  exact ⟨rfl, hsent, hlost (ascii "pairs") 0 _ rfl _⟩

end Pheromone
