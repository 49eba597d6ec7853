import Fuyao.Batching.Proofs.BatchingProofs
import Fuyao.Cpp.Proofs.ContainersProofs
import Fuyao.Pheromone.Triggers

/-!
# Proofs: which source functions are started again

Every call changes the cache of a trigger in at most one place (`sessionChange`, `keyChange`), so the cache
after a run is what the changes make of it one after another. The trigger by set keeps the functions of
all its sessions under the names of their keys; sessions of one length keep these names apart.
-/

namespace Pheromone

open Cpp Batching Trigger

theorem run_cons_snd (t : Trigger) (call : Call) (calls : List Call) :
    (t.run (call :: calls)).2 = ((t.step call).2.run calls).2 := rfl

/-- Only what is said by the calls that were made matters. -/
theorem lastWord_congr {word word' : Call → Option (Option TriggerFunctionMetadata)} {calls : List Call}
    (h : ∀ call ∈ calls, word call = word' call) : lastWord word calls = lastWord word' calls := by
  have hrev : ∀ call ∈ calls.reverse, word call = word' call := fun call hcall =>
    h call (List.mem_reverse.mp hcall)
  rw [lastWord, lastWord]
  congr 1
  generalize calls.reverse = l at hrev
  induction l with
  | nil => rfl
  | cons call l ih =>
    obtain ⟨hcall, hrest⟩ := List.forall_mem_cons.mp hrev
    rw [List.findSome?_cons, List.findSome?_cons, hcall, ih hrest]

/-- The last change decides, and the changes come from the calls. -/
theorem lookup_foldl_filterMap (change : Call → Option (Change Bytes TriggerFunctionMetadata))
    (calls : List Call) (k : Bytes) :
    ((calls.filterMap change).foldl Change.apply (∅ : StatusCache)).lookup k =
      lastWord (fun call => (change call).bind (Change.word k)) calls := by
  rw [Change.lookup_foldl_apply, lastWord, ← List.filterMap_reverse]
  congr 1
  induction calls.reverse with
  | nil => rfl
  | cons call rest ih =>
    rw [List.filterMap_cons, List.findSome?_cons, ← ih]
    cases change call <;> rfl

/-! ## Caches by session -/

/-- The cache of the triggers that keep it by sessions, and whether `clear` empties it. -/
def sessionCache : Trigger → Option (StatusCache × Bool)
  | immediate t => some (t.session_status_cache_, false)
  | byName t => some (t.session_status_cache_, false)
  | byBatchSize t => some (t.session_status_cache_, true)
  | _ => none

/-- What a call does to a cache by session. `clears` says whether the trigger clears it. -/
def sessionChange (clears : Bool) : Call → Option (Change Bytes TriggerFunctionMetadata)
  | .newObject bucket_key _ => some (.erase bucket_key.session_)
  | .notify func_name session_id func_args arg_flag =>
    some (.assign session_id ⟨func_name, func_args, arg_flag⟩)
  | .setRerunMetadata _ => none
  | .clear _ => if clears then some .clear else none

theorem word_sessionChange (clears : Bool) (session : Bytes) (call : Call) :
    (sessionChange clears call).bind (Change.word session) = call.sourceWord clears session := by
  cases call with
  | clear => cases clears <;> rfl
  | newObject => rfl
  | notify => rfl
  | setRerunMetadata => rfl

theorem sessionCache_step {t : Trigger} {cache : StatusCache} {clears : Bool}
    (h : sessionCache t = some (cache, clears)) (call : Call) :
    sessionCache (t.step call).2 =
      some ((sessionChange clears call).toList.foldl Change.apply cache, clears) := by
  cases t with
  | immediate t =>
    obtain ⟨rfl, rfl⟩ := Prod.mk.inj (Option.some.inj h)
    cases call <;> rfl
  | byName t =>
    obtain ⟨rfl, rfl⟩ := Prod.mk.inj (Option.some.inj h)
    cases call <;> rfl
  | byBatchSize t =>
    obtain ⟨rfl, rfl⟩ := Prod.mk.inj (Option.some.inj h)
    cases call with
    | newObject bucket_key now =>
      simp only [step, actionForNewObject, ByBatchSizeTrigger.actionForNewObject]
      split <;> rfl
    | notify => rfl
    | setRerunMetadata => rfl
    | clear => rfl
  | bySet => simp [sessionCache] at h
  | dynamicGroup => simp [sessionCache] at h
  | redundant => simp [sessionCache] at h
  | byTime => simp [sessionCache] at h

theorem sessionCache_run {t : Trigger} {cache : StatusCache} {clears : Bool}
    (h : sessionCache t = some (cache, clears)) (calls : List Call) :
    sessionCache (t.run calls).2 =
      some ((calls.filterMap (sessionChange clears)).foldl Change.apply cache, clears) := by
  induction calls generalizing t cache with
  | nil => exact h
  | cons call calls ih =>
    rw [run_cons_snd, ih (sessionCache_step h call), List.filterMap_cons]
    cases sessionChange clears call <;> rfl

theorem actionForRerun_eq {t : Trigger} {cache : StatusCache} {clears : Bool}
    (h : sessionCache t = some (cache, clears)) (session : Bytes) :
    t.actionForRerun session = (cache.lookup session).toList := by
  cases t with
  | immediate t =>
    obtain ⟨rfl, rfl⟩ := Prod.mk.inj (Option.some.inj h)
    rfl
  | byName t =>
    obtain ⟨rfl, rfl⟩ := Prod.mk.inj (Option.some.inj h)
    rfl
  | byBatchSize t =>
    obtain ⟨rfl, rfl⟩ := Prod.mk.inj (Option.some.inj h)
    rfl
  | bySet => simp [sessionCache] at h
  | dynamicGroup => simp [sessionCache] at h
  | redundant => simp [sessionCache] at h
  | byTime => simp [sessionCache] at h

theorem actionForRerun_run {t : Trigger} {clears : Bool} (h : sessionCache t = some (∅, clears))
    (calls : List Call) (session : Bytes) :
    (t.run calls).2.actionForRerun session = (lastWord (Call.sourceWord clears session) calls).toList := by
  rw [actionForRerun_eq (sessionCache_run h calls), lookup_foldl_filterMap]
  simp only [word_sessionChange]

/-- The function that is started again for a session is the last one that was started for it, if no
object of the session has come since. The trigger by batch size also forgets it when it is cleared. -/
theorem session_reruns_exact (f name key_name : Bytes) (count : Int32) (calls : List Call)
    (session : Bytes) :
    ((immediate { target_function_ := f, trigger_name_ := name }).run calls).2.actionForRerun session =
        (lastWord (Call.sourceWord false session) calls).toList ∧
    ((byName { target_function_ := f, trigger_name_ := name, key_name_ := key_name }).run calls
        ).2.actionForRerun session =
        (lastWord (Call.sourceWord false session) calls).toList ∧
    ((byBatchSize { target_function_ := f, trigger_name_ := name, count_ := count }).run calls
        ).2.actionForRerun session =
        (lastWord (Call.sourceWord true session) calls).toList :=
  ⟨actionForRerun_run rfl calls session, actionForRerun_run rfl calls session,
    actionForRerun_run rfl calls session⟩

/-! ## The cache of the trigger by set -/

section Keys

variable {key_set : UnorderedSet Bytes} {keyOf : Bytes → Bytes}

/-- What a call does to the cache of a trigger with keys, where `keyOf` gives the key of a function. -/
def keyChange (key_set : UnorderedSet Bytes) (keyOf : Bytes → Bytes) :
    Call → Option (Change Bytes TriggerFunctionMetadata)
  | .newObject bucket_key _ =>
    if bucket_key.key_ ∈ key_set then some (.erase (bucket_key.key_ ++ bucket_key.session_)) else none
  | .notify func_name session_id func_args arg_flag =>
    some (.assign (keyOf func_name ++ session_id) ⟨func_name, func_args, arg_flag⟩)
  | .setRerunMetadata _ => none
  | .clear session => some (.erase session)

/-- Names of keys in sessions of one length are different. -/
theorem append_eq_iff {key key' session session' : Bytes} (h : session'.length = session.length) :
    key' ++ session' = key ++ session ↔ key' = key ∧ session' = session := by
  constructor
  · intro heq
    exact List.append_inj' heq h
  · rintro ⟨rfl, rfl⟩
    rfl

theorem word_keyChange {key session : Bytes} (hkey : key ∈ key_set) {call : Call}
    (hcall : ∀ s ∈ call.session, s.length = session.length) :
    (keyChange key_set keyOf call).bind (Change.word (key ++ session)) = call.keyWord keyOf key session := by
  cases call with
  | newObject bucket_key now =>
    have hlen := hcall _ rfl
    by_cases hmem : bucket_key.key_ ∈ key_set
    · simp [keyChange, hmem, Change.word, Call.keyWord, append_eq_iff hlen]
    · have hne : bucket_key.key_ ≠ key := by
        rintro rfl
        exact hmem hkey
      simp [keyChange, hmem, Call.keyWord, hne]
  | notify func_name session_id func_args arg_flag =>
    simp [keyChange, Change.word, Call.keyWord, append_eq_iff (hcall _ rfl)]
  | setRerunMetadata => rfl
  | clear s =>
    have hiff : s = key ++ session ↔ key = [] ∧ s = session := by
      have happend : [] ++ s = key ++ session ↔ [] = key ∧ s = session := append_eq_iff (hcall s rfl)
      rwa [List.nil_append, eq_comm (a := [])] at happend
    simp [keyChange, Change.word, Call.keyWord, hiff]

/-- The trigger knows the keys of the source functions, and the changes have been made to its cache. -/
structure Knows (key_set : UnorderedSet Bytes) (keyOf : Bytes → Bytes) (cache : StatusCache)
    (t : Trigger) : Prop where
  exists_eq : ∃ b, t = bySet b ∧ b.key_set_ = key_set ∧ b.func_key_map_.entries ≠ [] ∧
    (∀ f, (b.func_key_map_.lookup f).getD [] = keyOf f) ∧ b.session_status_cache_ = cache

theorem Knows.step {cache : StatusCache} {t : Trigger} (h : Knows key_set keyOf cache t) {call : Call}
    (hcall : ∀ metas, call ≠ .setRerunMetadata metas) :
    Knows key_set keyOf ((keyChange key_set keyOf call).toList.foldl Change.apply cache)
      (t.step call).2 := by
  obtain ⟨b, rfl, rfl, hne, hkeys, rfl⟩ := h
  cases call with
  | newObject bucket_key now =>
    simp only [Trigger.step, actionForNewObject, BySetTrigger.actionForNewObject, keyChange]
    split
    · split
      · exact ⟨_, rfl, rfl, hne, hkeys, rfl⟩
      · exact ⟨_, rfl, rfl, hne, hkeys, rfl⟩
    · exact ⟨_, rfl, rfl, hne, hkeys, rfl⟩
  | notify func_name session_id func_args arg_flag =>
    have hempty : b.func_key_map_.entries.isEmpty = false := by simpa using hne
    simp only [Trigger.step, notifySourceFunc, BySetTrigger.notifySourceFunc, hempty, Bool.false_eq_true,
      if_false, hkeys]
    refine ⟨_, rfl, rfl, by simp [AList.insert, List.kinsert], fun f => ?_, rfl⟩
    by_cases hf : f = func_name
    · subst hf
      simp [AList.lookup_insert]
    · rw [AList.lookup_insert_ne hf, hkeys]
  | setRerunMetadata metas => exact absurd rfl (hcall metas)
  | clear session => exact ⟨_, rfl, rfl, hne, hkeys, rfl⟩

theorem Knows.run {cache : StatusCache} {t : Trigger} (h : Knows key_set keyOf cache t) {calls : List Call}
    (hcalls : ∀ call ∈ calls, ∀ metas, call ≠ .setRerunMetadata metas) :
    Knows key_set keyOf ((calls.filterMap (keyChange key_set keyOf)).foldl Change.apply cache)
      (t.run calls).2 := by
  induction calls generalizing t cache with
  | nil => exact h
  | cons call calls ih =>
    obtain ⟨hcall, hrest⟩ := List.forall_mem_cons.mp hcalls
    have h' := ih (h.step hcall) hrest
    rw [List.filterMap_cons]
    cases hc : keyChange key_set keyOf call with
    | none => rwa [hc] at h'
    | some change => rwa [hc] at h'

/-- The map that the metadata make has the last key that was given for each function. -/
theorem lookup_setRerunMetadata (metas : List RerunMetadata) (f : Bytes) :
    ((metas.foldl (fun m rerun => m.insert rerun.source_func_ rerun.source_key_)
      (∅ : UnorderedMap Bytes Bytes)).lookup f).getD [] = sourceKey metas f := by
  have hfold : metas.foldl (fun m rerun => m.insert rerun.source_func_ rerun.source_key_)
        (∅ : UnorderedMap Bytes Bytes) =
      (metas.map fun rerun => Change.assign rerun.source_func_ rerun.source_key_).foldl Change.apply ∅ := by
    rw [List.foldl_map]
    rfl
  rw [hfold, Change.lookup_foldl_apply, ← List.map_reverse, List.findSome?_map, sourceKey]
  induction metas.reverse with
  | nil => rfl
  | cons rerun rest ih =>
    simp only [List.findSome?_cons, Function.comp_apply, Change.word]
    by_cases h : rerun.source_func_ = f
    · simp [h]
    · simpa [h] using ih

theorem knows_setRerunMetadata (f name : Bytes) (key_set : UnorderedSet Bytes) {metas : List RerunMetadata}
    (hmetas : metas ≠ []) :
    Knows key_set (sourceKey metas) ∅
      ((bySet { target_function_ := f, trigger_name_ := name, key_set_ := key_set }).step
        (.setRerunMetadata metas)).2 := by
  refine ⟨_, rfl, rfl, ?_, lookup_setRerunMetadata metas, rfl⟩
  obtain ⟨init, last, rfl⟩ := (List.eq_nil_or_concat metas).resolve_left hmetas
  simp [BySetTrigger.setRerunMetadata, AList.insert, List.kinsert]

/-- The functions that are started again for a session are those that were started last for the keys of
the set, and whose objects have not come since; a call of `clear` does not make the trigger forget them,
unless the key is empty. -/
theorem key_reruns_exact (f name : Bytes) (key_set : UnorderedSet Bytes) (metas : List RerunMetadata)
    (hmetas : metas ≠ []) (calls : List Call)
    (hcalls : ∀ call ∈ calls, ∀ metas', call ≠ .setRerunMetadata metas') (session : Bytes)
    (hsessions : ∀ call ∈ calls, ∀ s ∈ call.session, s.length = session.length) :
    ((bySet { target_function_ := f, trigger_name_ := name, key_set_ := key_set }).run
        (.setRerunMetadata metas :: calls)).2.actionForRerun session =
      key_set.elems.filterMap fun key =>
        lastWord (Call.keyWord (sourceKey metas) key session) calls := by
  obtain ⟨b, hb, hk, hne, -, hcache⟩ := (knows_setRerunMetadata f name key_set hmetas).run hcalls
  have hempty : b.func_key_map_.entries.isEmpty = false := by simpa using hne
  rw [run_cons_snd, hb, actionForRerun, BySetTrigger.actionForRerun, hempty, if_neg Bool.false_ne_true, hk]
  refine List.filterMap_congr fun key hkey => ?_
  rw [hcache, lookup_foldl_filterMap]
  exact lastWord_congr fun call hcall => word_keyChange hkey (hsessions call hcall)

theorem key_reruns_exact_sample :
    ((bySet ⟨[1], [2], ⟨[[97], [98]], by decide⟩, ∅, ∅, ∅⟩).run
        [.setRerunMetadata [⟨[102], [97]⟩], .notify [102] [7] [] 0, .clear [7],
          .newObject ⟨[], [98], [7]⟩ 0]).2.actionForRerun [7] = [⟨[102], [], 0⟩] :=
  key_reruns_exact [1] [2] ⟨[[97], [98]], by decide⟩ [⟨[102], [97]⟩] (by simp)
    [.notify [102] [7] [] 0, .clear [7], .newObject ⟨[], [98], [7]⟩ 0] (by simp) [7] (by simp [Call.session])

end Keys

end Pheromone
