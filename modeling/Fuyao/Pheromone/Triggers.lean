import Fuyao.Batching.Batching
import Fuyao.Cpp.Containers
import Fuyao.Cpp.Strings
import Fuyao.Pheromone.BucketKey

/-!
# Triggers

A trigger watches the objects that arrive in a bucket and decides when its function is run, and on which
of them. There are seven kinds. Some of them also remember which source function has been started for a
session, so that it can be started again if its object does not arrive.

A clock reading is the number of nanoseconds of the system clock.
-/

namespace Pheromone

open Cpp

/-- `TriggerAction`: a function to be run, and the objects that it gets. -/
structure TriggerAction where
  function_ : Bytes
  /-- Pairs of a session and a key. -/
  session_keys_ : List (Bytes × Bytes)
  deriving DecidableEq

/-- `TriggerFunctionMetadata`: how a function was called that may have to be run again. -/
structure TriggerFunctionMetadata where
  func_name_ : Bytes
  func_args_ : List Bytes
  arg_flag_ : Int32
  deriving DecidableEq

/-- The fields of `RerunMetadata` that a trigger reads. -/
structure RerunMetadata where
  source_func_ : Bytes
  source_key_ : Bytes

/-- A map from sessions, or from names of keys and sessions, to source functions. -/
abbrev StatusCache := UnorderedMap Bytes TriggerFunctionMetadata

/-- `action_for_rerun` of the triggers whose cache goes by sessions. -/
def StatusCache.rerun (cache : StatusCache) (session_id : Bytes) : List TriggerFunctionMetadata :=
  (cache.lookup session_id).toList

/-! ## Immediate and by name -/

/-- A trigger that fires for every object. -/
structure ImmediateTrigger where
  target_function_ : Bytes
  trigger_name_ : Bytes
  session_status_cache_ : StatusCache := ∅

/-- `action_for_new_object`. -/
def ImmediateTrigger.actionForNewObject (t : ImmediateTrigger) (bucket_key : BucketKey) :
    List TriggerAction × ImmediateTrigger :=
  ([⟨t.target_function_, [(bucket_key.session_, bucket_key.key_)]⟩],
    { t with session_status_cache_ := t.session_status_cache_.erase bucket_key.session_ })

/-- A trigger that fires for the objects with one name. -/
structure ByNameTrigger where
  target_function_ : Bytes
  trigger_name_ : Bytes
  key_name_ : Bytes
  session_status_cache_ : StatusCache := ∅

/-- `action_for_new_object`. -/
def ByNameTrigger.actionForNewObject (t : ByNameTrigger) (bucket_key : BucketKey) :
    List TriggerAction × ByNameTrigger :=
  (if bucket_key.key_ = t.key_name_ then
      [⟨t.target_function_, [(bucket_key.session_, bucket_key.key_)]⟩] else [],
    { t with session_status_cache_ := t.session_status_cache_.erase bucket_key.session_ })

/-! ## By batch size -/

/-- A trigger that fires for every batch of objects of a given size. -/
structure ByBatchSizeTrigger where
  target_function_ : Bytes
  trigger_name_ : Bytes
  count_ : Int32
  buffer_ : List (Bytes × Bytes) := []
  session_status_cache_ : StatusCache := ∅

namespace ByBatchSizeTrigger

/-- `action_for_new_object`. -/
def actionForNewObject (t : ByBatchSizeTrigger) (bucket_key : BucketKey) :
    List TriggerAction × ByBatchSizeTrigger :=
  let buffer := t.buffer_ ++ [(bucket_key.session_, bucket_key.key_)]
  let cache := t.session_status_cache_.erase bucket_key.session_
  -- the `int` is converted to `size_t`
  if buffer.length ≥ sizeOfInt t.count_ then
    ([⟨t.target_function_, buffer⟩], { t with buffer_ := [], session_status_cache_ := cache })
  else ([], { t with buffer_ := buffer, session_status_cache_ := cache })

/-- `clear`. -/
def clear (t : ByBatchSizeTrigger) : ByBatchSizeTrigger :=
  { t with buffer_ := [], session_status_cache_ := ∅ }

end ByBatchSizeTrigger

/-! ## By set -/

/-- A trigger that fires when a session has an object for every key of a set. -/
structure BySetTrigger where
  target_function_ : Bytes
  trigger_name_ : Bytes
  key_set_ : UnorderedSet Bytes
  session_prepared_keys_map_ : UnorderedMap Bytes (UnorderedSet Bytes) := ∅
  func_key_map_ : UnorderedMap Bytes Bytes := ∅
  session_status_cache_ : StatusCache := ∅

namespace BySetTrigger

/-- `session_prepared_keys_map_[session]`. -/
def prepared (t : BySetTrigger) (session : Bytes) : UnorderedSet Bytes :=
  (t.session_prepared_keys_map_.lookup session).getD ∅

/-- `action_for_new_object`: an object of another key is ignored. -/
def actionForNewObject (t : BySetTrigger) (bucket_key : BucketKey) : List TriggerAction × BySetTrigger :=
  if bucket_key.key_ ∈ t.key_set_ then
    let keys := (t.prepared bucket_key.session_).insert bucket_key.key_
    let cache := t.session_status_cache_.erase (bucket_key.key_ ++ bucket_key.session_)
    if keys.elems.length = t.key_set_.elems.length then
      ([⟨t.target_function_, t.key_set_.elems.map fun key => (bucket_key.session_, key)⟩],
        { t with
          session_prepared_keys_map_ := t.session_prepared_keys_map_.erase bucket_key.session_
          session_status_cache_ := cache })
    else
      ([], { t with
        session_prepared_keys_map_ := t.session_prepared_keys_map_.insert bucket_key.session_ keys
        session_status_cache_ := cache })
  else ([], t)

/-- The look-up of a function that is not in the map enters it with an empty key. -/
def notifySourceFunc (t : BySetTrigger) (func_name session_id : Bytes) (func_args : List Bytes)
    (arg_flag : Int32) : BySetTrigger :=
  if t.func_key_map_.entries.isEmpty then t
  else
    let key := (t.func_key_map_.lookup func_name).getD []
    { t with
      func_key_map_ := t.func_key_map_.insert func_name key
      session_status_cache_ :=
        t.session_status_cache_.insert (key ++ session_id) ⟨func_name, func_args, arg_flag⟩ }

/-- `action_for_rerun`: the calls that should have produced the keys that are missing. -/
def actionForRerun (t : BySetTrigger) (session_id : Bytes) : List TriggerFunctionMetadata :=
  if t.func_key_map_.entries.isEmpty then []
  else t.key_set_.elems.filterMap fun key => t.session_status_cache_.lookup (key ++ session_id)

/-- `set_rerun_metadata`: which function produces which key. -/
def setRerunMetadata (t : BySetTrigger) (rerun_metadata : List RerunMetadata) : BySetTrigger :=
  { t with
    func_key_map_ :=
      rerun_metadata.foldl (fun m rerun => m.insert rerun.source_func_ rerun.source_key_) t.func_key_map_ }

/-- `clear` of a session. -/
def clear (t : BySetTrigger) (session : Bytes) : BySetTrigger :=
  { t with
    session_prepared_keys_map_ := t.session_prepared_keys_map_.erase session
    session_status_cache_ := t.session_status_cache_.erase session }

end BySetTrigger

/-! ## Dynamic groups -/

/-- A trigger that fires for all groups of objects when all control objects are there. -/
structure DynamicGroupTrigger where
  target_function_ : Bytes
  trigger_name_ : Bytes
  control_group_ : UnorderedSet Bytes
  data_group_keys_map_ : UnorderedMap Bytes (UnorderedSet Bytes) := ∅
  cur_control_keys_ : UnorderedSet Bytes := ∅

/-- The part of a key before the `group_delimiter`; all of it if there is none. -/
def groupOf (key : Bytes) : Bytes := key.takeWhile (· != 58)

/-- `control_group_prefix`. -/
def controlGroupPrefix : Bytes := ascii "ctrl"

namespace DynamicGroupTrigger

/-- `cur_control_keys_` when a key of the control group has come. -/
def controlKeys (t : DynamicGroupTrigger) (key : Bytes) : UnorderedSet Bytes :=
  if key ∈ t.control_group_ then t.cur_control_keys_.insert key else t.cur_control_keys_

/-- `action_for_new_object`: an object counts for the control group or for the group in its name. -/
def actionForNewObject (t : DynamicGroupTrigger) (bucket_key : BucketKey) :
    List TriggerAction × DynamicGroupTrigger :=
  let group := groupOf bucket_key.key_
  if group = controlGroupPrefix then
    let cur := t.controlKeys bucket_key.key_
    if cur.elems.length = t.control_group_.elems.length then
      (t.data_group_keys_map_.entries.map fun group_keys =>
          ⟨t.target_function_, group_keys.2.elems.map fun key => (bucket_key.session_, key)⟩,
        { t with data_group_keys_map_ := ∅, cur_control_keys_ := ∅ })
    else ([], { t with cur_control_keys_ := cur })
  else
    let keys := ((t.data_group_keys_map_.lookup group).getD ∅).insert bucket_key.key_
    ([], { t with data_group_keys_map_ := t.data_group_keys_map_.insert group keys })

/-- `clear`. -/
def clear (t : DynamicGroupTrigger) : DynamicGroupTrigger :=
  { t with data_group_keys_map_ := ∅, cur_control_keys_ := ∅ }

end DynamicGroupTrigger

/-! ## Redundant -/

/-- A trigger that fires for the first `k` of every `n` objects. -/
structure RedundantTrigger where
  target_function_ : Bytes
  trigger_name_ : Bytes
  k_ : UInt32
  n_ : UInt32
  count_ : UInt32 := 0
  buffer_ : List (Bytes × Bytes) := []

namespace RedundantTrigger

/-- `action_for_new_object`. -/
def actionForNewObject (t : RedundantTrigger) (bucket_key : BucketKey) :
    List TriggerAction × RedundantTrigger :=
  let count := t.count_ + 1
  if count ≤ t.k_ then
    let buffer := t.buffer_ ++ [(bucket_key.session_, bucket_key.key_)]
    if count = t.k_ then ([⟨t.target_function_, buffer⟩], { t with count_ := count, buffer_ := [] })
    else ([], { t with count_ := count, buffer_ := buffer })
  else if count ≥ t.n_ then ([], { t with count_ := 0 })
  -- the object is dropped
  else ([], { t with count_ := count })

/-- `clear`, which sets the counter forward. -/
def clear (t : RedundantTrigger) : RedundantTrigger := { t with count_ := t.count_ + t.k_, buffer_ := [] }

end RedundantTrigger

/-- After so many objects the redundant trigger starts anew. -/
def RedundantTrigger.roundLength (k n : UInt32) : ℕ := max n.toNat (k.toNat + 1)

/-! ## By time -/

/-- A trigger that fires when a time window has passed. -/
structure ByTimeTrigger where
  target_function_ : Bytes
  trigger_name_ : Bytes
  time_window_ : UInt32
  buffer_ : List (Bytes × Bytes) := []
  last_trigger_stamp_ : ℤ

namespace ByTimeTrigger

/-- `action_for_new_object`, where `cur_stamp` is what the clock shows. -/
def actionForNewObject (t : ByTimeTrigger) (bucket_key : BucketKey) (cur_stamp : ℤ) :
    List TriggerAction × ByTimeTrigger :=
  let buffer := t.buffer_ ++ [(bucket_key.session_, bucket_key.key_)]
  if millisecondsBetween t.last_trigger_stamp_ cur_stamp ≥ t.time_window_.toNat then
    ([⟨t.target_function_, buffer⟩], { t with last_trigger_stamp_ := cur_stamp, buffer_ := [] })
  else ([], { t with buffer_ := buffer })

/-- `clear`. -/
def clear (t : ByTimeTrigger) : ByTimeTrigger := { t with buffer_ := [] }

end ByTimeTrigger

/-! ## The virtual functions -/

/-- The triggers. -/
inductive Trigger where
  | immediate (t : ImmediateTrigger)
  | byName (t : ByNameTrigger)
  | byBatchSize (t : ByBatchSizeTrigger)
  | bySet (t : BySetTrigger)
  | dynamicGroup (t : DynamicGroupTrigger)
  | redundant (t : RedundantTrigger)
  | byTime (t : ByTimeTrigger)

namespace Trigger

/-- `action_for_new_object`, when the clock shows `now`. -/
def actionForNewObject (bucket_key : BucketKey) (now : ℤ) : Trigger → List TriggerAction × Trigger
  | immediate t => (t.actionForNewObject bucket_key).map id immediate
  | byName t => (t.actionForNewObject bucket_key).map id byName
  | byBatchSize t => (t.actionForNewObject bucket_key).map id byBatchSize
  | bySet t => (t.actionForNewObject bucket_key).map id bySet
  | dynamicGroup t => (t.actionForNewObject bucket_key).map id dynamicGroup
  | redundant t => (t.actionForNewObject bucket_key).map id redundant
  | byTime t => (t.actionForNewObject bucket_key now).map id byTime

/-- `notify_source_func`. -/
def notifySourceFunc (func_name session_id : Bytes) (func_args : List Bytes) (arg_flag : Int32) :
    Trigger → Trigger
  | immediate t => immediate { t with
      session_status_cache_ := t.session_status_cache_.insert session_id ⟨func_name, func_args, arg_flag⟩ }
  | byName t => byName { t with
      session_status_cache_ := t.session_status_cache_.insert session_id ⟨func_name, func_args, arg_flag⟩ }
  | byBatchSize t => byBatchSize { t with
      session_status_cache_ := t.session_status_cache_.insert session_id ⟨func_name, func_args, arg_flag⟩ }
  | bySet t => bySet (t.notifySourceFunc func_name session_id func_args arg_flag)
  | t => t

/-- `action_for_rerun`. -/
def actionForRerun (session_id : Bytes) : Trigger → List TriggerFunctionMetadata
  | immediate t => t.session_status_cache_.rerun session_id
  | byName t => t.session_status_cache_.rerun session_id
  | byBatchSize t => t.session_status_cache_.rerun session_id
  | bySet t => t.actionForRerun session_id
  | _ => []

/-- `set_rerun_metadata`. -/
def setRerunMetadata (rerun_metadata : List RerunMetadata) : Trigger → Trigger
  | bySet t => bySet (t.setRerunMetadata rerun_metadata)
  | t => t

/-- `clear`; the base class does nothing. -/
def clear (session : Bytes) : Trigger → Trigger
  | byBatchSize t => byBatchSize t.clear
  | bySet t => bySet (t.clear session)
  | dynamicGroup t => dynamicGroup t.clear
  | redundant t => redundant t.clear
  | byTime t => byTime t.clear
  | t => t

/-- A call of one of the functions that change a trigger. -/
inductive Call where
  | newObject (bucket_key : BucketKey) (now : ℤ)
  | notify (func_name session_id : Bytes) (func_args : List Bytes) (arg_flag : Int32)
  | setRerunMetadata (rerun_metadata : List RerunMetadata)
  | clear (session : Bytes)

/-- A call of the trigger: its actions, and the trigger afterwards. -/
def step (t : Trigger) : Call → List TriggerAction × Trigger
  | .newObject bucket_key now => t.actionForNewObject bucket_key now
  | .notify func_name session_id func_args arg_flag =>
    ([], t.notifySourceFunc func_name session_id func_args arg_flag)
  | .setRerunMetadata rerun_metadata => ([], t.setRerunMetadata rerun_metadata)
  | .clear session => ([], t.clear session)

/-- What a call means to a trigger that holds objects back: an object arrives, or those that are held are
given up. -/
def Call.arrival : Call → Option (Batching.Event (Bytes × Bytes))
  | newObject bucket_key _ => some (.item (bucket_key.session_, bucket_key.key_))
  | clear _ => some .drop
  | _ => none

/-- The call is a `clear`. -/
def Call.isClear : Call → Bool
  | clear _ => true
  | _ => false

/-- The objects that arrive, with their sessions. -/
def Call.objects (calls : List Call) : List (Bytes × Bytes) :=
  calls.filterMap fun call =>
    match call with
    | newObject bucket_key _ => some (bucket_key.session_, bucket_key.key_)
    | _ => none

/-- The same for one session and the keys of a set. -/
def Call.keyArrival (key_set : UnorderedSet Bytes) (session : Bytes) : Call → Option (Batching.Event Bytes)
  | newObject bucket_key _ =>
    if bucket_key.session_ = session ∧ bucket_key.key_ ∈ key_set then some (.item bucket_key.key_) else none
  | clear s => if s = session then some .drop else none
  | _ => none

/-- The same with the time of the arrival. -/
def Call.timedArrival : Call → Option (Batching.Event (ℤ × Bytes × Bytes))
  | newObject bucket_key now => some (.item (now, bucket_key.session_, bucket_key.key_))
  | clear _ => some .drop
  | _ => none

/-- The action that hands over all keys of a set for a session. -/
def setAction (f : Bytes) (key_set : UnorderedSet Bytes) (session : Bytes) : TriggerAction :=
  ⟨f, key_set.elems.map fun key => (session, key)⟩

/-- The action hands over keys of this session only. -/
def ofSession (session : Bytes) (action : TriggerAction) : Bool :=
  action.session_keys_.all fun pair => pair.1 = session

/-- The actions hand over the data keys that are among the objects, each group of them in one action and
no key twice, for the session of the last object. -/
def HandsOverGroups (f : Bytes) (objects : List (Bytes × Bytes)) (actions : List TriggerAction) : Prop :=
  ∃ groups : List Bytes, groups.Nodup ∧
    (∀ g, g ∈ groups ↔ g ≠ controlGroupPrefix ∧ ∃ k ∈ objects.map Prod.snd, groupOf k = g) ∧
    List.Forall₂ (fun g action => action.function_ = f ∧ action.session_keys_.Nodup ∧
      ∀ session k, (session, k) ∈ action.session_keys_ ↔
        objects.getLast?.map Prod.fst = some session ∧ groupOf k = g ∧ k ∈ objects.map Prod.snd)
      groups actions

/-- At every control key among the objects some key of the control group has not come yet. -/
def ControlIncomplete (control : UnorderedSet Bytes) (objects : List (Bytes × Bytes)) : Prop :=
  ∀ earlier y later, objects = earlier ++ y :: later → groupOf y.2 = controlGroupPrefix →
    ∃ c ∈ control, groupOf c ≠ controlGroupPrefix ∨ c ∉ (earlier ++ [y]).map Prod.snd

/-- The time of the last object of the last batch. -/
def lastStamp (last : ℤ) (batches : List (List (ℤ × Bytes × Bytes))) : ℤ :=
  batches.foldl (fun last b => (b.getLast?.map Prod.fst).getD last) last

/-- Every batch ends with the first object that comes when the window has passed since the last batch. -/
def OnTime (window : ℕ) : ℤ → List (List (ℤ × Bytes × Bytes)) → Prop
  | _, [] => True
  | last, b :: batches =>
    ∃ objects x, b = objects ++ [x] ∧ (∀ y ∈ objects, millisecondsBetween last y.1 < window) ∧
      window ≤ millisecondsBetween last x.1 ∧ OnTime window x.1 batches

/-- The objects that are left over after some batches come before the window has passed. -/
def Timely (window : ℕ) : ℤ → List (List (List (ℤ × Bytes × Bytes)) × List (ℤ × Bytes × Bytes)) → Prop
  | _, [] => True
  | last, cut :: cuts =>
    OnTime window last cut.1 ∧ (∀ y ∈ cut.2, millisecondsBetween (lastStamp last cut.1) y.1 < window) ∧
      Timely window (lastStamp last cut.1) cuts

/-- The action for the first `k` objects of a round, if it has so many. Nothing is handed over for no
objects. -/
def firstOfRound (f : Bytes) (k : ℕ) (round : List (Bytes × Bytes)) : List TriggerAction :=
  if 0 < k ∧ k ≤ round.length then [⟨f, round.take k⟩] else []

/-- What a call says about the source function of a session: it has been started, or its object has come.
With `clears`, a call of `clear` makes the trigger forget it. -/
def Call.sourceWord (clears : Bool) (session : Bytes) : Call → Option (Option TriggerFunctionMetadata)
  | notify func_name s func_args arg_flag =>
    if s = session then some (some ⟨func_name, func_args, arg_flag⟩) else none
  | newObject bucket_key _ => if bucket_key.session_ = session then some none else none
  | clear _ => if clears then some none else none
  | setRerunMetadata _ => none

/-- The same for a key of a session, where `keyOf` is the key of a function. -/
def Call.keyWord (keyOf : Bytes → Bytes) (key session : Bytes) :
    Call → Option (Option TriggerFunctionMetadata)
  | notify func_name s func_args arg_flag =>
    if keyOf func_name = key ∧ s = session then some (some ⟨func_name, func_args, arg_flag⟩) else none
  | newObject bucket_key _ =>
    if bucket_key.key_ = key ∧ bucket_key.session_ = session then some none else none
  -- `clear` erases the entry whose name is the session alone
  | clear s => if key = [] ∧ s = session then some none else none
  | setRerunMetadata _ => none

/-- What the last call said that was about it. -/
def lastWord (word : Call → Option (Option TriggerFunctionMetadata)) (calls : List Call) :
    Option TriggerFunctionMetadata :=
  (calls.reverse.findSome? word).getD none

/-- The key of a source function: the last one that was given for it. -/
def sourceKey (rerun_metadata : List RerunMetadata) (func_name : Bytes) : Bytes :=
  (rerun_metadata.reverse.findSome? fun rerun =>
    if rerun.source_func_ = func_name then some rerun.source_key_ else none).getD []

/-- The session that a call is about. -/
def Call.session : Call → Option Bytes
  | newObject bucket_key _ => some bucket_key.session_
  | notify _ session_id _ _ => some session_id
  | clear session => some session
  | setRerunMetadata _ => none

/-- The actions of a trigger over a sequence of calls, and the trigger after them. -/
def run (t : Trigger) (calls : List Call) : List TriggerAction × Trigger :=
  Batching.outputs step t calls

end Trigger

end Pheromone
