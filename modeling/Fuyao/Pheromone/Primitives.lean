import Fuyao.Pheromone.Triggers
import Fuyao.Protobuf.Message

/-!
# Primitives

The parameters of a trigger are sent as the message of its primitive. A trigger can write its own
primitive, a client writes the one it asks for, and `gen_trigger_pointer` makes a trigger from
what it reads.
-/

namespace Pheromone

open Cpp Protobuf

variable (rt : Runtime)

/-- The numbers that have no name can be received too. -/
inductive PrimitiveType where
  | immediate
  | byName
  | byBatchSize
  | bySet
  | dynamicGroup
  | redundant
  | byTime
  | other (n : Int32)
  deriving DecidableEq

/-! ## Messages -/

/-- The message of a trigger for every object. -/
structure ImmediatePrimitive where
  function : Bytes

namespace ImmediatePrimitive

/-- The fields of the message, by their tags. -/
def read : FieldReader ImmediatePrimitive := fun m tag s =>
  if tag = 10 then some (readString rt (fun function => { m with function := function }) s)
  else none

/-- The fields that are written. -/
def write (m : ImmediatePrimitive) : Bytes := unlessDefault m.function.isEmpty (writeBytes rt 1 m.function)

end ImmediatePrimitive

/-- The message of a trigger for the objects with one name. -/
structure ByNamePrimitive where
  function : Bytes
  key_name : Bytes

namespace ByNamePrimitive

/-- The fields of the message, by their tags. -/
def read : FieldReader ByNamePrimitive := fun m tag s =>
  if tag = 10 then some (readString rt (fun function => { m with function := function }) s)
  else if tag = 18 then some (readString rt (fun key_name => { m with key_name := key_name }) s)
  else none

/-- The fields that are written. -/
def write (m : ByNamePrimitive) : Bytes :=
  unlessDefault m.function.isEmpty (writeBytes rt 1 m.function) ++
    unlessDefault m.key_name.isEmpty (writeBytes rt 2 m.key_name)

end ByNamePrimitive

/-- The primitives with a number: of objects, or of milliseconds. -/
structure NumberPrimitive where
  function : Bytes
  number : UInt32

namespace NumberPrimitive

/-- The fields of the message, by their tags. -/
def read : FieldReader NumberPrimitive := fun m tag s =>
  if tag = 10 then some (readString rt (fun function => { m with function := function }) s)
  else if tag = 16 then some (readUInt32 rt m (fun number => { m with number := number }) s)
  else none

/-- The fields that are written. -/
def write (m : NumberPrimitive) : Bytes :=
  unlessDefault m.function.isEmpty (writeBytes rt 1 m.function) ++
    unlessDefault (m.number == 0) (writeUInt32 rt 2 m.number)

end NumberPrimitive

/-- The number is `count`. -/
abbrev ByBatchSizePrimitive := NumberPrimitive

/-- The number is `time_window`. -/
abbrev ByTimePrimitive := NumberPrimitive

/-- The primitives with a set of keys. -/
structure KeysPrimitive where
  function : Bytes
  keys : List Bytes

namespace KeysPrimitive

/-- The fields of the message, by their tags. -/
def read : FieldReader KeysPrimitive := fun m tag s =>
  if tag = 10 then some (readString rt (fun function => { m with function := function }) s)
  else if tag = 18 then some (readString rt (fun key => { m with keys := m.keys ++ [key] }) s)
  else none

/-- The fields that are written. -/
def write (m : KeysPrimitive) : Bytes :=
  unlessDefault m.function.isEmpty (writeBytes rt 1 m.function) ++ m.keys.flatMap (writeBytes rt 2)

end KeysPrimitive

/-- The keys are `key_set`. -/
abbrev BySetPrimitive := KeysPrimitive

/-- The keys are `control_group`. -/
abbrev DynamicGroupPrimitive := KeysPrimitive

/-- The message of a trigger for the first `k` of `n` objects. -/
structure RedundantPrimitive where
  function : Bytes
  k : UInt32
  n : UInt32

namespace RedundantPrimitive

/-- The fields of the message, by their tags. -/
def read : FieldReader RedundantPrimitive := fun m tag s =>
  if tag = 10 then some (readString rt (fun function => { m with function := function }) s)
  else if tag = 16 then some (readUInt32 rt m (fun k => { m with k := k }) s)
  else if tag = 24 then some (readUInt32 rt m (fun n => { m with n := n }) s)
  else none

/-- The fields that are written. -/
def write (m : RedundantPrimitive) : Bytes :=
  unlessDefault m.function.isEmpty (writeBytes rt 1 m.function) ++
    unlessDefault (m.k == 0) (writeUInt32 rt 2 m.k) ++ unlessDefault (m.n == 0) (writeUInt32 rt 3 m.n)

end RedundantPrimitive

/-! ## From a primitive to a trigger and back -/

/-- `gen_trigger_pointer`. A trigger that reads the clock when it is made finds `now` there. `nullptr` is
`none`. -/
def genTriggerPointer (type : PrimitiveType) (trigger_name serialized : Bytes) (now : ℤ) : Option Trigger :=
  match type with
  | .immediate =>
    let primitive := parse rt (ImmediatePrimitive.read rt) ⟨[]⟩ serialized
    some (.immediate { target_function_ := primitive.function, trigger_name_ := trigger_name })
  | .byName =>
    let primitive := parse rt (ByNamePrimitive.read rt) ⟨[], []⟩ serialized
    some (.byName { target_function_ := primitive.function, trigger_name_ := trigger_name
                    key_name_ := primitive.key_name })
  | .byBatchSize =>
    let primitive : ByBatchSizePrimitive := parse rt (NumberPrimitive.read rt) ⟨[], 0⟩ serialized
    some (.byBatchSize { target_function_ := primitive.function, trigger_name_ := trigger_name
                         count_ := primitive.number.toInt32 })
  | .bySet =>
    let primitive : BySetPrimitive := parse rt (KeysPrimitive.read rt) ⟨[], []⟩ serialized
    some (.bySet { target_function_ := primitive.function, trigger_name_ := trigger_name
                   key_set_ := primitive.keys.foldl UnorderedSet.insert ∅ })
  | .dynamicGroup =>
    let primitive : DynamicGroupPrimitive := parse rt (KeysPrimitive.read rt) ⟨[], []⟩ serialized
    some (.dynamicGroup { target_function_ := primitive.function, trigger_name_ := trigger_name
                          control_group_ := primitive.keys.foldl UnorderedSet.insert ∅ })
  | .redundant =>
    let primitive := parse rt (RedundantPrimitive.read rt) ⟨[], 0, 0⟩ serialized
    some (.redundant { target_function_ := primitive.function, trigger_name_ := trigger_name
                       k_ := primitive.k, n_ := primitive.n })
  | .byTime =>
    let primitive : ByTimePrimitive := parse rt (NumberPrimitive.read rt) ⟨[], 0⟩ serialized
    some (.byTime { target_function_ := primitive.function, trigger_name_ := trigger_name
                    time_window_ := primitive.number, last_trigger_stamp_ := now })
  | .other _ => none

namespace Trigger

/-- `get_type`. -/
def type : Trigger → PrimitiveType
  | immediate _ => .immediate
  | byName _ => .byName
  | byBatchSize _ => .byBatchSize
  | bySet _ => .bySet
  | dynamicGroup _ => .dynamicGroup
  | redundant _ => .redundant
  | byTime _ => .byTime

/-- `get_trigger_name`. -/
def triggerName : Trigger → Bytes
  | immediate t => t.trigger_name_
  | byName t => t.trigger_name_
  | byBatchSize t => t.trigger_name_
  | bySet t => t.trigger_name_
  | dynamicGroup t => t.trigger_name_
  | redundant t => t.trigger_name_
  | byTime t => t.trigger_name_

/-- The function that the actions are for. -/
def targetFunction : Trigger → Bytes
  | immediate t => t.target_function_
  | byName t => t.target_function_
  | byBatchSize t => t.target_function_
  | bySet t => t.target_function_
  | dynamicGroup t => t.target_function_
  | redundant t => t.target_function_
  | byTime t => t.target_function_

/-- The fields of the primitive of a trigger. -/
def primitive : Trigger → Bytes
  | immediate t => ImmediatePrimitive.write rt ⟨t.target_function_⟩
  | byName t => ByNamePrimitive.write rt ⟨t.target_function_, t.key_name_⟩
  | byBatchSize t => NumberPrimitive.write rt ⟨t.target_function_, t.count_.toUInt32⟩
  | bySet t => KeysPrimitive.write rt ⟨t.target_function_, t.key_set_.elems⟩
  | dynamicGroup t => KeysPrimitive.write rt ⟨t.target_function_, t.control_group_.elems⟩
  | redundant t => RedundantPrimitive.write rt ⟨t.target_function_, t.k_, t.n_⟩
  | byTime t => NumberPrimitive.write rt ⟨t.target_function_, t.time_window_⟩

/-- `dump_pritimive`. -/
def dumpPritimive (t : Trigger) : Bytes := rt.serializeToString (t.primitive rt)

/-- The strings in the primitive of a trigger. -/
def names : Trigger → List Bytes
  | immediate t => [t.target_function_]
  | byName t => [t.target_function_, t.key_name_]
  | byBatchSize t => [t.target_function_]
  | bySet t => t.target_function_ :: t.key_set_.elems
  | dynamicGroup t => t.target_function_ :: t.control_group_.elems
  | redundant t => [t.target_function_]
  | byTime t => [t.target_function_]

/-- A trigger with the same parameters that has just been made. -/
def fresh (now : ℤ) : Trigger → Trigger
  | immediate t => immediate { target_function_ := t.target_function_, trigger_name_ := t.trigger_name_ }
  | byName t => byName { target_function_ := t.target_function_, trigger_name_ := t.trigger_name_
                         key_name_ := t.key_name_ }
  | byBatchSize t => byBatchSize { target_function_ := t.target_function_, trigger_name_ := t.trigger_name_
                                   count_ := t.count_ }
  | bySet t => bySet { target_function_ := t.target_function_, trigger_name_ := t.trigger_name_
                       key_set_ := t.key_set_ }
  | dynamicGroup t => dynamicGroup { target_function_ := t.target_function_, trigger_name_ := t.trigger_name_
                                     control_group_ := t.control_group_ }
  | redundant t => redundant { target_function_ := t.target_function_, trigger_name_ := t.trigger_name_
                               k_ := t.k_, n_ := t.n_ }
  | byTime t => byTime { target_function_ := t.target_function_, trigger_name_ := t.trigger_name_
                         time_window_ := t.time_window_, last_trigger_stamp_ := now }

end Trigger

/-- The same function on the same keys, in any order. -/
def TriggerAction.Alike (a b : TriggerAction) : Prop :=
  a.function_ = b.function_ ∧ a.session_keys_.Perm b.session_keys_

/-! ## The client -/

/-- `strtok_r` with a blank as the only delimiter: the next word and what remains. -/
def strtok (s : Bytes) : Option (Bytes × Bytes) :=
  let s := s.dropWhile (· == 32)
  if s.isEmpty then none else some (s.takeWhile (· != 32), (s.dropWhile (· != 32)).drop 1)

/-- The loop around `strtok_r`. Every round takes at least one byte. -/
def strtokWords : ℕ → Bytes → List Bytes
  | 0, _ => []
  | fuel + 1, s =>
    match strtok s with
    | some (word, remain) => word :: strtokWords fuel remain
    | none => []

/-- The pieces between the blanks that are not empty. -/
def words (s : Bytes) : List Bytes := (s.splitOn 32).filter fun word => !word.isEmpty

/-- The string as the functions of C see it. -/
def cStr (s : Bytes) : Bytes := s.takeWhile (· != 0)

/-- The primitive that the client sends in `add_trigger`. -/
def addTriggerPrimitive (type : PrimitiveType) (primitive : UnorderedMap Bytes Bytes) : Bytes :=
  match type with
  | .immediate =>
    rt.serializeToString (ImmediatePrimitive.write rt ⟨(primitive.lookup (ascii "function")).getD []⟩)
  | .bySet =>
    let key_names := cStr ((primitive.lookup (ascii "key_name")).getD [])
    rt.serializeToString (KeysPrimitive.write rt
      ⟨(primitive.lookup (ascii "function")).getD [], strtokWords (key_names.length + 1) key_names⟩)
  | _ => []

end Pheromone
