import Fuyao.Anna.Lattices
import Fuyao.Protobuf.Message

/-!
# Serialization of the lattices

A lattice is stored and sent as the string of a protocol buffer message. The functions that read such a
string never look at whether it could be parsed.
-/

namespace Anna

open Cpp Protobuf

variable (rt : Runtime)

/-! ## Messages -/

/-- The message of a register. -/
structure LWWValue where
  timestamp : UInt64
  value : Bytes

namespace LWWValue

/-- The fields of the message, by their tags. -/
def read : FieldReader LWWValue := fun m tag s =>
  if tag = 8 then some (readUInt64 rt m (fun timestamp => { m with timestamp := timestamp }) s)
  else if tag = 18 then some (readBytes rt (fun value => { m with value := value }) s)
  else none

/-- The fields that are written. -/
def write (m : LWWValue) : Bytes :=
  unlessDefault (m.timestamp == 0) (writeUInt64 rt 1 m.timestamp) ++
    unlessDefault m.value.isEmpty (writeBytes rt 2 m.value)

end LWWValue

/-- The message of a set. -/
structure SetValue where
  values : List Bytes

namespace SetValue

/-- The fields of the message, by their tags. -/
def read : FieldReader SetValue := fun m tag s =>
  if tag = 10 then some (readBytes rt (fun value => ⟨m.values ++ [value]⟩) s)
  else none

/-- The fields that are written. -/
def write (m : SetValue) : Bytes := m.values.flatMap (writeBytes rt 1)

end SetValue

/-- The message of a value with a priority. -/
structure PriorityValue where
  priority : Double
  value : Bytes

namespace PriorityValue

/-- The fields of the message, by their tags. -/
def read : FieldReader PriorityValue := fun m tag s =>
  if tag = 9 then some (readDouble rt m (fun bits => { m with priority := ⟨bits⟩ }) s)
  else if tag = 18 then some (readBytes rt (fun value => { m with value := value }) s)
  else none

/-- The fields that are written. The priority is left out if it is equal to 0, and -0 is. -/
def write (m : PriorityValue) : Bytes :=
  unlessDefault (m.priority.magnitude == 0) (writeDouble rt 1 m.priority.bits) ++
    unlessDefault m.value.isEmpty (writeBytes rt 2 m.value)

end PriorityValue

/-- The message of the causal lattice of one key. -/
structure SingleKeyCausalValue where
  vector_clock : UnorderedMap Bytes UInt32
  values : List Bytes

namespace SingleKeyCausalValue

/-- The fields of the message, by their tags. -/
def read : FieldReader SingleKeyCausalValue := fun m tag s =>
  if tag = 10 then
    some (readMapEntry rt m (fun id n => { m with vector_clock := m.vector_clock.insert id n }) s)
  else if tag = 18 then some (readBytes rt (fun value => { m with values := m.values ++ [value] }) s)
  else none

/-- The fields that are written. -/
def write (m : SingleKeyCausalValue) : Bytes :=
  writeMap rt 1 m.vector_clock ++ m.values.flatMap (writeBytes rt 2)

end SingleKeyCausalValue

/-- The message of a dependency: a key and the clock of its version. -/
structure KeyVersion where
  key : Bytes
  vector_clock : UnorderedMap Bytes UInt32

namespace KeyVersion

/-- The fields of the message, by their tags. -/
def read : FieldReader KeyVersion := fun m tag s =>
  if tag = 10 then some (readString rt (fun key => { m with key := key }) s)
  else if tag = 18 then
    some (readMapEntry rt m (fun id n => { m with vector_clock := m.vector_clock.insert id n }) s)
  else none

/-- The fields that are written. -/
def write (m : KeyVersion) : Bytes :=
  unlessDefault m.key.isEmpty (writeBytes rt 1 m.key) ++ writeMap rt 2 m.vector_clock

end KeyVersion

/-- The message of the causal lattice of many keys. -/
structure MultiKeyCausalValue where
  vector_clock : UnorderedMap Bytes UInt32
  dependencies : List KeyVersion
  values : List Bytes

namespace MultiKeyCausalValue

/-- The fields of the message, by their tags. -/
def read : FieldReader MultiKeyCausalValue := fun m tag s =>
  if tag = 10 then
    some (readMapEntry rt m (fun id n => { m with vector_clock := m.vector_clock.insert id n }) s)
  else if tag = 18 then
    some (readMessage rt ⟨[], ∅⟩ (KeyVersion.read rt)
      (fun dep => { m with dependencies := m.dependencies ++ [dep] }) s)
  else if tag = 26 then some (readBytes rt (fun value => { m with values := m.values ++ [value] }) s)
  else none

/-- The fields that are written. -/
def write (m : MultiKeyCausalValue) : Bytes :=
  writeMap rt 1 m.vector_clock ++ m.dependencies.flatMap (fun dep => writeBytes rt 2 (dep.write rt)) ++
    m.values.flatMap (writeBytes rt 3)

end MultiKeyCausalValue

/-! ## The lattices as messages -/

/-- The message that `serialize` fills in for a register. -/
def LWWPairLattice.message (l : LWWPairLattice Bytes) : LWWValue := ⟨l.element.timestamp, l.element.value⟩

/-- `serialize` of a register. -/
def LWWPairLattice.serialize (l : LWWPairLattice Bytes) : Bytes := rt.serializeToString (l.message.write rt)

/-- `deserialize_lww`. -/
def deserializeLww (serialized : Bytes) : LWWPairLattice Bytes :=
  let lww := parse rt (LWWValue.read rt) ⟨0, []⟩ serialized
  ⟨⟨lww.timestamp, lww.value⟩⟩

/-- The message that `serialize` fills in for a set. -/
def SetLattice.message (l : SetLattice Bytes) : SetValue := ⟨l.element.elems⟩

/-- `serialize` of a set. -/
def SetLattice.serialize (l : SetLattice Bytes) : Bytes := rt.serializeToString (l.message.write rt)

/-- `deserialize_set`. -/
def deserializeSet (serialized : Bytes) : SetLattice Bytes :=
  let s := parse rt (SetValue.read rt) ⟨[]⟩ serialized
  ⟨s.values.foldl UnorderedSet.insert ∅⟩

/-- The message that `serialize` fills in for a value with a priority. -/
def PriorityLattice.message (l : PriorityLattice Double Bytes) : PriorityValue :=
  ⟨l.element.priority, l.element.value⟩

/-- `serialize` of a value with a priority. -/
def PriorityLattice.serialize (l : PriorityLattice Double Bytes) : Bytes :=
  rt.serializeToString (l.message.write rt)

/-- `deserialize_priority`. -/
def deserializePriority (serialized : Bytes) : PriorityLattice Double Bytes :=
  let pv := parse rt (PriorityValue.read rt) ⟨⟨0⟩, []⟩ serialized
  ⟨⟨pv.priority, pv.value⟩⟩

/-- The counters of a clock, entered into the map field of a message. -/
def VectorClock.counters (vc : VectorClock) : UnorderedMap Bytes UInt32 :=
  vc.element.mapValues MaxLattice.element

/-- The message that `serialize` fills in for the causal lattice of one key. -/
def SingleKeyCausalLattice.message (l : SingleKeyCausalLattice (SetLattice Bytes)) : SingleKeyCausalValue :=
  ⟨l.element.vector_clock.counters, l.element.value.element.elems⟩

/-- `serialize` of the causal lattice of one key. -/
def SingleKeyCausalLattice.serialize (l : SingleKeyCausalLattice (SetLattice Bytes)) : Bytes :=
  rt.serializeToString (l.message.write rt)

/-- `deserialize_causal`. -/
def deserializeCausal (serialized : Bytes) : SingleKeyCausalValue :=
  parse rt (SingleKeyCausalValue.read rt) ⟨∅, []⟩ serialized

/-- The loop that inserts the counters of a message into a clock. -/
def VectorClock.insertCounters (vc : VectorClock) (map : UnorderedMap Bytes UInt32) : VectorClock :=
  map.entries.foldl (fun vc pair => vc.insert pair.1 ⟨pair.2⟩) vc

/-- `to_vector_clock_value_pair`. -/
def toVectorClockValuePair (cv : SingleKeyCausalValue) : VectorClockValuePair (SetLattice Bytes) :=
  ⟨VectorClock.insertCounters ⟨∅⟩ cv.vector_clock, cv.values.foldl SetLattice.insert ⟨∅⟩⟩

/-- The message that `serialize` fills in for the causal lattice of many keys. -/
def MultiKeyCausalLattice.message (l : MultiKeyCausalLattice (SetLattice Bytes)) : MultiKeyCausalValue :=
  ⟨l.element.vector_clock.counters,
    l.element.dependencies.element.entries.map fun pair => ⟨pair.1, pair.2.counters⟩,
    l.element.value.element.elems⟩

/-- `serialize` of the causal lattice of many keys. -/
def MultiKeyCausalLattice.serialize (l : MultiKeyCausalLattice (SetLattice Bytes)) : Bytes :=
  rt.serializeToString (l.message.write rt)

/-- `deserialize_multi_key_causal`. -/
def deserializeMultiKeyCausal (serialized : Bytes) : MultiKeyCausalValue :=
  parse rt (MultiKeyCausalValue.read rt) ⟨∅, [], []⟩ serialized

/-- `to_multi_key_causal_payload`. -/
def toMultiKeyCausalPayload (mkcv : MultiKeyCausalValue) : MultiKeyCausalPayload (SetLattice Bytes) :=
  ⟨VectorClock.insertCounters ⟨∅⟩ mkcv.vector_clock,
    mkcv.dependencies.foldl
      (fun deps dep => deps.insert dep.key (VectorClock.insertCounters ⟨∅⟩ dep.vector_clock)) ⟨∅⟩,
    mkcv.values.foldl SetLattice.insert ⟨∅⟩⟩

/-! ## Through a string and back -/

/-- The causal lattice of one key that is made from its own string. -/
def SingleKeyCausalLattice.roundTrip (l : SingleKeyCausalLattice (SetLattice Bytes)) :
    VectorClockValuePair (SetLattice Bytes) :=
  toVectorClockValuePair (deserializeCausal rt (l.serialize rt))

/-- The causal lattice of many keys that is made from its own string. -/
def MultiKeyCausalLattice.roundTrip (l : MultiKeyCausalLattice (SetLattice Bytes)) :
    MultiKeyCausalPayload (SetLattice Bytes) :=
  toMultiKeyCausalPayload (deserializeMultiKeyCausal rt (l.serialize rt))

/-- The ids of a clock are valid strings. -/
def VectorClock.ValidIds (vc : VectorClock) : Prop := ∀ id ∈ vc.element, rt.isValidUtf8 id = true

end Anna
