import Fuyao.Anna.Proofs.LatticesProofs
import Fuyao.Anna.Serialization
import Fuyao.Protobuf.Proofs.MessageProofs
import Fuyao.Protobuf.Proofs.WireProofs

/-!
# Proofs: what is stored can be read back

A lattice comes back from its string if the string is not too long for a message and the names in it are
valid. Nothing tells the reader otherwise: from a string that is too long it gets the lattice of the empty
message, and after a name that is not valid the values are missing.
-/

namespace Anna

open Cpp Protobuf

variable {rt : Runtime}

/-! ## Registers -/

theorem LWWValue.carries_write (m : LWWValue) (h : (m.write rt).length < 2 ^ 31) :
    Carries rt (read rt) ⟨0, []⟩ (m.write rt) m := by
  rw [write, List.length_append] at h
  have htimestamp : Carries rt (read rt) ⟨0, []⟩ (unlessDefault (m.timestamp == 0) (writeUInt64 rt 1 m.timestamp))
      ⟨m.timestamp, []⟩ := by
    refine Carries.unlessDefault (fun h => by rw [beq_iff_eq.mp h]) fun _ => ?_
    exact Carries.field 8 (by decide) fun rest =>
      congrArg some (readUInt64_writeUInt64 _ _ _ rest)
  exact htimestamp.append
    (Carries.bytes (LWWValue.mk m.timestamp ·) 18 (by decide) (fun _ => rfl) (Nat.lt_of_le_of_lt (by omega) h))

theorem registers_restored_iff (rt : Runtime) (l : LWWPairLattice Bytes) :
    deserializeLww rt (l.serialize rt) = l ↔ (l.message.write rt).length < 2 ^ 31 := by
  rw [LWWPairLattice.serialize, deserializeLww]
  constructor
  · intro h
    by_contra hlen
    rw [parse_serializeToString_of_le (by omega)] at h
    rw [← h] at hlen
    exact hlen (by decide : 0 < 2 ^ 31)
  · intro hlen
    rw [(LWWValue.carries_write _ hlen).parse_eq hlen]
    rfl

theorem registers_restored_iff_sample :
    (LWWPairLattice.message ⟨⟨5, [1]⟩⟩).write .ascii = [8, 5, 18, 1, 1] ∧
      deserializeLww .ascii (LWWPairLattice.serialize .ascii ⟨⟨5, [1]⟩⟩) = ⟨⟨5, [1]⟩⟩ :=
  ⟨by decide, (registers_restored_iff .ascii ⟨⟨5, [1]⟩⟩).mpr (by decide)⟩

/-! ## Sets -/

theorem SetValue.carries_write (m : SetValue) (h : (m.write rt).length < 2 ^ 31) :
    Carries rt (read rt) ⟨[]⟩ (m.write rt) m :=
  Carries.repeatedBytes SetValue.mk 10 (by decide) (fun _ _ => rfl) h

theorem sets_restored_iff (rt : Runtime) (l : SetLattice Bytes) :
    (∀ x, x ∈ (deserializeSet rt (l.serialize rt)).element ↔ x ∈ l.element) ↔
      (l.message.write rt).length < 2 ^ 31 := by
  rw [SetLattice.serialize, deserializeSet]
  constructor
  · intro h
    by_contra hlen
    rw [parse_serializeToString_of_le (by omega)] at h
    have hnil : l.element.elems = [] :=
      List.eq_nil_iff_forall_not_mem.mpr fun x hx => UnorderedSet.notMem_empty x ((h x).mpr hx)
    rw [SetLattice.message, hnil] at hlen
    exact hlen (by decide : 0 < 2 ^ 31)
  · intro hlen x
    rw [(SetValue.carries_write _ hlen).parse_eq hlen]
    exact UnorderedSet.mem_insertAll.trans (or_iff_left (UnorderedSet.notMem_empty x))

theorem sets_restored_iff_sample :
    (SetLattice.message ⟨⟨[[1], [2]], by decide⟩⟩).write .ascii = [10, 1, 1, 10, 1, 2] ∧
      ∀ x, x ∈ (deserializeSet .ascii (SetLattice.serialize .ascii ⟨⟨[[1], [2]], by decide⟩⟩)).element ↔
        x ∈ (⟨[[1], [2]], by decide⟩ : UnorderedSet Bytes) :=
  ⟨by decide, (sets_restored_iff .ascii ⟨⟨[[1], [2]], by decide⟩⟩).mpr (by decide)⟩

/-! ## Priorities -/

theorem magnitude_eq_zero_iff {x : Double} :
    x.magnitude = 0 ↔ x.bits = 0 ∨ x.bits = 0x8000000000000000 := by
  have hlt := x.bits.toNat_lt
  rw [Double.magnitude, ← UInt64.toNat_inj, ← UInt64.toNat_inj]
  change x.bits.toNat % 2 ^ 63 = 0 ↔ x.bits.toNat = 0 ∨ x.bits.toNat = 2 ^ 63
  omega

/-- Of the two zeros only the positive one is its own default. -/
theorem ite_magnitude_eq_self_iff {x : Double} :
    (if x.magnitude = 0 then ⟨0⟩ else x) = x ↔ x.bits ≠ 0x8000000000000000 := by
  have hzero := magnitude_eq_zero_iff (x := x)
  obtain ⟨bits⟩ := x
  split
  case isTrue h =>
    rcases hzero.mp h with rfl | rfl
    · exact iff_of_true rfl (by decide)
    · exact iff_of_false (by decide) fun hne => hne rfl
  case isFalse h => exact iff_of_true rfl fun hbits => h (hzero.mpr (.inr hbits))

/-- What the parser makes of the fields: the number -0 comes back as 0. -/
theorem PriorityValue.carries_write (m : PriorityValue) (h : (m.write rt).length < 2 ^ 31) :
    Carries rt (read rt) ⟨⟨0⟩, []⟩ (m.write rt)
      ⟨if m.priority.magnitude = 0 then ⟨0⟩ else m.priority, m.value⟩ := by
  rw [write, List.length_append] at h
  have hpriority : Carries rt (read rt) ⟨⟨0⟩, []⟩
      (unlessDefault (m.priority.magnitude == 0) (writeDouble rt 1 m.priority.bits))
      ⟨if m.priority.magnitude = 0 then ⟨0⟩ else m.priority, []⟩ := by
    refine Carries.unlessDefault (fun h => by rw [if_pos (beq_iff_eq.mp h)]) fun h => ?_
    rw [if_neg (beq_eq_false_iff_ne.mp h)]
    exact Carries.field 9 (by decide) fun rest =>
      congrArg some (readDouble_writeDouble _ _ _ rest)
  exact hpriority.append
    (Carries.bytes (PriorityValue.mk _ ·) 18 (by decide) (fun _ => rfl) (Nat.lt_of_le_of_lt (by omega) h))

theorem priorities_restored_iff (rt : Runtime) (l : PriorityLattice Double Bytes) :
    deserializePriority rt (l.serialize rt) = l ↔
      l.element.priority.bits ≠ 0x8000000000000000 ∧ (l.message.write rt).length < 2 ^ 31 := by
  rw [PriorityLattice.serialize, deserializePriority]
  by_cases hlen : (l.message.write rt).length < 2 ^ 31
  · rw [(PriorityValue.carries_write _ hlen).parse_eq hlen]
    rw [← ite_magnitude_eq_self_iff, and_iff_left hlen]
    constructor
    · intro h
      exact congrArg (·.element.priority) h
    · intro h
      exact congrArg (fun p => (⟨⟨p, l.element.value⟩⟩ : PriorityLattice Double Bytes)) h
  · rw [parse_serializeToString_of_le (by omega)]
    refine ⟨fun h => ?_, fun h => absurd h.2 hlen⟩
    rw [← h] at hlen
    exact absurd (by decide : 0 < 2 ^ 31) hlen

theorem priorities_restored_iff_sample :
    deserializePriority .ascii (PriorityLattice.serialize .ascii ⟨⟨⟨0x3ff0000000000000⟩, [1]⟩⟩) =
        ⟨⟨⟨0x3ff0000000000000⟩, [1]⟩⟩ ∧
      deserializePriority .ascii (PriorityLattice.serialize .ascii ⟨⟨⟨0x8000000000000000⟩, [1]⟩⟩) ≠
        ⟨⟨⟨0x8000000000000000⟩, [1]⟩⟩ :=
  ⟨(priorities_restored_iff .ascii ⟨⟨⟨0x3ff0000000000000⟩, [1]⟩⟩).mpr ⟨by decide, by decide⟩,
    fun h => ((priorities_restored_iff .ascii ⟨⟨⟨0x8000000000000000⟩, [1]⟩⟩).mp h).1 rfl⟩

/-! ## Clocks -/

section MapLattice

variable {K V W : Type} [DecidableEq K] [Merge.Mergeable V]

/-- Inserting under keys that the map does not have. -/
theorem MapLattice.element_foldl_insert {l : List ((_ : K) × W)} (hl : l.NodupKeys) (f : W → V)
    {m : MapLattice K V} (hm : ∀ k ∈ l.keys, k ∉ m.element) :
    (l.foldl (fun m e => m.insert e.1 (f e.2)) m).element =
      l.foldl (fun t e => t.insert e.1 (f e.2)) m.element := by
  induction l generalizing m with
  | nil => rfl
  | cons e l ih =>
    rw [List.nodupKeys_cons] at hl
    rw [List.keys_cons, List.forall_mem_cons] at hm
    have hinsert : m.insert e.1 (f e.2) = ⟨m.element.insert e.1 (f e.2)⟩ := by
      rw [insert, insertPair, AList.lookup_eq_none.mpr hm.1]
    rw [List.foldl_cons, List.foldl_cons, hinsert]
    refine ih hl.2 fun k hk hmem => ?_
    rcases (AList.mem_insert _).mp hmem with rfl | hmem
    · exact hl.1 hk
    · exact hm.2 k hk hmem

theorem MapLattice.lookup_foldl_insert_empty {l : List ((_ : K) × W)} (hl : l.NodupKeys) (f : W → V) (k : K) :
    (l.foldl (fun m e => m.insert e.1 (f e.2)) (⟨∅⟩ : MapLattice K V)).element.lookup k =
      (l.dlookup k).map f := by
  rw [element_foldl_insert hl f fun k _ => AList.notMem_empty k, UnorderedMap.lookup_foldl_insert hl,
    AList.lookup_empty, Option.or_none]

end MapLattice

/-- A clock whose counters went through the map field of a message and back. -/
theorem VectorClock.clock_insertCounters (vc : VectorClock) :
    (insertCounters ⟨∅⟩ (vc.counters.mapValues id)).clock = vc.clock := by
  funext i
  have h : (insertCounters ⟨∅⟩ (vc.counters.mapValues id)).element.lookup i = vc.element.lookup i := by
    rw [insertCounters, MapLattice.lookup_foldl_insert_empty (AList.nodupKeys _) MaxLattice.mk,
      ← AList.lookup, UnorderedMap.lookup_mapValues, counters, UnorderedMap.lookup_mapValues]
    cases vc.element.lookup i <;> rfl
  rw [clock, clock, h]

theorem VectorClock.mem_counters {vc : VectorClock} {id : Bytes} : id ∈ vc.counters ↔ id ∈ vc.element :=
  UnorderedMap.mem_mapValues

theorem SetLattice.mem_foldl_insert {x : Bytes} {l : List Bytes} :
    x ∈ (l.foldl SetLattice.insert ⟨∅⟩).element ↔ x ∈ l := by
  have h : (l.foldl SetLattice.insert ⟨∅⟩).element = UnorderedSet.insertAll ∅ l :=
    (List.foldl_hom SetLattice.element fun _ _ => rfl).symm
  rw [h, UnorderedSet.mem_insertAll]
  exact or_iff_left (UnorderedSet.notMem_empty x)

/-! ## The causal lattice of one key -/

namespace SingleKeyCausalValue

theorem length_writeMap_lt {m : SingleKeyCausalValue} (h : (m.write rt).length < 2 ^ 31) :
    (writeMap rt 1 m.vector_clock).length < 2 ^ 31 := by
  rw [write, List.length_append] at h
  omega

theorem carries_write {m : SingleKeyCausalValue} (h : (m.write rt).length < 2 ^ 31)
    (hids : ∀ id ∈ m.vector_clock, rt.isValidUtf8 id = true) :
    Carries rt (read rt) ⟨∅, []⟩ (m.write rt) ⟨m.vector_clock.mapValues id, m.values⟩ := by
  have hclock : Carries rt (read rt) ⟨∅, []⟩ (writeMap rt 1 m.vector_clock)
      ⟨m.vector_clock.mapValues id, []⟩ :=
    Carries.map (SingleKeyCausalValue.mk · []) 10 (by decide) (fun _ _ => rfl)
      (length_writeMap_lt h) hids
  rw [write, List.length_append] at h
  exact hclock.append
    (Carries.repeatedBytes (SingleKeyCausalValue.mk _ ·) 18 (by decide) (fun _ _ => rfl)
      (Nat.lt_of_le_of_lt (by omega) h))

theorem values_parse_of_invalid {m : SingleKeyCausalValue} (h : (m.write rt).length < 2 ^ 31)
    (hids : ¬ ∀ id ∈ m.vector_clock, rt.isValidUtf8 id = true) :
    (parse rt (read rt) ⟨∅, []⟩ (rt.serializeToString (m.write rt))).values = [] := by
  have hclock : ∃ t, Stops rt (read rt) ⟨∅, []⟩ (writeMap rt 1 m.vector_clock) ⟨t, []⟩ :=
    Stops.map (SingleKeyCausalValue.mk · []) 10 (by decide) (fun _ _ => rfl) (length_writeMap_lt h)
      hids ∅
  obtain ⟨t, hstops⟩ := hclock
  rw [write, (hstops.append_right _).parse_eq h]

end SingleKeyCausalValue

theorem VectorClock.validIds_iff {vc : VectorClock} :
    vc.ValidIds rt ↔ ∀ id ∈ vc.counters, rt.isValidUtf8 id = true :=
  forall_congr' fun id => by rw [mem_counters]

theorem causal_values_restored_iff (rt : Runtime) (l : SingleKeyCausalLattice (SetLattice Bytes)) {x : Bytes}
    (hx : x ∈ l.element.value.element) :
    ((l.roundTrip rt).vector_clock.clock = l.element.vector_clock.clock ∧
      ∀ y, y ∈ (l.roundTrip rt).value.element ↔ y ∈ l.element.value.element) ↔
      l.element.vector_clock.ValidIds rt ∧ (l.message.write rt).length < 2 ^ 31 := by
  rw [VectorClock.validIds_iff, SingleKeyCausalLattice.roundTrip, deserializeCausal,
    SingleKeyCausalLattice.serialize]
  constructor
  · rintro ⟨-, hvalues⟩
    have hx' := SetLattice.mem_foldl_insert.mp ((hvalues x).mpr hx)
    by_cases hlen : (l.message.write rt).length < 2 ^ 31
    · refine ⟨?_, hlen⟩
      by_contra hinvalid
      rw [SingleKeyCausalValue.values_parse_of_invalid hlen hinvalid] at hx'
      exact List.not_mem_nil hx'
    · rw [parse_serializeToString_of_le (by omega)] at hx'
      exact absurd hx' List.not_mem_nil
  · rintro ⟨hvalid, hlen⟩
    rw [(SingleKeyCausalValue.carries_write hlen hvalid).parse_eq hlen]
    exact ⟨VectorClock.clock_insertCounters _, fun y => SetLattice.mem_foldl_insert⟩

/-- A clock with one counter. -/
def sampleClock (id : Bytes) : VectorClock := ⟨AList.insert id ⟨1⟩ ∅⟩

theorem causal_values_restored_iff_sample :
    ([1] : Bytes) ∈ (⟨[[1]], by decide⟩ : UnorderedSet Bytes) ∧
      ∀ y, y ∈ (SingleKeyCausalLattice.roundTrip .ascii
        ⟨⟨sampleClock (ascii "a"), ⟨⟨[[1]], by decide⟩⟩⟩⟩).value.element ↔ y ∈ [([1] : Bytes)] := by
  refine ⟨by decide, ?_⟩
  refine ((causal_values_restored_iff .ascii ⟨⟨sampleClock (ascii "a"), ⟨⟨[[1]], by decide⟩⟩⟩⟩
    (x := [1]) (by decide)).mpr ⟨?_, by decide⟩).2
  intro id hid
  rw [List.mem_singleton.mp hid]
  decide

/-! ## The causal lattice of many keys -/

namespace KeyVersion

/-- The strings of a dependency are valid: its key and the ids of its clock. -/
def Valid (rt : Runtime) (m : KeyVersion) : Prop :=
  rt.isValidUtf8 m.key = true ∧ ∀ id ∈ m.vector_clock, rt.isValidUtf8 id = true

theorem carries_key {m : KeyVersion} (h : (m.write rt).length < 2 ^ 31) (hkey : rt.isValidUtf8 m.key = true) :
    Carries rt (read rt) ⟨[], ∅⟩ (unlessDefault m.key.isEmpty (writeBytes rt 1 m.key)) ⟨m.key, ∅⟩ := by
  rw [write, List.length_append] at h
  exact Carries.string (KeyVersion.mk · ∅) 10 (by decide) (fun _ => rfl) (Nat.lt_of_le_of_lt (by omega) h) hkey

theorem length_writeMap_lt {m : KeyVersion} (h : (m.write rt).length < 2 ^ 31) :
    (writeMap rt 2 m.vector_clock).length < 2 ^ 31 := by
  rw [write, List.length_append] at h
  omega

theorem merge_write {m : KeyVersion} (h : (m.write rt).length < 2 ^ 31) (hvalid : m.Valid rt) :
    merge rt (read rt) ⟨[], ∅⟩ (m.write rt) = (true, ⟨m.key, m.vector_clock.mapValues id⟩) :=
  ((carries_key h hvalid.1).append (Carries.map (KeyVersion.mk m.key ·) 18 (by decide)
    (fun _ _ => rfl) (length_writeMap_lt h) hvalid.2)).merge_eq

theorem merge_write_of_invalid {m : KeyVersion} (h : (m.write rt).length < 2 ^ 31) (hinvalid : ¬ m.Valid rt) :
    ∃ n, merge rt (read rt) ⟨[], ∅⟩ (m.write rt) = (false, n) := by
  by_cases hkey : rt.isValidUtf8 m.key = true
  · have hclock : ∃ t, Stops rt (read rt) ⟨m.key, ∅⟩ (writeMap rt 2 m.vector_clock) ⟨m.key, t⟩ :=
      Stops.map (KeyVersion.mk m.key ·) 18 (by decide) (fun _ _ => rfl)
        (length_writeMap_lt h) (fun hids => hinvalid ⟨hkey, hids⟩) ∅
    obtain ⟨t, hstops⟩ := hclock
    exact ⟨_, (Stops.append_left (carries_key h hkey) hstops).merge_eq⟩
  · rw [write, List.length_append] at h
    have hstops : Stops rt (read rt) ⟨[], ∅⟩ (unlessDefault m.key.isEmpty (writeBytes rt 1 m.key)) ⟨m.key, ∅⟩ :=
      Stops.string (KeyVersion.mk · ∅) 10 (by decide) (fun _ => rfl) (Nat.lt_of_le_of_lt (by omega) h) hkey
    exact ⟨_, (hstops.append_right _).merge_eq⟩

end KeyVersion

namespace MultiKeyCausalValue

/-- The message that the parser makes of valid fields. -/
def reread (m : MultiKeyCausalValue) : MultiKeyCausalValue :=
  ⟨m.vector_clock.mapValues id, m.dependencies.map fun dep => ⟨dep.key, dep.vector_clock.mapValues id⟩,
    m.values⟩

variable {m : MultiKeyCausalValue} (h : (m.write rt).length < 2 ^ 31)

include h

theorem length_writeMap_lt : (writeMap rt 1 m.vector_clock).length < 2 ^ 31 := by
  rw [write, List.length_append, List.length_append] at h
  omega

theorem length_write_dependency_lt {dep : KeyVersion} (hdep : dep ∈ m.dependencies) :
    (dep.write rt).length < 2 ^ 31 := by
  have hfield := length_le_flatMap hdep fun dep => writeBytes rt 2 (dep.write rt)
  have hle := length_le_writeBytes rt 2 (dep.write rt)
  rw [write, List.length_append, List.length_append] at h
  omega

theorem carries_clock (hids : ∀ id ∈ m.vector_clock, rt.isValidUtf8 id = true) :
    Carries rt (read rt) ⟨∅, [], []⟩ (writeMap rt 1 m.vector_clock) ⟨m.vector_clock.mapValues id, [], []⟩ :=
  Carries.map (MultiKeyCausalValue.mk · [] []) 10 (by decide) (fun _ _ => rfl)
    (length_writeMap_lt h) hids

theorem carries_dependency {dep : KeyVersion} (hdep : dep ∈ m.dependencies) (hvalid : dep.Valid rt)
    (t : UnorderedMap Bytes UInt32) (deps : List KeyVersion) :
    Carries rt (read rt) ⟨t, deps, []⟩ (writeBytes rt 2 (dep.write rt))
      ⟨t, deps ++ [⟨dep.key, dep.vector_clock.mapValues id⟩], []⟩ := by
  have hlen := length_write_dependency_lt h hdep
  refine Carries.field 18 (by decide) fun rest => congrArg some ?_
  exact readMessage_writeDelimited _ hlen (KeyVersion.merge_write hlen hvalid) rest

theorem carries_write (hids : ∀ id ∈ m.vector_clock, rt.isValidUtf8 id = true)
    (hdeps : ∀ dep ∈ m.dependencies, dep.Valid rt) :
    Carries rt (read rt) ⟨∅, [], []⟩ (m.write rt) m.reread := by
  have hdependencies : Carries rt (read rt) ⟨m.vector_clock.mapValues id, [], []⟩
      (m.dependencies.flatMap fun dep => writeBytes rt 2 (dep.write rt))
      ⟨m.vector_clock.mapValues id, m.reread.dependencies, []⟩ :=
    Carries.repeated fun deps dep hdep => carries_dependency h hdep (hdeps dep hdep) _ deps
  have hclock := carries_clock h hids
  rw [write, List.length_append] at h
  exact (hclock.append hdependencies).append
    (Carries.repeatedBytes (MultiKeyCausalValue.mk _ _ ·) 26 (by decide) (fun _ _ => rfl)
      (Nat.lt_of_le_of_lt (by omega) h))

theorem values_parse_of_invalid
    (hinvalid : ¬ ((∀ id ∈ m.vector_clock, rt.isValidUtf8 id = true) ∧ ∀ dep ∈ m.dependencies, dep.Valid rt)) :
    (parse rt (read rt) ⟨∅, [], []⟩ (rt.serializeToString (m.write rt))).values = [] := by
  by_cases hids : ∀ id ∈ m.vector_clock, rt.isValidUtf8 id = true
  · have hdependencies : ∃ deps, Stops rt (read rt) ⟨m.vector_clock.mapValues id, [], []⟩
        (m.dependencies.flatMap fun dep => writeBytes rt 2 (dep.write rt))
        ⟨m.vector_clock.mapValues id, deps, []⟩ := by
      refine Stops.flatMap (MultiKeyCausalValue.mk _ · []) (KeyVersion.Valid rt) ?_ ?_ ?_ []
      · intro deps dep hdep hvalid
        exact ⟨_, carries_dependency h hdep hvalid _ deps⟩
      · intro deps dep hdep hbad
        have hlen := length_write_dependency_lt h hdep
        obtain ⟨n, hn⟩ := KeyVersion.merge_write_of_invalid hlen hbad
        refine ⟨deps ++ [n], Stops.field 18 (by decide) fun rest => congrArg some ?_⟩
        exact readMessage_writeDelimited_of_false _ hlen hn rest
      · by_contra hall
        refine hinvalid ⟨hids, fun dep hdep => ?_⟩
        by_contra hbad
        exact hall ⟨dep, hdep, hbad⟩
    obtain ⟨deps, hstops⟩ := hdependencies
    rw [write, ((Stops.append_left (carries_clock h hids) hstops).append_right _).parse_eq h]
  · have hclock : ∃ t, Stops rt (read rt) ⟨∅, [], []⟩ (writeMap rt 1 m.vector_clock) ⟨t, [], []⟩ :=
      Stops.map (MultiKeyCausalValue.mk · [] []) 10 (by decide) (fun _ _ => rfl)
        (length_writeMap_lt h) hids ∅
    obtain ⟨t, hstops⟩ := hclock
    rw [write, ((hstops.append_right _).append_right _).parse_eq h]

end MultiKeyCausalValue

/-- The dependencies of a lattice, as they stand in its message, are valid. -/
theorem MultiKeyCausalLattice.forall_valid_iff {l : MultiKeyCausalLattice (SetLattice Bytes)} :
    (∀ dep ∈ l.message.dependencies, dep.Valid rt) ↔
      ∀ key vc, l.element.dependencies.element.lookup key = some vc →
        rt.isValidUtf8 key = true ∧ vc.ValidIds rt := by
  simp only [message, List.forall_mem_map, KeyVersion.Valid, ← VectorClock.validIds_iff]
  constructor
  · intro h key vc hlookup
    exact h ⟨key, vc⟩ (AList.mem_lookup_iff.mp hlookup)
  · rintro h ⟨key, vc⟩ hmem
    exact h key vc (AList.mem_lookup_iff.mpr hmem)

theorem MultiKeyCausalLattice.lookup_dependencies (l : MultiKeyCausalLattice (SetLattice Bytes)) (key : Bytes) :
    ((toMultiKeyCausalPayload l.message.reread).dependencies.element.lookup key).map VectorClock.clock =
      (l.element.dependencies.element.lookup key).map VectorClock.clock := by
  simp only [toMultiKeyCausalPayload, MultiKeyCausalValue.reread, message, List.foldl_map]
  rw [MapLattice.lookup_foldl_insert_empty (AList.nodupKeys _) fun vc : VectorClock =>
    VectorClock.insertCounters ⟨∅⟩ (vc.counters.mapValues id), ← AList.lookup, Option.map_map]
  congr 1
  funext vc
  exact vc.clock_insertCounters

theorem multi_key_causal_values_restored_iff (rt : Runtime) (l : MultiKeyCausalLattice (SetLattice Bytes))
    {x : Bytes} (hx : x ∈ l.element.value.element) :
    ((l.roundTrip rt).vector_clock.clock = l.element.vector_clock.clock ∧
      (∀ key, ((l.roundTrip rt).dependencies.element.lookup key).map VectorClock.clock =
        (l.element.dependencies.element.lookup key).map VectorClock.clock) ∧
      ∀ y, y ∈ (l.roundTrip rt).value.element ↔ y ∈ l.element.value.element) ↔
      (l.element.vector_clock.ValidIds rt ∧
        ∀ key vc, l.element.dependencies.element.lookup key = some vc →
          rt.isValidUtf8 key = true ∧ vc.ValidIds rt) ∧
      (l.message.write rt).length < 2 ^ 31 := by
  rw [VectorClock.validIds_iff, ← MultiKeyCausalLattice.forall_valid_iff, MultiKeyCausalLattice.roundTrip,
    deserializeMultiKeyCausal, MultiKeyCausalLattice.serialize]
  constructor
  · rintro ⟨-, -, hvalues⟩
    have hx' := SetLattice.mem_foldl_insert.mp ((hvalues x).mpr hx)
    by_cases hlen : (l.message.write rt).length < 2 ^ 31
    · refine ⟨?_, hlen⟩
      by_contra hinvalid
      rw [MultiKeyCausalValue.values_parse_of_invalid hlen hinvalid] at hx'
      exact List.not_mem_nil hx'
    · rw [parse_serializeToString_of_le (by omega)] at hx'
      exact absurd hx' List.not_mem_nil
  · rintro ⟨⟨hids, hdeps⟩, hlen⟩
    rw [(MultiKeyCausalValue.carries_write hlen hids hdeps).parse_eq hlen]
    exact ⟨VectorClock.clock_insertCounters _, l.lookup_dependencies, fun y => SetLattice.mem_foldl_insert⟩

/-- The version of one key. -/
def sampleDependencies : UnorderedMap Bytes VectorClock :=
  AList.insert (ascii "k") (sampleClock (ascii "b")) ∅

theorem multi_key_causal_values_restored_iff_sample :
    ([1] : Bytes) ∈ (⟨[[1]], by decide⟩ : UnorderedSet Bytes) ∧
      ∀ key, ((MultiKeyCausalLattice.roundTrip .ascii ⟨⟨sampleClock (ascii "a"), ⟨sampleDependencies⟩,
          ⟨⟨[[1]], by decide⟩⟩⟩⟩).dependencies.element.lookup key).map VectorClock.clock =
        (sampleDependencies.lookup key).map VectorClock.clock := by
  refine ⟨by decide, ?_⟩
  refine ((multi_key_causal_values_restored_iff .ascii ⟨⟨sampleClock (ascii "a"), ⟨sampleDependencies⟩,
    ⟨⟨[[1]], by decide⟩⟩⟩⟩ (x := [1]) (by decide)).mpr ⟨⟨?_, ?_⟩, by decide⟩).2.1
  · intro id hid
    rw [List.mem_singleton.mp hid]
    decide
  · intro key vc h
    have hmem := List.mem_singleton.mp (AList.mem_lookup_iff.mp h)
    cases hmem
    refine ⟨by decide, fun id hid => ?_⟩
    rw [List.mem_singleton.mp hid]
    decide

end Anna
