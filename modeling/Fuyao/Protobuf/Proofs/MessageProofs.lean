import Fuyao.Protobuf.Message

/-!
# Proofs: what is written is merged back

For each kind of contents, the generated code reads what it has written and leaves what follows it
(`readBytes_writeDelimited`, `readString_writeDelimited` and so on). A message is the concatenation of its
fields, so it is read back if each of its fields is carried (`Carries.append`, `Carries.flatMap`); one field
that cannot be read ends the merging (`Stops`), and what comes after it is lost.
-/

namespace Protobuf

open Cpp

variable {M N α : Type} {rt : Runtime} {read : FieldReader M} {m m' m'' : M} {s s' : Bytes}

/-! ## Contents -/

section Contents

variable (m : M)

theorem readUInt64_writeUInt64 (set : UInt64 → M) (v : UInt64) (rest : Bytes) :
    readUInt64 rt m set (rt.writeUInt64 v ++ rest) = .success (set v) rest := by
  rw [readUInt64, rt.readUInt64_writeUInt64]

theorem readUInt32_writeUInt32 (set : UInt32 → M) (v : UInt32) (rest : Bytes) :
    readUInt32 rt m set (rt.writeUInt32 v ++ rest) = .success (set v) rest := by
  rw [readUInt32, rt.readUInt32_writeUInt32]

theorem readDouble_writeDouble (set : UInt64 → M) (bits : UInt64) (rest : Bytes) :
    readDouble rt m set (rt.writeDouble bits ++ rest) = .success (set bits) rest := by
  rw [readDouble, rt.readDouble_writeDouble]

end Contents

theorem readBytes_writeDelimited (set : Bytes → M) {x : Bytes} (h : x.length < 2 ^ 31) (rest : Bytes) :
    readBytes rt set (rt.writeDelimited x ++ rest) = .success (set x) rest := by
  rw [readBytes, rt.readBytes_writeDelimited h]

theorem readString_writeDelimited (set : Bytes → M) {x : Bytes} (h : x.length < 2 ^ 31) (rest : Bytes) :
    readString rt set (rt.writeDelimited x ++ rest) =
      if rt.isValidUtf8 x then .success (set x) rest else .failure (set x) := by
  rw [readString, rt.readBytes_writeDelimited h]

section Nested

variable {nested : FieldReader N} {n n' : N}

theorem readMessage_writeDelimited (set : N → M) {x : Bytes} (h : x.length < 2 ^ 31)
    (hx : merge rt nested n x = (true, n')) (rest : Bytes) :
    readMessage rt n nested set (rt.writeDelimited x ++ rest) = .success (set n') rest := by
  rw [readMessage, rt.readMessage_writeDelimited n _ h, hx]
  rfl

theorem readMessage_writeDelimited_of_false (set : N → M) {x : Bytes} (h : x.length < 2 ^ 31)
    (hx : merge rt nested n x = (false, n')) (rest : Bytes) :
    readMessage rt n nested set (rt.writeDelimited x ++ rest) = .failure (set n') := by
  rw [readMessage, rt.readMessage_writeDelimited n _ h, hx]
  rfl

end Nested

theorem readMapEntry_writeMapEntry (m : M) (insert : Bytes → UInt32 → M) {key : Bytes} {value : UInt32}
    (h : (rt.writeMapEntry key value).length < 2 ^ 31) (rest : Bytes) :
    readMapEntry rt m insert (rt.writeMapEntry key value ++ rest) =
      if rt.isValidUtf8 key then .success (insert key value) rest else .failure (insert key value) := by
  rw [readMapEntry, rt.readMapEntry_writeMapEntry h]

/-! ## Lengths -/

theorem length_le_writeBytes (rt : Runtime) (number : UInt32) (s : Bytes) :
    s.length ≤ (writeBytes rt number s).length := by
  have := rt.length_le_writeDelimited s
  rw [writeBytes, List.length_append]
  omega

theorem length_le_unlessDefault_writeBytes (rt : Runtime) (number : UInt32) (s : Bytes) :
    s.length ≤ (unlessDefault s.isEmpty (writeBytes rt number s)).length := by
  cases s with
  | nil => exact Nat.zero_le _
  | cons b s => exact length_le_writeBytes rt number (b :: s)

theorem length_le_flatMap {l : List α} {x : α} (h : x ∈ l) (write : α → Bytes) :
    (write x).length ≤ (l.flatMap write).length := by
  obtain ⟨a, b, rfl⟩ := List.append_of_mem h
  simp only [List.flatMap_append, List.flatMap_cons, List.length_append]
  omega

/-! ## Messages -/

/-- A tag of one byte. -/
def IsTag (number : UInt32) (t : WireType) (tag : UInt32) : Prop :=
  makeTag number t = tag ∧ tag ≠ 0 ∧ tag ≤ 127

instance (number : UInt32) (t : WireType) (tag : UInt32) : Decidable (IsTag number t tag) :=
  inferInstanceAs (Decidable (_ ∧ _))

section Tags

variable {number : UInt32} {t : WireType} {tag : UInt32} (htag : IsTag number t tag)

include htag

theorem IsTag.readTag_writeTag (rest : Bytes) :
    rt.readTag (rt.writeTag (makeTag number t) ++ rest) = some (tag, rest) := by
  obtain ⟨rfl, hpos, hcut⟩ := htag
  exact rt.readTag_writeTag hpos hcut rest

/-- There is no tag in nothing, so every tag takes a byte. -/
theorem IsTag.one_le_length (s : Bytes) : 1 ≤ (rt.writeTag (makeTag number t) ++ s).length := by
  have hread : rt.readTag _ = _ := htag.readTag_writeTag s
  cases hs : rt.writeTag (makeTag number t) ++ s with
  | nil =>
    rw [hs, rt.readTag_nil] at hread
    exact absurd hread (Option.some_ne_none _).symm
  | cons b s => exact Nat.le_add_left 1 _

/-- One round of the merging, for a field that the message knows. -/
theorem IsTag.mergePartial_of_success {rest rest' : Bytes} (hr : read m tag rest = some (.success m' rest'))
    (fuel : ℕ) : mergePartial rt read (fuel + 1) m (rt.writeTag (makeTag number t) ++ rest) =
      mergePartial rt read fuel m' rest' := by
  rw [mergePartial, htag.readTag_writeTag]
  dsimp only
  rw [if_pos htag.2.2, hr]

/-- The last round of the merging, for a field that cannot be read. -/
theorem IsTag.mergePartial_of_failure {rest : Bytes} (hr : read m tag rest = some (.failure m'))
    (fuel : ℕ) : mergePartial rt read (fuel + 1) m (rt.writeTag (makeTag number t) ++ rest) = (false, m') := by
  rw [mergePartial, htag.readTag_writeTag]
  dsimp only
  rw [if_pos htag.2.2, hr]

end Tags

namespace Carries

theorem nil (m : M) : Carries rt read m [] m := ⟨0, Nat.le_refl _, fun _ _ => rfl⟩

theorem append (h : Carries rt read m s m') (h' : Carries rt read m' s' m'') :
    Carries rt read m (s ++ s') m'' := by
  obtain ⟨k, hk, hs⟩ := h
  obtain ⟨k', hk', hs'⟩ := h'
  refine ⟨k' + k, by rw [List.length_append]; omega, fun fuel rest => ?_⟩
  rw [List.append_assoc, ← Nat.add_assoc, hs, hs']

/-- A field that is left out, or written, as its value is the default or not. -/
theorem unlessDefault {isDefault : Bool} (hd : isDefault = true → m' = m)
    (h : isDefault = false → Carries rt read m s m') :
    Carries rt read m (unlessDefault isDefault s) m' := by
  unfold Protobuf.unlessDefault
  cases isDefault with
  | true =>
    rw [hd rfl]
    exact nil m
  | false => exact h rfl

/-- Many fields, each of which changes one part of the message. -/
theorem flatMap {l : List α} {write : α → Bytes} {set : N → M} {add : N → α → N}
    (h : ∀ n, ∀ x ∈ l, Carries rt read (set n) (write x) (set (add n x))) (n : N) :
    Carries rt read (set n) (l.flatMap write) (set (l.foldl add n)) := by
  induction l generalizing n with
  | nil => exact nil (set n)
  | cons x l ih =>
    rw [List.flatMap_cons, List.foldl_cons]
    exact (h n x List.mem_cons_self).append
      (ih (fun n y hy => h n y (List.mem_cons_of_mem _ hy)) (add n x))

/-- A repeated field. -/
theorem repeated {l : List α} {write : α → Bytes} {set : List N → M} {value : α → N}
    (h : ∀ ns, ∀ x ∈ l, Carries rt read (set ns) (write x) (set (ns ++ [value x]))) :
    Carries rt read (set []) (l.flatMap write) (set (l.map value)) := by
  have hfold : l.foldl (fun ns x => ns ++ [value x]) [] = l.map value := by
    rw [List.foldl_append_eq_append, List.nil_append, ← List.flatMap_def]
    exact List.map_eq_flatMap.symm
  rw [← hfold]
  exact flatMap h []

/-- A field that the message knows. -/
theorem field {number : UInt32} {t : WireType} (tag : UInt32) (htag : IsTag number t tag)
    (h : ∀ rest, read m tag (s ++ rest) = some (.success m' rest)) :
    Carries rt read m (rt.writeTag (makeTag number t) ++ s) m' := by
  refine ⟨1, htag.one_le_length s, fun fuel rest => ?_⟩
  rw [List.append_assoc, htag.mergePartial_of_success (h rest)]

/-- A message is what its fields have carried. -/
theorem merge_eq (h : Carries rt read m s m') : merge rt read m s = (true, m') := by
  obtain ⟨k, hk, hs⟩ := h
  have hend := hs (s.length - k + 1) []
  rw [List.append_nil, Nat.add_right_comm, Nat.sub_add_cancel hk] at hend
  rw [merge, hend, mergePartial, rt.readTag_nil]
  rfl

/-- A message that is not too long comes back from its string. -/
theorem parse_eq (h : Carries rt read m s m') (hlen : s.length < 2 ^ 31) :
    parse rt read m (rt.serializeToString s) = m' := by
  rw [rt.serializeToString_of_lt hlen, parse, rt.parseFromString_eq m _ hlen, h.merge_eq]

/-- A field of bytes or a string that is left out if it is empty. -/
theorem delimited {number : UInt32} (set : Bytes → M) (tag : UInt32)
    (htag : IsTag number .lengthDelimited tag) {x : Bytes}
    (hlen : (Protobuf.unlessDefault x.isEmpty (writeBytes rt number x)).length < 2 ^ 31)
    (h : x.length < 2 ^ 31 → ∀ rest,
      read (set []) tag (rt.writeDelimited x ++ rest) = some (.success (set x) rest)) :
    Carries rt read (set []) (Protobuf.unlessDefault x.isEmpty (writeBytes rt number x)) (set x) := by
  have hx := length_le_unlessDefault_writeBytes rt number x
  refine Carries.unlessDefault (fun hnil => by rw [List.isEmpty_iff.mp hnil]) fun _ => ?_
  exact Carries.field tag htag (h (by omega))

/-- A field of bytes that is left out if there are none. -/
theorem bytes {number : UInt32} (set : Bytes → M) (tag : UInt32)
    (htag : IsTag number .lengthDelimited tag) {x : Bytes}
    (hread : ∀ s, read (set []) tag s = some (readBytes rt set s))
    (hlen : (Protobuf.unlessDefault x.isEmpty (writeBytes rt number x)).length < 2 ^ 31) :
    Carries rt read (set []) (Protobuf.unlessDefault x.isEmpty (writeBytes rt number x)) (set x) := by
  refine Carries.delimited set tag htag hlen fun hx rest => ?_
  rw [hread, readBytes_writeDelimited _ hx]

/-- A string that is left out if it is empty. -/
theorem string {number : UInt32} (set : Bytes → M) (tag : UInt32)
    (htag : IsTag number .lengthDelimited tag) {x : Bytes}
    (hread : ∀ s, read (set []) tag s = some (readString rt set s))
    (hlen : (Protobuf.unlessDefault x.isEmpty (writeBytes rt number x)).length < 2 ^ 31)
    (hvalid : rt.isValidUtf8 x = true) :
    Carries rt read (set []) (Protobuf.unlessDefault x.isEmpty (writeBytes rt number x)) (set x) := by
  refine Carries.delimited set tag htag hlen fun hx rest => ?_
  rw [hread, readString_writeDelimited _ hx, if_pos hvalid]

/-- A number that is left out if it is 0. -/
theorem uint32 {number : UInt32} (set : UInt32 → M) (tag : UInt32) (htag : IsTag number .varint tag)
    {n : UInt32} (hread : ∀ s, read (set 0) tag s = some (readUInt32 rt (set 0) set s)) :
    Carries rt read (set 0) (Protobuf.unlessDefault (n == 0) (writeUInt32 rt number n)) (set n) := by
  refine Carries.unlessDefault (fun h => by rw [beq_iff_eq.mp h]) fun _ => ?_
  refine Carries.field tag htag fun rest => ?_
  rw [hread, readUInt32_writeUInt32]

/-- Repeated bytes or strings. -/
theorem repeatedDelimited {number : UInt32} (set : List Bytes → M) (tag : UInt32)
    (htag : IsTag number .lengthDelimited tag) {l : List Bytes}
    (hlen : (l.flatMap (writeBytes rt number)).length < 2 ^ 31)
    (h : ∀ xs, ∀ x ∈ l, x.length < 2 ^ 31 → ∀ rest,
      read (set xs) tag (rt.writeDelimited x ++ rest) = some (.success (set (xs ++ [x])) rest)) :
    Carries rt read (set []) (l.flatMap (writeBytes rt number)) (set l) := by
  suffices hmap : Carries rt read (set []) (l.flatMap (writeBytes rt number)) (set (l.map id)) by
    rwa [List.map_id] at hmap
  refine Carries.repeated fun xs x hx => ?_
  have hfield := length_le_flatMap hx (writeBytes rt number)
  have hle := length_le_writeBytes rt number x
  exact Carries.field tag htag (h xs x hx (by omega))

/-- Repeated bytes. -/
theorem repeatedBytes {number : UInt32} (set : List Bytes → M) (tag : UInt32)
    (htag : IsTag number .lengthDelimited tag) {l : List Bytes}
    (hread : ∀ xs s, read (set xs) tag s = some (readBytes rt (fun x => set (xs ++ [x])) s))
    (hlen : (l.flatMap (writeBytes rt number)).length < 2 ^ 31) :
    Carries rt read (set []) (l.flatMap (writeBytes rt number)) (set l) := by
  refine Carries.repeatedDelimited set tag htag hlen fun xs x _ hx rest => ?_
  rw [hread, readBytes_writeDelimited _ hx]

/-- Repeated strings. -/
theorem repeatedStrings {number : UInt32} (set : List Bytes → M) (tag : UInt32)
    (htag : IsTag number .lengthDelimited tag) {l : List Bytes}
    (hread : ∀ xs s, read (set xs) tag s = some (readString rt (fun x => set (xs ++ [x])) s))
    (hlen : (l.flatMap (writeBytes rt number)).length < 2 ^ 31)
    (hvalid : ∀ x ∈ l, rt.isValidUtf8 x = true) :
    Carries rt read (set []) (l.flatMap (writeBytes rt number)) (set l) := by
  refine Carries.repeatedDelimited set tag htag hlen fun xs x hmem hx rest => ?_
  rw [hread, readString_writeDelimited _ hx, if_pos (hvalid x hmem)]

end Carries

namespace Stops

theorem append_right (h : Stops rt read m s m') (s' : Bytes) : Stops rt read m (s ++ s') m' := by
  obtain ⟨k, hk, hs⟩ := h
  refine ⟨k, by rw [List.length_append]; omega, fun fuel rest => ?_⟩
  rw [List.append_assoc, hs]

theorem append_left (h : Carries rt read m s m') (h' : Stops rt read m' s' m'') :
    Stops rt read m (s ++ s') m'' := by
  obtain ⟨k, hk, hs⟩ := h
  obtain ⟨k', hk', hs'⟩ := h'
  refine ⟨k' + k, by rw [List.length_append]; omega, fun fuel rest => ?_⟩
  rw [List.append_assoc, ← Nat.add_assoc, hs, hs']

/-- Many fields of which one cannot be read: only their part of the message has changed. -/
theorem flatMap {l : List α} {write : α → Bytes} (set : N → M) (good : α → Prop)
    (hgood : ∀ n, ∀ x ∈ l, good x → ∃ n', Carries rt read (set n) (write x) (set n'))
    (hbad : ∀ n, ∀ x ∈ l, ¬ good x → ∃ n', Stops rt read (set n) (write x) (set n'))
    (h : ∃ x ∈ l, ¬ good x) (n : N) : ∃ n', Stops rt read (set n) (l.flatMap write) (set n') := by
  induction l generalizing n with
  | nil =>
    obtain ⟨x, hx, -⟩ := h
    exact absurd hx List.not_mem_nil
  | cons x l ih =>
    rw [List.flatMap_cons]
    by_cases hx : good x
    · obtain ⟨n', hcarries⟩ := hgood n x List.mem_cons_self hx
      have hrest : ∃ y ∈ l, ¬ good y := by
        obtain ⟨y, hy, hy'⟩ := h
        rcases List.mem_cons.mp hy with rfl | hy
        · exact absurd hx hy'
        · exact ⟨y, hy, hy'⟩
      obtain ⟨n'', hstops⟩ := ih (fun n y hy => hgood n y (List.mem_cons_of_mem _ hy))
        (fun n y hy => hbad n y (List.mem_cons_of_mem _ hy)) hrest n'
      exact ⟨n'', append_left hcarries hstops⟩
    · obtain ⟨n', hstops⟩ := hbad n x List.mem_cons_self hx
      exact ⟨n', hstops.append_right _⟩

/-- A field that the message knows and cannot read. -/
theorem field {number : UInt32} {t : WireType} (tag : UInt32) (htag : IsTag number t tag)
    (h : ∀ rest, read m tag (s ++ rest) = some (.failure m')) :
    Stops rt read m (rt.writeTag (makeTag number t) ++ s) m' := by
  refine ⟨1, htag.one_le_length s, fun fuel rest => ?_⟩
  rw [List.append_assoc, htag.mergePartial_of_failure (h rest)]

/-- A string that is not valid. -/
theorem string {number : UInt32} (set : Bytes → M) (tag : UInt32)
    (htag : IsTag number .lengthDelimited tag) {x : Bytes}
    (hread : ∀ s, read (set []) tag s = some (readString rt set s))
    (hlen : (unlessDefault x.isEmpty (writeBytes rt number x)).length < 2 ^ 31)
    (hinvalid : ¬ rt.isValidUtf8 x = true) :
    Stops rt read (set []) (unlessDefault x.isEmpty (writeBytes rt number x)) (set x) := by
  have hx := length_le_unlessDefault_writeBytes rt number x
  have hne : x.isEmpty = false := by
    cases x with
    | nil => exact absurd rt.isValidUtf8_nil hinvalid
    | cons b x => rfl
  rw [unlessDefault, hne, if_neg Bool.false_ne_true]
  refine Stops.field tag htag fun rest => ?_
  rw [hread, readString_writeDelimited _ (by omega), if_neg hinvalid]

theorem merge_eq (h : Stops rt read m s m') : merge rt read m s = (false, m') := by
  obtain ⟨k, hk, hs⟩ := h
  have hend := hs (s.length - k + 1) []
  rw [List.append_nil, Nat.add_right_comm, Nat.sub_add_cancel hk] at hend
  exact hend

/-- What comes after the field that cannot be read is lost. -/
theorem parse_eq (h : Stops rt read m s m') (hlen : s.length < 2 ^ 31) :
    parse rt read m (rt.serializeToString s) = m' := by
  rw [rt.serializeToString_of_lt hlen, parse, rt.parseFromString_eq m _ hlen, h.merge_eq]

end Stops

/-- An empty string is parsed into the message that was there. -/
theorem parse_nil : parse rt read m [] = m := by
  rw [parse, rt.parseFromString_eq m _ (by decide), (Carries.nil m).merge_eq]

/-- A message that is too long is lost. -/
theorem parse_serializeToString_of_le (h : 2 ^ 31 ≤ s.length) :
    parse rt read m (rt.serializeToString s) = m := by
  rw [rt.serializeToString_of_le h, parse_nil]

/-! ## Entries of maps -/

section Maps

variable {number : UInt32} {table : UnorderedMap Bytes UInt32}

theorem length_writeMapEntry_lt_of_mem (hlen : (writeMap rt number table).length < 2 ^ 31)
    {e : (_ : Bytes) × UInt32} (he : e ∈ table.entries) :
    (rt.writeMapEntry e.1 e.2).length < 2 ^ 31 := by
  have hfield := length_le_flatMap he fun e =>
    rt.writeTag (makeTag number .lengthDelimited) ++ rt.writeMapEntry e.1 e.2
  rw [List.length_append] at hfield
  rw [writeMap] at hlen
  omega

/-- A map field whose keys are valid strings. -/
theorem Carries.map (set : UnorderedMap Bytes UInt32 → M) (tag : UInt32)
    (htag : IsTag number .lengthDelimited tag)
    (hread : ∀ t s,
      read (set t) tag s = some (readMapEntry rt (set t) (fun id n => set (t.insert id n)) s))
    (hlen : (writeMap rt number table).length < 2 ^ 31) (hvalid : ∀ id ∈ table, rt.isValidUtf8 id = true) :
    Carries rt read (set ∅) (writeMap rt number table) (set (table.mapValues id)) := by
  refine Carries.flatMap (fun t e he => Carries.field tag htag fun rest => ?_) ∅
  have hid : e.1 ∈ table := List.mem_map_of_mem he
  rw [hread, readMapEntry_writeMapEntry _ _ (length_writeMapEntry_lt_of_mem hlen he)]
  exact congrArg some (if_pos (hvalid e.1 hid))

/-- A map field with a key that is not a valid string. -/
theorem Stops.map (set : UnorderedMap Bytes UInt32 → M) (tag : UInt32)
    (htag : IsTag number .lengthDelimited tag)
    (hread : ∀ t s,
      read (set t) tag s = some (readMapEntry rt (set t) (fun id n => set (t.insert id n)) s))
    (hlen : (writeMap rt number table).length < 2 ^ 31) (hinvalid : ¬ ∀ id ∈ table, rt.isValidUtf8 id = true)
    (t : UnorderedMap Bytes UInt32) : ∃ t', Stops rt read (set t) (writeMap rt number table) (set t') := by
  refine Stops.flatMap set (fun e => rt.isValidUtf8 e.1 = true) ?_ ?_ ?_ t
  · intro t e he hgood
    refine ⟨t.insert e.1 e.2, Carries.field tag htag fun rest => ?_⟩
    rw [hread, readMapEntry_writeMapEntry _ _ (length_writeMapEntry_lt_of_mem hlen he)]
    exact congrArg some (if_pos hgood)
  · intro t e he hbad
    refine ⟨t.insert e.1 e.2, Stops.field tag htag fun rest => ?_⟩
    rw [hread, readMapEntry_writeMapEntry _ _ (length_writeMapEntry_lt_of_mem hlen he)]
    exact congrArg some (if_neg hbad)
  · by_contra hall
    refine hinvalid fun id hid => ?_
    obtain ⟨e, he, rfl⟩ := List.mem_map.mp hid
    by_contra hbad
    exact hall ⟨e, he, hbad⟩

end Maps

end Protobuf
