import Fuyao.Cpp.Containers
import Fuyao.Cpp.Strings

/-!
# Messages of protocol buffers

The code that is generated for a message writes its fields one after the other and merges what it reads
into the message field by field. It calls a runtime library for everything else: how tags and the
contents of fields are encoded, how a nested message or an entry of a map is read, which strings are valid
UTF-8, what becomes of unknown fields, and how writing and merging are started. That library is a parameter
(`Runtime`), of which only what is documented is assumed: what has been written is read back.

A field that cannot be read ends the merging, and the message keeps what it has by then.
-/

namespace Protobuf

open Cpp

/-! ## The runtime library -/

/-- The functions that the generated code calls, and their laws. A function that writes is given by the bytes
that it writes, one that reads by what it makes of the rest of the input. -/
structure Runtime where
  /-- `WriteTagToArray`. -/
  writeTag : UInt32 → Bytes
  /-- `ReadTagWithCutoffNoLastTag`: the next tag and what follows it; `none` where it reports 0. -/
  readTag : Bytes → Option (UInt32 × Bytes)
  /-- At the end of the input there is no tag. -/
  readTag_nil : readTag [] = none
  /-- Tags below the cutoff are read back. -/
  readTag_writeTag : ∀ {tag : UInt32}, tag ≠ 0 → tag ≤ 127 → ∀ rest,
    readTag (writeTag tag ++ rest) = some (tag, rest)
  /-- `WriteUInt64NoTagToArray`. -/
  writeUInt64 : UInt64 → Bytes
  /-- `ReadPrimitive<uint64, TYPE_UINT64>`. -/
  readUInt64 : Bytes → Option (UInt64 × Bytes)
  readUInt64_writeUInt64 : ∀ v rest, readUInt64 (writeUInt64 v ++ rest) = some (v, rest)
  /-- `WriteUInt32NoTagToArray`. -/
  writeUInt32 : UInt32 → Bytes
  /-- `ReadPrimitive<uint32, TYPE_UINT32>`. -/
  readUInt32 : Bytes → Option (UInt32 × Bytes)
  readUInt32_writeUInt32 : ∀ v rest, readUInt32 (writeUInt32 v ++ rest) = some (v, rest)
  /-- `WriteDoubleNoTagToArray` of a `double` with these bits. -/
  writeDouble : UInt64 → Bytes
  /-- `ReadPrimitive<double, TYPE_DOUBLE>`: the bits of the `double`. -/
  readDouble : Bytes → Option (UInt64 × Bytes)
  readDouble_writeDouble : ∀ bits rest, readDouble (writeDouble bits ++ rest) = some (bits, rest)
  /-- Bytes, a string or a serialized message, preceded by their length. -/
  writeDelimited : Bytes → Bytes
  /-- `ReadBytes` and `ReadString`: the string afterwards, and what follows it unless it cannot be read. -/
  readBytes : Bytes → Bytes × Option Bytes
  /-- `ReadMessage` with the code that merges the nested message: the nested message afterwards, and what
  follows it unless it cannot be read. -/
  readMessage : {N : Type} → N → (N → Bytes → Bool × N) → Bytes → N × Option Bytes
  length_le_writeDelimited : ∀ x, x.length ≤ (writeDelimited x).length
  readBytes_writeDelimited : ∀ {x : Bytes}, x.length < 2 ^ 31 → ∀ rest,
    readBytes (writeDelimited x ++ rest) = (x, some rest)
  /-- A nested message is merged from the bytes that were written for it, and only from those. -/
  readMessage_writeDelimited : ∀ {N : Type} (n : N) (merge : N → Bytes → Bool × N) {x : Bytes},
    x.length < 2 ^ 31 → ∀ rest, readMessage n merge (writeDelimited x ++ rest) =
      ((merge n x).2, if (merge n x).1 then some rest else none)
  /-- An entry of a map from strings to numbers, written through `NewEntryWrapper`. -/
  writeMapEntry : Bytes → UInt32 → Bytes
  /-- `ReadMessageNoVirtual` into the parser of an entry. -/
  readMapEntry : Bytes → Option ((Bytes × UInt32) × Bytes)
  readMapEntry_writeMapEntry : ∀ {key : Bytes} {value : UInt32},
    (writeMapEntry key value).length < 2 ^ 31 → ∀ rest,
      readMapEntry (writeMapEntry key value ++ rest) = some ((key, value), rest)
  /-- `VerifyUtf8String`. -/
  isValidUtf8 : Bytes → Bool
  isValidUtf8_nil : isValidUtf8 [] = true
  /-- `SkipField`: what follows a field with this tag; `none` if it cannot be skipped. -/
  skipField : UInt32 → Bytes → Option Bytes
  /-- `SerializeToString` of a message for which the generated code writes these bytes. -/
  serializeToString : Bytes → Bytes
  serializeToString_of_lt : ∀ {fields : Bytes}, fields.length < 2 ^ 31 → serializeToString fields = fields
  /-- A message of more than `INT_MAX` bytes leaves the string empty. -/
  serializeToString_of_le : ∀ {fields : Bytes}, 2 ^ 31 ≤ fields.length → serializeToString fields = []
  /-- `ParseFromString` with the code that merges the message: the message afterwards, if it is `m` when it is
  cleared. -/
  parseFromString : {M : Type} → M → (M → Bytes → Bool × M) → Bytes → M
  /-- A message that cannot be parsed keeps what has been merged into it. -/
  parseFromString_eq : ∀ {M : Type} (m : M) (merge : M → Bytes → Bool × M) {s : Bytes},
    s.length < 2 ^ 31 → parseFromString m merge s = (merge m s).2

/-! ## Writing fields -/

/-- The types of contents. -/
inductive WireType where
  /-- A number of variable length. -/
  | varint
  /-- Eight bytes. -/
  | fixed64
  /-- Bytes preceded by their length. -/
  | lengthDelimited

/-- The number of a type in a tag. -/
def WireType.code : WireType → UInt32
  | varint => 0
  | fixed64 => 1
  | lengthDelimited => 2

/-- The tag of the field with this number. -/
def makeTag (number : UInt32) (t : WireType) : UInt32 := number * 8 + t.code

variable (rt : Runtime)

/-- A field that holds a `uint64`. -/
def writeUInt64 (number : UInt32) (v : UInt64) : Bytes :=
  rt.writeTag (makeTag number .varint) ++ rt.writeUInt64 v

/-- A field that holds a `uint32`. -/
def writeUInt32 (number : UInt32) (v : UInt32) : Bytes :=
  rt.writeTag (makeTag number .varint) ++ rt.writeUInt32 v

/-- A field that holds the `double` with these bits. -/
def writeDouble (number : UInt32) (bits : UInt64) : Bytes :=
  rt.writeTag (makeTag number .fixed64) ++ rt.writeDouble bits

/-- A field of bytes, a string or a message that has been serialized. -/
def writeBytes (number : UInt32) (s : Bytes) : Bytes :=
  rt.writeTag (makeTag number .lengthDelimited) ++ rt.writeDelimited s

/-- A map field: one field for each entry. -/
def writeMap (number : UInt32) (map : UnorderedMap Bytes UInt32) : Bytes :=
  map.entries.flatMap fun e => rt.writeTag (makeTag number .lengthDelimited) ++ rt.writeMapEntry e.1 e.2

/-- A field is left out if it has its default value. -/
def unlessDefault (isDefault : Bool) (field : Bytes) : Bytes := if isDefault then [] else field

/-! ## Merging -/

/-- The outcome of reading the contents of a field into a message. -/
inductive Read (M : Type) where
  /-- The contents cannot be read; the message is `m` by then. -/
  | failure (m : M)
  /-- The message is `m` and the input goes on with `rest`. -/
  | success (m : M) (rest : Bytes)

variable {M N : Type}

/-- The `switch` over the fields of a message, by the tag; `none` if the message has no such field. -/
abbrev FieldReader (M : Type) := M → UInt32 → Bytes → Option (Read M)

/-- The loop of `MergePartialFromCodedStream`, and whether it has consumed the input. Every round reads at
least one byte. -/
def mergePartial (read : FieldReader M) : ℕ → M → Bytes → Bool × M
  | 0, m, _ => (false, m)
  | fuel + 1, m, s =>
    match rt.readTag s with
    | none => (s.isEmpty, m)
    | some (tag, s) =>
      match if tag ≤ 127 then read m tag s else none with
      | some (.success m s) => mergePartial read fuel m s
      | some (.failure m) => (false, m)
      | none =>
        match rt.skipField tag s with
        | some s => mergePartial read fuel m s
        | none => (false, m)

/-- `MergePartialFromCodedStream`. -/
def merge (read : FieldReader M) (m : M) (s : Bytes) : Bool × M := mergePartial rt read (s.length + 1) m s

/-- `ParseFromString` into a message that is `m` when it is cleared. -/
def parse (read : FieldReader M) (m : M) (s : Bytes) : M := rt.parseFromString m (merge rt read) s

/-! ## Reading contents -/

/-- A number into a field; a field that cannot be read stays as it is. -/
def readUInt64 (m : M) (set : UInt64 → M) (s : Bytes) : Read M :=
  match rt.readUInt64 s with
  | some (v, s) => .success (set v) s
  | none => .failure m

/-- A number into a field; a field that cannot be read stays as it is. -/
def readUInt32 (m : M) (set : UInt32 → M) (s : Bytes) : Read M :=
  match rt.readUInt32 s with
  | some (v, s) => .success (set v) s
  | none => .failure m

/-- The bits of a `double` into a field; a field that cannot be read stays as it is. -/
def readDouble (m : M) (set : UInt64 → M) (s : Bytes) : Read M :=
  match rt.readDouble s with
  | some (bits, s) => .success (set bits) s
  | none => .failure m

/-- Bytes into a field, which has what `ReadBytes` leaves there even where it fails. -/
def readBytes (set : Bytes → M) (s : Bytes) : Read M :=
  match rt.readBytes s with
  | (x, some s) => .success (set x) s
  | (x, none) => .failure (set x)

/-- A string is checked when it is already in its field. -/
def readString (set : Bytes → M) (s : Bytes) : Read M :=
  match rt.readBytes s with
  | (x, some s) => if rt.isValidUtf8 x then .success (set x) s else .failure (set x)
  | (x, none) => .failure (set x)

/-- A nested message that is `n` before. -/
def readMessage (n : N) (read : FieldReader N) (set : N → M) (s : Bytes) : Read M :=
  match rt.readMessage n (merge rt read) s with
  | (n, some s) => .success (set n) s
  | (n, none) => .failure (set n)

/-- An entry of a map field: the key is checked when the entry is already in the map. An entry that
cannot be read is not entered. -/
def readMapEntry (m : M) (insert : Bytes → UInt32 → M) (s : Bytes) : Read M :=
  match rt.readMapEntry s with
  | some ((key, value), s) =>
    if rt.isValidUtf8 key then .success (insert key value) s else .failure (insert key value)
  | none => .failure m

/-! ## What fields do to a message -/

/-- The fields `s` turn the message `m` into `m'`, whatever follows them. -/
def Carries (read : FieldReader M) (m : M) (s : Bytes) (m' : M) : Prop :=
  ∃ k ≤ s.length, ∀ fuel rest,
    mergePartial rt read (fuel + k) m (s ++ rest) = mergePartial rt read fuel m' rest

/-- The fields `s` end the merging into the message `m` with `m'`, whatever follows them. -/
def Stops (read : FieldReader M) (m : M) (s : Bytes) (m' : M) : Prop :=
  ∃ k ≤ s.length, ∀ fuel rest, mergePartial rt read (fuel + k) m (s ++ rest) = (false, m')

end Protobuf
