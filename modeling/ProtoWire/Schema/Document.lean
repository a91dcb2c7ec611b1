import ProtoWire.Json.Written
import ProtoWire.Schema.MessageType

/-!
# Schemas as JSON

A schema document lists message descriptors, each with the parts its storage
provides, and then extension descriptors. A record is an object with known
members, in which unknown ones are passed over and known ones occur at most once,
or an array of the values of its members in their order, of which the last ones
may be missing. Whether a missing member is an error depends on the member.

What is passed over needs no meaning: it may hold numbers of any size, halves of
surrogate pairs, and arrays in any depth. Message types are stricter. All their
members except the storage must have a value, and in return an empty object
stands for `null` behind the name of a kind, cardinality or generation.
-/

set_option autoImplicit false

namespace ProtoWire.Document

/-- The values of a record's members. -/
def recordOf (names : List String) : Written → Option (List (Option Written))
  | .object members => do
      let members ← Written.named? members
      names.mapM fun name =>
        match members.filter fun member => member.1 == name with
        | [] => some none
        | [(_, value)] => some (some value)
        | _ => none
  | .array items =>
      if items.length ≤ names.length then
        some ((List.range names.length).map fun position => items[position]?)
      else none
  | .scalar _ => none

/-- A member that must be there. -/
def required {α : Type} (read : Written → Option α) : Option Written → Option α
  | some written => read written
  | none => none

/-- A member that has a default. -/
def withDefault {α : Type} (read : Written → Option α) (default : α) : Option Written → Option α
  | some written => read written
  | none => some default

/-- A value or `null`. -/
def nullable {α : Type} (read : Written → Option α) : Written → Option (Option α)
  | .scalar .null => some none
  | written => (read written).map some

def readText (written : Written) : Option String :=
  match written.scalarValue? with
  | some (.string text) => some text
  | _ => none

def readBool : Written → Option Bool
  | .scalar (.bool value) => some value
  | _ => none

/-- An integer from zero up to but not including a limit. -/
def readBelow (limit : Nat) (written : Written) : Option Nat :=
  match written.scalarValue? with
  | some (.int value) => if 0 ≤ value ∧ value < limit then some value.toNat else none
  | _ => none

/-- An unsigned number of 32 bits. -/
def readWord : Written → Option Nat :=
  readBelow UInt32.size

/-- A position, which has 64 bits. -/
def readPosition : Written → Option Nat :=
  readBelow UInt64.size

def readList {α : Type} (read : Written → Option α) : Written → Option (List α)
  | .array items => items.mapM read
  | _ => none

/-- What stands behind a name that says all by itself. -/
inductive Filler where
  /-- Nothing but `null`. -/
  | null
  /-- The value `null` or an empty object. -/
  | nullOrEmpty
  deriving DecidableEq, Repr

/-- Whether a filler may be written like this. -/
def Filler.allows : Filler → Written → Bool
  | _, .scalar .null => true
  | .nullOrEmpty, .object [] => true
  | _, _ => false

/-- One of some named values, given by its name or by an object whose only
member has that name and a filler. -/
def readNamed {α : Type} (values : List (String × α)) (filler : Filler) : Written → Option α
  | .object [(name, written)] => do
      if filler.allows written then values.lookup (← Json.textOf? name) else none
  | written => do values.lookup (← readText written)

/-- The names of the kinds. -/
def kindNames : List (String × Kind) :=
  Kind.all.map fun kind => (kind.name.toLower, kind)

def cardinalityNames : List (String × Cardinality) :=
  [("optional", .optional), ("required", .required), ("repeated", .repeated)]

def generationNames : List (String × Generation) :=
  [("proto2", .proto2), ("proto3", .proto3), ("editions", .editions)]

/-- A half-open range of numbers, as an array of two. -/
def readRange : Written → Option (Nat × Nat)
  | .array [start, stop] => do return (← readWord start, ← readWord stop)
  | _ => none

def readField (filler : Filler) (written : Written) : Option FieldDescriptor := do
  match ← recordOf
      ["name", "number", "kind", "cardinality", "packed", "oneof", "message_type"] written with
  | [name, number, kind, cardinality, packed, oneof, messageType] =>
      return {
        name := ← required readText name
        number := ← required readWord number
        kind := ← required (readNamed kindNames filler) kind
        cardinality := ← withDefault (readNamed cardinalityNames filler) .optional cardinality
        packed := ← withDefault readBool false packed
        oneof := ← withDefault (nullable readPosition) none oneof
        messageType := ← withDefault (nullable readText) none messageType }
  | _ => none

def readOneof (written : Written) : Option OneofDescriptor := do
  match ← recordOf ["name", "synthetic"] written with
  | [name, synthetic] =>
      return {
        name := ← required readText name
        synthetic := ← withDefault readBool false synthetic }
  | _ => none

/-- The generation that a member named `syntax` gives. -/
def readGeneration (filler : Filler) : Option Written → Option Generation :=
  withDefault (readNamed generationNames filler) .proto2

def readMessage (filler : Filler) (written : Written) : Option MessageDescriptor := do
  match ← recordOf
      ["full_name", "syntax", "fields", "oneofs", "extension_ranges",
        "message_set_wire_format"] written with
  | [fullName, generation, fields, oneofs, ranges, messageSet] =>
      return {
        fullName := ← required readText fullName
        generation := ← readGeneration filler generation
        fields := ← withDefault (readList (readField filler)) [] fields
        oneofs := ← withDefault (readList readOneof) [] oneofs
        extensionRanges := ← withDefault (readList readRange) [] ranges
        messageSet := ← withDefault readBool false messageSet }
  | _ => none

def readExtension (written : Written) : Option ExtensionDescriptor := do
  match ← recordOf ["full_name", "extendee", "field"] written with
  | [fullName, extendee, field] =>
      return {
        fullName := ← required readText fullName
        extendee := ← required readText extendee
        field := ← required (readField .null) field }
  | _ => none

/-- The parts of a storage; parts that are not mentioned are provided. -/
def readStorage (written : Written) : Option Storage := do
  match ← recordOf ["size_cache", "unknown_fields", "extensions"] written with
  | [sizeCache, unknownFields, extensions] =>
      return {
        sizeCache := ← withDefault readBool true sizeCache
        unknownFields := ← withDefault readBool true unknownFields
        extensions := ← withDefault readBool true extensions }
  | _ => none

/-- How deeply the members of a message type may nest: a schema, its list of
messages and the message type itself surround them. -/
def maxMemberDepth : Nat := Json.maxDepth - 3

/-- A message type of a schema. Its storage is one member more, so that the
record is always an object. -/
def readEntry (written : Written) : Option (MessageDescriptor × Storage) := do
  match written with
  | .object members =>
      let described := (← Written.named? members).filter fun member => member.1 != "layout"
      if described.all fun member => (member.2.value? maxMemberDepth).isSome then
        match ← recordOf ["layout"] written with
        | [layout] =>
            return (← readMessage .nullOrEmpty written,
              ← withDefault readStorage Storage.full layout)
        | _ => none
      else none
  | _ => none

end Document

/-- What a schema document declares. -/
structure Schema where
  messages : List (MessageDescriptor × Storage)
  extensions : List ExtensionDescriptor
  deriving DecidableEq, Repr

/-- Reads a schema document. -/
def Schema.ofWritten (written : Written) : Option Schema := do
  match ← Document.recordOf ["messages", "extensions"] written with
  | [messages, extensions] =>
      return {
        messages := ← Document.withDefault (Document.readList Document.readEntry) [] messages
        extensions :=
          ← Document.withDefault (Document.readList Document.readExtension) [] extensions }
  | _ => none

end ProtoWire
