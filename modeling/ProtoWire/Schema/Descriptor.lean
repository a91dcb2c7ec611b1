import ProtoWire.Schema.Kind

/-!
# Descriptors

A descriptor declares a message type: its fields, the oneofs they belong to, and
the numbers left open for extensions. An extension is a field declared apart
from the type it extends.
-/

set_option autoImplicit false

namespace ProtoWire

/-- How many values a field may hold. -/
inductive Cardinality where
  | optional
  | required
  | repeated
  deriving DecidableEq, Repr

/-- The generation of the schema language. In the third, an unset singular
scalar cannot be told from its zero value. -/
inductive Generation where
  | proto2
  | proto3
  | editions
  deriving DecidableEq, Repr

/-- The declaration of one field. -/
structure FieldDescriptor where
  name : String
  number : Nat
  kind : Kind
  cardinality : Cardinality
  /-- Asks for one record for all values; heeded for repeated numeric fields. -/
  packed : Bool
  /-- The position of the oneof the field belongs to. -/
  oneof : Option Nat
  /-- The full name of the value type of a message or group field. -/
  messageType : Option String
  deriving DecidableEq, Repr

/-- The declaration of a oneof. A synthetic one wraps a single optional field,
which keeps its place among the regular fields. -/
structure OneofDescriptor where
  name : String
  synthetic : Bool
  deriving DecidableEq, Repr

/-- The declaration of a message type. -/
structure MessageDescriptor where
  fullName : String
  generation : Generation
  fields : List FieldDescriptor
  oneofs : List OneofDescriptor
  /-- Ranges of extension numbers, each from its start up to but not its end. -/
  extensionRanges : List (Nat × Nat)
  /-- Asks for the message-set form, which holds extensions only. -/
  messageSet : Bool
  deriving DecidableEq, Repr

/-- The declaration of an extension. -/
structure ExtensionDescriptor where
  fullName : String
  /-- The full name of the extended message type. -/
  extendee : String
  field : FieldDescriptor
  deriving DecidableEq, Repr

namespace FieldDescriptor

/-- A singular optional field. -/
def plain (name : String) (number : Nat) (kind : Kind) : FieldDescriptor :=
  ⟨name, number, kind, .optional, false, none, none⟩

def isRepeated (field : FieldDescriptor) : Bool :=
  field.cardinality == .repeated

def isRequired (field : FieldDescriptor) : Bool :=
  field.cardinality == .required

/-- Packing applies to repeated fields of numeric kinds. -/
def isPacked (field : FieldDescriptor) : Bool :=
  field.packed && field.isRepeated && field.kind.isPackable

/-- Whether an unset singular value can be told from the zero value. -/
def hasPresence (field : FieldDescriptor) (generation : Generation) : Bool :=
  !field.isRepeated &&
    (field.kind.isMessage || generation != .proto3 || field.oneof.isSome)

/-- Whether the field holds nothing until it is set. -/
def mayBeAbsent (field : FieldDescriptor) (generation : Generation) : Bool :=
  field.isRepeated || field.hasPresence generation

/-- The declared value type, for message and group fields. -/
def valueTypeName? (field : FieldDescriptor) : Option String :=
  if field.kind.isMessage then field.messageType else none

end FieldDescriptor

namespace MessageDescriptor

/-- A type with no fields. -/
def empty (fullName : String) (generation : Generation) : MessageDescriptor :=
  ⟨fullName, generation, [], [], [], false⟩

/-- Whether a number lies in one of the extension ranges. -/
def isExtensionNumber (descriptor : MessageDescriptor) (number : Nat) : Bool :=
  descriptor.extensionRanges.any fun range => range.1 ≤ number && number < range.2

/-- The position of the oneof that moves a field behind all other fields: the
oneof it belongs to, unless that is synthetic. -/
def relocatingOneof? (descriptor : MessageDescriptor) (field : FieldDescriptor) : Option Nat :=
  match field.oneof with
  | none => none
  | some index =>
      match descriptor.oneofs[index]? with
      | some oneof => if oneof.synthetic then none else some index
      | none => none

/-- The position of the field a number stands for. If a number is declared
more than once, it stands for the last such field. -/
def position? (descriptor : MessageDescriptor) (number : Nat) : Option Nat :=
  (descriptor.fields.zipIdx.reverse.find? fun entry => entry.1.number == number).map (·.2)

end MessageDescriptor

end ProtoWire
