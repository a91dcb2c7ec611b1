import ProtoWire.Schema.Descriptor

/-!
# Message types and extension types

A registered message type is its descriptor together with the parts that its
storage provides and the registry that its nested types are looked up in. No
registry holds two types of one name, so types that agree in all of this are one
type.
-/

set_option autoImplicit false

namespace ProtoWire

/-- The position of a registry among those of a store. -/
structure RegistryId where
  index : Nat
  deriving DecidableEq, Repr

/-- Which optional parts every message of a type has. -/
structure Storage where
  /-- A place to keep the size last computed. -/
  sizeCache : Bool
  /-- A place for the bytes of fields that the type does not know. -/
  unknownFields : Bool
  /-- A place for extensions. -/
  extensions : Bool
  deriving DecidableEq, Repr

/-- Storage with every part. -/
def Storage.full : Storage :=
  ⟨true, true, true⟩

/-- A message type as registered. -/
structure MessageType where
  descriptor : MessageDescriptor
  storage : Storage
  registry : RegistryId
  deriving DecidableEq, Repr

namespace MessageType

def fullName (type : MessageType) : String :=
  type.descriptor.fullName

/-- The declared fields, in order of declaration. -/
def fields (type : MessageType) : List FieldDescriptor :=
  type.descriptor.fields

end MessageType

/-- An extension as registered, with the type of its values resolved. -/
structure ExtensionType where
  descriptor : ExtensionDescriptor
  /-- The type of the values of a message or group extension. -/
  valueType : Option MessageType
  deriving DecidableEq, Repr

namespace ExtensionType

def fullName (type : ExtensionType) : String :=
  type.descriptor.fullName

def extendee (type : ExtensionType) : String :=
  type.descriptor.extendee

def number (type : ExtensionType) : Nat :=
  type.descriptor.field.number

end ExtensionType

end ProtoWire
