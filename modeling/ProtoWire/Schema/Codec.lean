import ProtoWire.Schema.MessageType

/-!
# Field codecs

A codec says how the values of one field or extension are laid out on the wire:
the number and wire type of the tag, the kind of the values, and whether they
are packed, repeated, or left out when zero.
-/

set_option autoImplicit false

namespace ProtoWire

/-- How the values of a field are laid out, whatever their kind. -/
inductive Arrangement where
  /-- One value, left out when it is zero. -/
  | implicit
  /-- One value, written whenever it is set. -/
  | explicit
  /-- All values in one length-delimited record. -/
  | packed
  /-- One record for each value. -/
  | expanded
  deriving DecidableEq, Repr

namespace Arrangement

/-- The arrangement of a field that has presence or not. -/
def ofField (field : FieldDescriptor) (hasPresence : Bool) : Arrangement :=
  if field.isPacked then .packed
  else if field.isRepeated then .expanded
  else if hasPresence then .explicit
  else .implicit

def isRepeated : Arrangement → Bool
  | .packed | .expanded => true
  | .implicit | .explicit => false

/-- The name of an arrangement, as diagnostics show it. -/
def name : Arrangement → String
  | .implicit => "Implicit"
  | .explicit => "Explicit"
  | .packed => "Packed"
  | .expanded => "Expanded"

end Arrangement

/-- How one field is written and read. -/
structure FieldCodec where
  number : Nat
  kind : Kind
  arrangement : Arrangement
  /-- The type of the values of a message or group field. -/
  valueType : Option MessageType
  deriving DecidableEq, Repr

namespace FieldCodec

/-- The wire type of the field's tag when it is written. -/
def wireType (codec : FieldCodec) : WireType :=
  match codec.arrangement with
  | .packed => .lengthDelimited
  | _ => codec.kind.wireType

/-- The tag in front of each record. -/
def tag (codec : FieldCodec) : Bytes :=
  Tag.write codec.number codec.wireType

/-- The number of bytes of the tag. -/
def tagSize (codec : FieldCodec) : Nat :=
  Tag.size codec.number codec.wireType

/-- The tag that ends a group. -/
def endTag (codec : FieldCodec) : Bytes :=
  Tag.write codec.number .endGroup

/-- Whether a record of a wire type can hold values of the field. Repeated
numeric fields take their values packed or one by one, however they are written. -/
def accepts (codec : FieldCodec) (wire : WireType) : Bool :=
  wire == codec.kind.wireType ||
    (codec.arrangement.isRepeated && codec.kind.isPackable && wire == .lengthDelimited)

end FieldCodec

/-- The codec of an extension. A singular one always has presence. -/
def ExtensionType.codec (type : ExtensionType) : FieldCodec where
  number := type.number
  kind := type.descriptor.field.kind
  arrangement := .ofField type.descriptor.field true
  valueType := type.valueType

end ProtoWire
