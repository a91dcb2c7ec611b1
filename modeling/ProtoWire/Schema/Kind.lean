import ProtoWire.Wire.Tag

/-!
# Kinds of field

The kind of a field fixes the values it holds and how one of them is framed on
the wire.
-/

set_option autoImplicit false

namespace ProtoWire

/-- The type of one value of a field. -/
inductive Kind where
  | bool
  | enum
  | int32
  | sint32
  | uint32
  | int64
  | sint64
  | uint64
  | fixed32
  | sfixed32
  | float
  | fixed64
  | sfixed64
  | double
  | string
  | bytes
  | message
  | group
  deriving DecidableEq, Repr

namespace Kind

/-- Every kind, in the order of declaration. -/
def all : List Kind :=
  [.bool, .enum, .int32, .sint32, .uint32, .int64, .sint64, .uint64, .fixed32, .sfixed32,
    .float, .fixed64, .sfixed64, .double, .string, .bytes, .message, .group]

/-- The capitalised name of a kind, as diagnostics show it. -/
def name : Kind → String
  | .bool => "Bool"
  | .enum => "Enum"
  | .int32 => "Int32"
  | .sint32 => "Sint32"
  | .uint32 => "Uint32"
  | .int64 => "Int64"
  | .sint64 => "Sint64"
  | .uint64 => "Uint64"
  | .fixed32 => "Fixed32"
  | .sfixed32 => "Sfixed32"
  | .float => "Float"
  | .fixed64 => "Fixed64"
  | .sfixed64 => "Sfixed64"
  | .double => "Double"
  | .string => "String"
  | .bytes => "Bytes"
  | .message => "Message"
  | .group => "Group"

/-- The wire type of a single value that is not packed with others. -/
def wireType : Kind → WireType
  | .bool | .enum | .int32 | .sint32 | .uint32 | .int64 | .sint64 | .uint64 => .varint
  | .fixed32 | .sfixed32 | .float => .fixed32
  | .fixed64 | .sfixed64 | .double => .fixed64
  | .string | .bytes | .message => .lengthDelimited
  | .group => .startGroup

/-- The kinds whose values are messages. -/
def isMessage : Kind → Bool
  | .message | .group => true
  | _ => false

/-- The numeric kinds, whose values may share one record. -/
def isPackable : Kind → Bool
  | .string | .bytes | .message | .group => false
  | _ => true

end Kind

end ProtoWire
