import ProtoWire.Wire.Fault
import ProtoWire.Schema.Kind

/-!
# Failures

Four things can go wrong: the table of a type cannot be built, a value cannot be
encoded, input cannot be decoded (`Malformed`), or an operation does not fit the
schema. Each is a cause with its place; the wording is a function of the cause.
-/

set_option autoImplicit false

namespace ProtoWire

/-- What is wrong with a message type. -/
inductive Defect where
  /-- A message set without a place for extensions. -/
  | messageSetNoExtensions
  /-- A message set without a place for unknown fields. -/
  | messageSetNoUnknown
  /-- A message set that declares fields. -/
  | messageSetFields
  | fieldNumberOutOfRange
  | duplicateFieldNumber
  | oneofOutOfRange
  | repeatedOneofMember
  /-- A message or group field that names no type. -/
  | missingMessageType
  /-- A message or group field whose type the registry does not hold. -/
  | unregisteredMessageType
  /-- The registry of the type is gone. -/
  | registryDropped
  deriving DecidableEq, Repr

/-- The wording of a defect. -/
def Defect.message : Defect → String
  | .messageSetNoExtensions => "MessageSet with no extensions slot"
  | .messageSetNoUnknown => "MessageSet with no unknown-fields slot"
  | .messageSetFields => "MessageSet declares regular fields"
  | .fieldNumberOutOfRange => "Field number out of range"
  | .duplicateFieldNumber => "Duplicate field number"
  | .oneofOutOfRange => "Oneof index out of range"
  | .repeatedOneofMember => "Oneof member cannot be repeated"
  | .missingMessageType => "Message field has no message type"
  | .unregisteredMessageType => "Unregistered message type"
  | .registryDropped => "Registry no longer exists"

/-- Why the table of a type cannot be built. -/
structure Unbuildable where
  /-- The full name of the defective type. -/
  messageType : String
  /-- The number of the defective field, if it is one field's defect. -/
  field : Option Nat
  defect : Defect
  deriving DecidableEq, Repr

/-- The wording of the error, with the type and the field it is about. -/
def Unbuildable.message (error : Unbuildable) : String :=
  "Cannot build coder table for " ++ error.messageType ++
    (match error.field with
      | some number => " (field " ++ toString number ++ ")"
      | none => "") ++
    ": " ++ error.defect.message

/-- What is wrong with a value that should be encoded. -/
inductive ValueFault where
  /-- A repeated field does not hold a list. -/
  | notAList
  /-- A field of this kind holds a value of another variant. -/
  | wrongVariant (kind : Kind)
  /-- A message is not of the declared type. -/
  | wrongMessageType
  /-- An extension in a message set does not hold a message. -/
  | itemNotMessage
  /-- The table of a nested message type cannot be built. -/
  | nestedTable
  deriving DecidableEq, Repr

/-- The variant that a field of a kind should hold, as diagnostics put it. -/
def Kind.variantName : Kind → String
  | .bool => "Bool"
  | .enum => "Enum"
  | .int32 | .sint32 | .sfixed32 => "I32"
  | .uint32 | .fixed32 => "U32"
  | .int64 | .sint64 | .sfixed64 => "I64"
  | .uint64 | .fixed64 => "U64"
  | .float => "F32"
  | .double => "F64"
  | .string => "a string"
  | .bytes => "bytes"
  | .message | .group => "a message"

/-- The wording of a fault. -/
def ValueFault.message : ValueFault → String
  | .notAList => "Repeated field is not a list"
  | .wrongVariant kind => kind.name ++ " field is not " ++ kind.variantName
  | .wrongMessageType => "Message is of the wrong type"
  | .itemNotMessage => "Message set item is not a message"
  | .nestedTable => "Nested message type has no coder table"

/-- A value that cannot be encoded, together with its place. -/
structure Unencodable where
  fault : ValueFault
  path : Path
  deriving DecidableEq, Repr

namespace Unencodable

/-- A fault of the value at hand. -/
def here (fault : ValueFault) : Unencodable :=
  ⟨fault, []⟩

/-- The same error seen from one level further out. -/
def under (step : PathStep) (error : Unencodable) : Unencodable :=
  { error with path := step :: error.path }

/-- The wording of the error, its path included. -/
def message (error : Unencodable) : String :=
  "EncodeError(" ++ error.path.text ++ "): " ++ error.fault.message

end Unencodable

/-- An operation that does not fit the schema. -/
inductive Misuse where
  | duplicateType (name : String)
  | invalidExtensionNumber (extension : String) (number : Nat)
  | extensionInOneof (extension : String)
  | unregisteredValueType (extension type : String)
  | duplicateExtensionName (name : String)
  | duplicateExtension (number : Nat) (extendee : String)
  | noField (type : String) (number : Nat)
  | noUnknownFields (type : String)
  | wrongExtendee (extension type : String)
  | outsideExtensionRanges (number : Nat) (type : String)
  | noExtensions (type : String)
  | cannotMerge (source target : String)
  deriving DecidableEq, Repr

/-- The wording of a misuse. -/
def Misuse.message : Misuse → String
  | .duplicateType name => "Duplicate message type: " ++ name
  | .invalidExtensionNumber extension number =>
      "Extension " ++ extension ++ " has invalid number " ++ toString number
  | .extensionInOneof extension => "Extension " ++ extension ++ " cannot be a oneof member"
  | .unregisteredValueType extension type =>
      "Extension " ++ extension ++ " has unregistered message type '" ++ type ++ "'"
  | .duplicateExtensionName name => "Duplicate extension name: " ++ name
  | .duplicateExtension number extendee =>
      "Duplicate extension " ++ toString number ++ " of " ++ extendee
  | .noField type number => type ++ " has no field " ++ toString number
  | .noUnknownFields type => type ++ " has no unknown-fields slot"
  | .wrongExtendee extension type => extension ++ " does not extend " ++ type
  | .outsideExtensionRanges number type =>
      toString number ++ " is outside the extension ranges of " ++ type
  | .noExtensions type => type ++ " has no extensions slot"
  | .cannotMerge source target => "Cannot merge " ++ source ++ " into " ++ target

/-- A failed operation. -/
inductive Failure where
  | build (error : Unbuildable)
  | encode (error : Unencodable)
  | decode (error : Malformed)
  | schema (error : Misuse)
  deriving DecidableEq, Repr

namespace Failure

/-- The class of a failure. -/
def className : Failure → String
  | .build _ => "Build"
  | .encode _ => "Encode"
  | .decode _ => "Decode"
  | .schema _ => "Schema"

/-- The wording of a failure. -/
def message : Failure → String
  | .build error => error.message
  | .encode error => error.message
  | .decode error => error.message
  | .schema error => error.message

/-- The wording of the bare fault, for failures that place a fault. -/
def reason? : Failure → Option String
  | .build error => some error.defect.message
  | .encode error => some error.fault.message
  | .decode error => some error.fault.message
  | .schema _ => none

/-- The wording of a failure and of what it wraps. A failure that places a fault
wraps the placed fault, whose wording is the same. -/
def report : Failure → String
  | .schema error => error.message
  | failure => failure.message ++ ": " ++ failure.message

/-- The class and the quoted message; nothing in it is escaped. -/
def debugText (failure : Failure) : String :=
  failure.className ++ ": \"" ++ failure.message ++ "\""

end Failure

end ProtoWire
