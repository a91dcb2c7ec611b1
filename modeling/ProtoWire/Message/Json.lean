import ProtoWire.Bytes.Hex
import ProtoWire.Json.Value
import ProtoWire.Message.Access
import ProtoWire.Number.Decimal
import ProtoWire.Registry.Basic
import ProtoWire.Text.Quoted

/-!
# Messages as JSON

A message is an object whose members are its set fields by name, its extensions
by bracketed full name, and, when printed, its unknown bytes as hexadecimal text.
Bytes are hexadecimal texts, integers must fit the kind of the field, and any
number is taken for a floating-point field.
-/

set_option autoImplicit false

namespace ProtoWire

/-- Why a JSON value is not a message of a type. -/
inductive Unfit where
  | notAnObject (type : String)
  | unknownExtension (name : String)
  | unknownField (type key : String)
  | notAnArray (field : String)
  /-- The field expects something else, described here. -/
  | unexpected (field expected : String)
  | badHex (field : String) (fault : HexFault)
  | unregisteredType (name : String)
  | misuse (error : Misuse)
  /-- The cause lies in the value of a member. -/
  | within (type key : String) (cause : Unfit)
  deriving DecidableEq, Repr

/-- The wording of the error, outermost place first. -/
def Unfit.message : Unfit → String
  | .notAnObject type => "Value of " ++ type ++ " must be a JSON object"
  | .unknownExtension name => "Unknown extension " ++ name
  | .unknownField type key => type ++ " has no field '" ++ key ++ "'"
  | .notAnArray field => "Repeated field '" ++ field ++ "' expects an array"
  | .unexpected field expected => "Field '" ++ field ++ "' expects a " ++ expected
  | .badHex field fault => "Field '" ++ field ++ "': " ++ fault.message
  | .unregisteredType name => "Unregistered message type '" ++ name ++ "'"
  | .misuse error => error.message
  | .within type key cause => "In " ++ type ++ "." ++ key ++ ": " ++ cause.message

namespace Json

/-- The bits of the binary64 number nearest to a number. -/
def toDouble? : Json → Option UInt64
  | .int value => some (UInt64.ofNat (Decimal.toDouble (decide (value < 0)) ⟨value.natAbs, 0⟩))
  | .float bits => some bits
  | _ => none

/-- A number given by the bits of binary64. JSON has finite numbers only, and `null` stands for any
other. -/
def ofDouble (bits : UInt64) : Json :=
  if BinaryFormat.double.isFinite (bits.toNat % BinaryFormat.double.signBit) then .float bits
  else .null

/-- The integer that a number is, if it lies between two bounds. -/
def toInteger? (low high : Int) : Json → Option Int
  | .int value => if low ≤ value ∧ value ≤ high then some value else none
  | _ => none

/-- The name between the brackets of a member that is an extension. -/
def bracketed? (key : String) : Option String :=
  match key.toList with
  | '[' :: rest =>
      match rest.reverse with
      | ']' :: inner => some (String.ofList inner.reverse)
      | _ => none
  | _ => none

end Json

namespace FieldDescriptor

/-- Reads an integer between two bounds. -/
def readInteger (field : FieldDescriptor) (low high : Int) (json : Json) : Except Unfit Int :=
  match json.toInteger? low high with
  | some value => .ok value
  | none => .error (.unexpected field.name (field.kind.name ++ " integer"))

def readInt32 (field : FieldDescriptor) (json : Json) : Except Unfit Int32 :=
  (field.readInteger (-0x80000000) 0x7fffffff json).map Int32.ofInt

def readInt64 (field : FieldDescriptor) (json : Json) : Except Unfit Int64 :=
  (field.readInteger (-0x8000000000000000) 0x7fffffffffffffff json).map Int64.ofInt

def readUInt32 (field : FieldDescriptor) (json : Json) : Except Unfit UInt32 :=
  (field.readInteger 0 0xffffffff json).map UInt32.ofInt

def readUInt64 (field : FieldDescriptor) (json : Json) : Except Unfit UInt64 :=
  (field.readInteger 0 0xffffffffffffffff json).map UInt64.ofInt

/-- Reads a number as binary64 bits. -/
def readDouble (field : FieldDescriptor) (json : Json) : Except Unfit UInt64 :=
  match json.toDouble? with
  | some bits => .ok bits
  | none => .error (.unexpected field.name "number")

/-- Reads one value of a field, with the given reader of nested messages. -/
def readSingle (readMessage : MessageType → Json → Except Unfit Message)
    (registry : Registry) (field : FieldDescriptor) (json : Json) : Except Unfit Value := do
  match field.kind with
  | .bool =>
      match json with
      | .bool value => return .bool value
      | _ => .error (.unexpected field.name "boolean")
  | .enum => return .enum (← field.readInt32 json)
  | .int32 | .sint32 | .sfixed32 => return .int32 (← field.readInt32 json)
  | .uint32 | .fixed32 => return .uint32 (← field.readUInt32 json)
  | .int64 | .sint64 | .sfixed64 => return .int64 (← field.readInt64 json)
  | .uint64 | .fixed64 => return .uint64 (← field.readUInt64 json)
  | .float =>
      let bits ← field.readDouble json
      return .single (UInt32.ofNat (BinaryFormat.convert .double .single bits.toNat))
  | .double => return .double (← field.readDouble json)
  | .string =>
      match json with
      | .string text => return .string text
      | _ => .error (.unexpected field.name "string")
  | .bytes =>
      match json with
      | .string text =>
          match Bytes.ofHex text with
          | .ok bytes => return .bytes bytes
          | .error fault => .error (.badHex field.name fault)
      | _ => .error (.unexpected field.name "hex string")
  | .message | .group =>
      let name := field.messageType.getD ""
      match registry.type? name with
      | some type => return .message (← readMessage type json)
      | none => .error (.unregisteredType name)

/-- Reads the value of a field: an array of values if it is repeated. -/
def readValue (readMessage : MessageType → Json → Except Unfit Message)
    (registry : Registry) (field : FieldDescriptor) (json : Json) : Except Unfit Value := do
  if !field.isRepeated then field.readSingle readMessage registry json
  else
    match json with
    | .array items => return .list (← items.mapM (field.readSingle readMessage registry))
    | _ => .error (.notAnArray field.name)

end FieldDescriptor

namespace Registry

/-- Sets what a member of an object gives. -/
def readMember (readMessage : MessageType → Json → Except Unfit Message)
    (registry : Registry) (message : Message) (key : String) (json : Json) :
    Except Unfit Message := do
  match Json.bracketed? key with
  | some name =>
      match registry.extensionNamed? name with
      | none => .error (.unknownExtension name)
      | some type =>
          let value ← type.descriptor.field.readValue readMessage registry json
          (message.setExtension type value).mapError Unfit.misuse
  | none =>
      match message.type.fields.find? fun field => field.name == key with
      | none => .error (.unknownField message.type.fullName key)
      | some field =>
          let value ← (field.readValue readMessage registry json).mapError
            (Unfit.within message.type.fullName key)
          (message.set field.number value).mapError Unfit.misuse

/-- Reads a message of a type, taking the members of the object one by one. The
number bounds how deeply values nest. -/
def readMessageAt (registry : Registry) : Nat → MessageType → Json → Except Unfit Message
  | 0, type, _ => .error (.notAnObject type.fullName)
  | depth + 1, type, json =>
      match json with
      | .object members =>
          members.foldlM
            (fun message member =>
              registry.readMember (readMessageAt registry depth) message member.1 member.2)
            type.newMessage
      | _ => .error (.notAnObject type.fullName)

/-- Reads a message of a type. Value types and extensions are looked up in the
given registry. -/
def readMessage (registry : Registry) (type : MessageType) (json : Json) :
    Except Unfit Message :=
  registry.readMessageAt json.depth type json

end Registry

/-- A 32-bit number as JSON, which is widened to 64 bits. -/
def singleToJson (bits : UInt32) : Json :=
  .ofDouble (UInt64.ofNat (BinaryFormat.convert .single .double bits.toNat))

mutual

/-- A value as JSON. -/
def Value.toJson : Value → Json
  | .bool value => .bool value
  | .int32 value => .int value.toInt
  | .int64 value => .int value.toInt
  | .uint32 value => .int value.toNat
  | .uint64 value => .int value.toNat
  | .single bits => singleToJson bits
  | .double bits => .ofDouble bits
  | .enum value => .int value.toInt
  | .string text => .string text
  | .bytes content => .string (Bytes.toHex content)
  | .message inner => messageToJson inner
  | .list items => .array (itemsToJson items)

/-- A message as JSON. -/
def messageToJson : MessageOf Value → Json
  | ⟨type, slots, _, unknown, extensions⟩ =>
      let values := slotsToJson slots
      let fields := type.fields.filterMap fun field =>
        match (type.descriptor.position? field.number).bind fun position =>
            (values[position]?).join with
        | some json => some (field.name, json)
        | none => none
      let rest :=
        match unknown with
        | some (byte :: bytes) => [("[unknown]", .string (Bytes.toHex (byte :: bytes)))]
        | _ => []
      .ofMembers (fields ++ extensionsToJson extensions ++ rest)

def itemsToJson : List Value → List Json
  | [] => []
  | item :: items => item.toJson :: itemsToJson items

def slotsToJson : List (Option Value) → List (Option Json)
  | [] => []
  | slot :: slots => slotToJson slot :: slotsToJson slots

def slotToJson : Option Value → Option Json
  | none => none
  | some value => some value.toJson

def extensionsToJson : Option (List (AttachedOf Value)) → List (String × Json)
  | none => []
  | some entries => attachedToJson entries

def attachedToJson : List (AttachedOf Value) → List (String × Json)
  | [] => []
  | entry :: entries => entryToJson entry :: attachedToJson entries

def entryToJson : AttachedOf Value → String × Json
  | ⟨type, value⟩ => ("[" ++ type.fullName ++ "]", value.toJson)

end

/-- A message as a JSON object. -/
def MessageOf.toJson (message : Message) : Json :=
  messageToJson message

end ProtoWire
