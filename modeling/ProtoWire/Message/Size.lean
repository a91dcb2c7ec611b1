import ProtoWire.Message.Access
import ProtoWire.Message.Scalar
import ProtoWire.Registry.Store

/-!
# Encoded sizes

The size of a message is the number of bytes its encoding has. Sizing never
fails on a value: one that cannot be encoded counts as nothing. A computed size
is kept in the size cache of the message, and sizing that trusts the caches
takes a size from there without looking inside.

Sizing a message needs the sizes of the messages in it, so each function here
takes the sizer of nested messages as a parameter; `measureAt` supplies it, one
level of nesting after the other.
-/

set_option autoImplicit false

namespace ProtoWire

namespace FieldCodec

/-- The message that a value is, if it is of the field's type. -/
def instance? (codec : FieldCodec) : Value → Option Message
  | .message message => if codec.valueType = some message.type then some message else none
  | _ => none

/-- The payload of one value, with an error at its position otherwise. -/
def payloadAt (codec : FieldCodec) (position : Nat) (value : Value) :
    Except Unencodable Payload :=
  match codec.kind.payload? value with
  | some payload => .ok payload
  | none => .error ((Unencodable.here (.wrongVariant codec.kind)).under (.index position))

/-- The payloads of a list of values, of which the first has the given position. -/
def payloads (codec : FieldCodec) : Nat → List Value → Except Unencodable (List Payload)
  | _, [] => .ok []
  | position, value :: values =>
      match codec.payloadAt position value with
      | .error error => .error error
      | .ok payload =>
          match payloads codec (position + 1) values with
          | .error error => .error error
          | .ok rest => .ok (payload :: rest)

/-- The size of one scalar value with its tag, nothing for another variant. -/
def recordSize (codec : FieldCodec) (value : Value) : Nat :=
  match codec.kind.payload? value with
  | some payload => codec.tagSize + payload.size
  | none => 0

/-- The size of some scalar values, each with its tag. -/
def recordsSize (codec : FieldCodec) : List Value → Nat
  | [] => 0
  | value :: values => codec.recordSize value + recordsSize codec values

/-- The size of a scalar field. -/
def scalarSize (codec : FieldCodec) (value : Value) : Nat :=
  match codec.arrangement with
  | .implicit =>
      match codec.kind.payload? value with
      | some payload => if payload.isZero then 0 else codec.tagSize + payload.size
      | none => 0
  | .explicit => codec.recordSize value
  | .expanded => codec.recordsSize (Value.items value)
  | .packed =>
      match Value.items value with
      | [] => 0
      | items =>
          match codec.payloads 0 items with
          | .error _ => 0
          | .ok payloads =>
              let body := Payload.totalSize payloads
              codec.tagSize + Varint.size body + body

/-- The size of one value of a message or group field. -/
def nestedSize (measure : Message → Coding (Message × Nat)) (codec : FieldCodec) (value : Value) :
    Coding (Value × Nat) := do
  match codec.instance? value with
  | none => return (value, 0)
  | some message =>
      let (message, body) ← measure message
      if codec.kind = .group then return (.message message, 2 * codec.tagSize + body)
      else return (.message message, codec.tagSize + Varint.size body + body)

/-- The sizes of a list of values, added up. -/
def sizeEach (size : Value → Coding (Value × Nat)) : List Value → Coding (List Value × Nat)
  | [] => return ([], 0)
  | value :: values => do
      let (value, first) ← size value
      let (values, rest) ← sizeEach size values
      return (value :: values, first + rest)

/-- The size of a field's value, tags included. -/
def size (measure : Message → Coding (Message × Nat)) (codec : FieldCodec) (value : Value) :
    Coding (Value × Nat) := do
  if !codec.kind.isMessage then return (value, codec.scalarSize value)
  else if codec.arrangement.isRepeated then
    match value with
    | .list items =>
        let (items, total) ← sizeEach (codec.nestedSize measure) items
        return (.list items, total)
    | _ => return (value, 0)
  else codec.nestedSize measure value

end FieldCodec

namespace MessageOf

/-- The sizes of the fields of some entries, added up. -/
def sizeFields (measure : Message → Coding (Message × Nat)) :
    List FieldEntry → Message → Coding (Message × Nat)
  | [], message => return (message, 0)
  | entry :: entries, message => do
      match message.slot? entry.position with
      | none => sizeFields measure entries message
      | some value =>
          let (value, first) ← entry.codec.size measure value
          let (message, rest) ←
            sizeFields measure entries (message.putSlot entry.position (some value))
          return (message, first + rest)

/-- The sizes of the extensions of a message of type `owner`, added up. -/
def sizeAttached (measure : Message → Coding (Message × Nat)) (owner : MessageType) :
    List Attached → Coding (List Attached × Nat)
  | [] => return ([], 0)
  | entry :: entries => do
      let codec ← Coding.extensionCodec owner entry.type
      let (value, first) ← codec.size measure entry.value
      let (entries, rest) ← sizeAttached measure owner entries
      return (⟨entry.type, value⟩ :: entries, first + rest)

/-- The message that an item of a message set holds. -/
def itemMessage (entry : Attached) : Except ValueFault Message :=
  match entry.value with
  | .message message =>
      if entry.type.valueType = some message.type then .ok message
      else .error .wrongMessageType
  | _ => .error .itemNotMessage

/-- The bytes of an item besides its type number and its message: the tags that
start and end it, and those of its two parts. -/
def itemTags : Nat := 4

/-- The sizes of the items of a message set, added up. -/
def sizeItems (measure : Message → Coding (Message × Nat)) (owner : MessageType) :
    List Attached → Coding (List Attached × Nat)
  | [] => return ([], 0)
  | entry :: entries => do
      let _ ← Coding.extensionCodec owner entry.type
      match itemMessage entry with
      | .error _ =>
          let (entries, rest) ← sizeItems measure owner entries
          return (entry :: entries, rest)
      | .ok message =>
          let (message, body) ← measure message
          let (entries, rest) ← sizeItems measure owner entries
          return (⟨entry.type, .message message⟩ :: entries,
            itemTags + Varint.size entry.type.number + Varint.size body + body + rest)

/-- The size of a message's content; it is kept in the size cache. -/
def sizeBody (measure : Message → Coding (Message × Nat)) (table : FieldTable) (message : Message) :
    Coding (Message × Nat) := do
  let unknown := (message.unknown.getD []).length
  if table.isMessageSet then
    let (entries, items) ← sizeItems measure message.type message.attached
    let message := { message with extensions := message.extensions.map fun _ => entries }
    return (message.storeSize (items + unknown), items + unknown)
  else
    let (entries, extensions) ← sizeAttached measure message.type message.attached
    let message := { message with extensions := message.extensions.map fun _ => entries }
    let (message, fields) ← sizeFields measure table.writingOrder message
    return (message.storeSize (extensions + fields + unknown), extensions + fields + unknown)

/-- The size of a message whose table can be built. With `trust`, a size in the
cache is taken without asking for the table. -/
def measureWith (measure : Message → Coding (Message × Nat)) (trust : Bool) (message : Message) :
    Coding (Message × Except Unbuildable Nat) := do
  match if trust then message.cache.get? else none with
  | some size => return (message, .ok size)
  | none =>
      match ← Coding.table message.type with
      | .error error => return (message, .error error)
      | .ok table =>
          let (message, size) ← sizeBody measure table message
          return (message, .ok size)

/-- Takes the size of a message whose table cannot be built for zero. -/
def orZero (sized : Message × Except Unbuildable Nat) : Message × Nat :=
  (sized.1, sized.2.toOption.getD 0)

/-- The size of a nested message, zero if its table cannot be built. The number
bounds how deeply messages nest in it. -/
def measureAt (trust : Bool) : Nat → Message → Coding (Message × Nat)
  | 0, message => orZero <$> measureWith (fun inner => return (inner, 0)) trust message
  | depth + 1, message => orZero <$> measureWith (measureAt trust depth) trust message

/-- The size of a message. -/
def size (trust : Bool) (message : Message) : Coding (Message × Except Unbuildable Nat) :=
  measureWith (measureAt trust message.height) trust message

end MessageOf

end ProtoWire
