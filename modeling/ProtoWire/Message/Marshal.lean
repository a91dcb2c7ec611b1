import ProtoWire.Message.Output
import ProtoWire.Message.Size

/-!
# Marshaling

The encoding of a message is its extensions in ascending order of number, its
fields in the writing order of its table, and its unknown bytes as they are. A
message field is framed by the size of its content, a group by start and end
tags. In a message set each extension is an item: a group of number one that
holds the extension's number and the encoding of its message.

As in sizing, the functions take the writer of nested messages as a parameter,
which `marshalAt` supplies. What is returned beside the output is the subject
with the sizes that were worked out on the way.
-/

set_option autoImplicit false

namespace ProtoWire

/-- How messages inside a message are sized and written. -/
structure NestedWriter where
  measure : Message → Coding (Message × Nat)
  write : Message → Coding (Message × Output)

namespace FieldCodec

/-- One scalar value behind its tag. -/
def writeRecord (codec : FieldCodec) (value : Value) : Output :=
  match codec.kind.payload? value with
  | some payload => .ofBytes (codec.tag ++ payload.write)
  | none => .failHere (.wrongVariant codec.kind)

/-- Scalar values one by one, each behind its tag; the first has the given
position. -/
def writeRecords (codec : FieldCodec) : Nat → List Value → Output
  | _, [] => .empty
  | position, value :: values =>
      ((codec.writeRecord value).under (.index position)).andThen
        (writeRecords codec (position + 1) values)

/-- Scalar values in one record; nothing is written for none. -/
def writePacked (codec : FieldCodec) (values : List Value) : Output :=
  if values.isEmpty then .empty
  else
    match codec.payloads 0 values with
    | .error error => .fail error
    | .ok payloads =>
        .ofBytes (codec.tag ++ Varint.write (Payload.totalSize payloads) ++
          payloads.flatMap Payload.write)

/-- A scalar field. -/
def writeScalar (codec : FieldCodec) (value : Value) : Output :=
  match codec.arrangement with
  | .implicit =>
      match codec.kind.payload? value with
      | some payload =>
          if payload.isZero then .empty else .ofBytes (codec.tag ++ payload.write)
      | none => .failHere (.wrongVariant codec.kind)
  | .explicit => codec.writeRecord value
  | .packed =>
      match value with
      | .list items => codec.writePacked items
      | _ => .failHere .notAList
  | .expanded =>
      match value with
      | .list items => codec.writeRecords 0 items
      | _ => .failHere .notAList

/-- One value of a message or group field. -/
def writeNested (nested : NestedWriter) (codec : FieldCodec) (value : Value) :
    Coding (Value × Output) := do
  match value with
  | .message message =>
      if codec.valueType ≠ some message.type then
        return (value, .failHere .wrongMessageType)
      else if codec.kind = .group then
        let (message, body) ← nested.write message
        return (.message message,
          ((Output.ofBytes codec.tag).andThen body).andThen (.ofBytes codec.endTag))
      else
        let (message, size) ← nested.measure message
        let (message, body) ← nested.write message
        return (.message message,
          (Output.ofBytes (codec.tag ++ Varint.write size)).andThen body)
  | _ => return (value, .failHere (.wrongVariant codec.kind))

/-- A list of values, up to the first that cannot be encoded; the first has the
given position. -/
def writeEach (write : Value → Coding (Value × Output)) :
    Nat → List Value → Coding (List Value × Output)
  | _, [] => return ([], .empty)
  | position, value :: values => do
      let (value, output) ← write value
      let first := output.under (.index position)
      if first.failed then return (value :: values, first)
      else
        let (values, rest) ← writeEach write (position + 1) values
        return (value :: values, first.andThen rest)

/-- A field with its tags. -/
def write (nested : NestedWriter) (codec : FieldCodec) (value : Value) :
    Coding (Value × Output) := do
  if !codec.kind.isMessage then return (value, codec.writeScalar value)
  else if codec.arrangement.isRepeated then
    match value with
    | .list items =>
        let (items, output) ← writeEach (codec.writeNested nested) 0 items
        return (.list items, output)
    | _ => return (value, .failHere .notAList)
  else codec.writeNested nested value

end FieldCodec

namespace MessageOf

/-- The fields of some entries, up to the first that cannot be encoded. -/
def writeFields (nested : NestedWriter) :
    List FieldEntry → Message → Coding (Message × Output)
  | [], message => return (message, .empty)
  | entry :: entries, message => do
      match message.slot? entry.position with
      | none => writeFields nested entries message
      | some value =>
          let (value, output) ← entry.codec.write nested value
          let first := output.under (.field entry.number)
          let message := message.putSlot entry.position (some value)
          if first.failed then return (message, first)
          else
            let (message, rest) ← writeFields nested entries message
            return (message, first.andThen rest)

/-- The extensions of a message of type `owner`, up to the first that cannot be
encoded. -/
def writeAttached (nested : NestedWriter) (owner : MessageType) :
    List Attached → Coding (List Attached × Output)
  | [] => return ([], .empty)
  | entry :: entries => do
      let codec ← Coding.extensionCodec owner entry.type
      let (value, output) ← codec.write nested entry.value
      let first := output.under (.field entry.type.number)
      if first.failed then return (⟨entry.type, value⟩ :: entries, first)
      else
        let (entries, rest) ← writeAttached nested owner entries
        return (⟨entry.type, value⟩ :: entries, first.andThen rest)

/-- The number of the group that an item of a message set is. -/
def itemNumber : Nat := 1

/-- The number of an item's field for the number of the extension. -/
def itemTypeNumber : Nat := 2

/-- The number of an item's field for the extension's message. -/
def itemMessageNumber : Nat := 3

/-- One item of a message set. The table of the message is asked for before
anything is written. -/
def writeItem (nested : NestedWriter) (entry : Attached) : Coding (Attached × Output) := do
  match itemMessage entry with
  | .error fault => return (entry, .failHere fault)
  | .ok message =>
      match ← Coding.table message.type with
      | .error _ => return (entry, .failHere .nestedTable)
      | .ok _ =>
          let (message, size) ← nested.measure message
          let (message, body) ← nested.write message
          let front := Tag.write itemNumber .startGroup ++
            (Tag.write itemTypeNumber .varint ++ Varint.write entry.type.number) ++
            (Tag.write itemMessageNumber .lengthDelimited ++ Varint.write size)
          return (⟨entry.type, .message message⟩,
            ((Output.ofBytes front).andThen body).andThen
              (.ofBytes (Tag.write itemNumber .endGroup)))

/-- The items of a message set, up to the first that cannot be encoded. -/
def writeItems (nested : NestedWriter) (owner : MessageType) :
    List Attached → Coding (List Attached × Output)
  | [] => return ([], .empty)
  | entry :: entries => do
      let _ ← Coding.extensionCodec owner entry.type
      let (entry, output) ← writeItem nested entry
      let first := output.under (.field entry.type.number)
      if first.failed then return (entry :: entries, first)
      else
        let (entries, rest) ← writeItems nested owner entries
        return (entry :: entries, first.andThen rest)

/-- Puts entries that were visited in ascending order back under their numbers;
the order of arrival stays. -/
def refreshAttached (message : Message) (visited : List Attached) : Message :=
  { message with
    extensions := message.extensions.map fun entries =>
      entries.map fun entry =>
        (visited.find? fun other => other.type.number == entry.type.number).getD entry }

/-- A message's content. -/
def writeBody (nested : NestedWriter) (table : FieldTable) (message : Message) :
    Coding (Message × Output) := do
  let unknown := Output.ofBytes (message.unknown.getD [])
  if table.isMessageSet then
    let (visited, items) ← writeItems nested message.type message.attachedByNumber
    return (message.refreshAttached visited, items.andThen unknown)
  else
    let (visited, first) ← writeAttached nested message.type message.attachedByNumber
    let message := message.refreshAttached visited
    if first.failed then return (message, first)
    else
      let (message, fields) ← writeFields nested table.writingOrder message
      return (message, first.andThen (fields.andThen unknown))

/-- A nested message, which cannot be written if its table cannot be built. -/
def writeInner (nested : NestedWriter) (message : Message) : Coding (Message × Output) := do
  match ← Coding.table message.type with
  | .error _ => return (message, .failHere .nestedTable)
  | .ok table => writeBody nested table message

/-- A nested message. The number bounds how deeply messages nest in it. -/
def marshalAt (trust : Bool) : Nat → Message → Coding (Message × Output)
  | 0, message =>
      writeInner ⟨fun inner => return (inner, 0), fun inner => return (inner, .empty)⟩ message
  | depth + 1, message =>
      writeInner ⟨measureAt trust depth, marshalAt trust depth⟩ message

/-- What marshaling leaves: the message with its caches as they are then, the
bytes written, and the failure, if there was one. -/
structure Marshaled where
  message : Message
  bytes : Bytes
  failure : Option Failure

/-- Writes a message. With `trust`, the lengths of nested messages come from
their size caches, where those are filled. -/
def marshal (trust : Bool) (message : Message) : Coding Marshaled := do
  match ← Coding.table message.type with
  | .error error => return ⟨message, [], some (.build error)⟩
  | .ok table =>
      let nested : NestedWriter :=
        ⟨measureAt trust message.height, marshalAt trust message.height⟩
      let (message, output) ← writeBody nested table message
      return ⟨message, output.bytes, output.failure.map Failure.encode⟩

/-- Sizes a message and then writes it with the lengths that sizing left in the
caches. -/
def encode (message : Message) : Coding (Message × Except Failure Bytes) := do
  let (message, size) ← message.size false
  match size with
  | .error error => return (message, .error (.build error))
  | .ok _ =>
      let marshaled ← message.marshal true
      match marshaled.failure with
      | some failure => return (marshaled.message, .error failure)
      | none => return (marshaled.message, .ok marshaled.bytes)

end MessageOf

end ProtoWire
