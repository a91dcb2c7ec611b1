import ProtoWire.Message.Access
import ProtoWire.Message.Scalar
import ProtoWire.Registry.Store
import ProtoWire.Wire.Skip

/-!
# Merging input into a message

Input is read record by record. A record of a known field or extension changes
its value: a scalar is replaced, a repeated field grows, a nested message is
merged into. Any other record is kept as it is among the unknown bytes. When a
record fails, what was merged before it stays, and so does what the failing
value held, as far as it was read.

Nested messages are merged by the same rules with one level of nesting less. The
functions take the merger of nested messages as a parameter, which is missing
when no level is left; `mergeAt` supplies it.
-/

set_option autoImplicit false

namespace ProtoWire

/-- Merges bytes into a message, up to the end tag of a group if its number is
given, and to the end of the bytes otherwise. Returned are the message and the
bytes that follow, or the failure. -/
abbrev Merger := Option Nat → Message → Bytes → Coding (Message × Except Malformed Bytes)

/-- What one record leads to. -/
inductive Step where
  /-- The record is done, and this follows it. -/
  | next (rest : Bytes)
  /-- The record was the awaited end tag, and this follows it. -/
  | ended (rest : Bytes)
  | failed (error : Malformed)

namespace FieldCodec

/-- The values packed in a record, of which the first gets the given position,
up to the first that cannot be read. No more are read than `limit`. -/
def readPacked (kind : Kind) (position : Nat) : Nat → Bytes → List Value × Option Malformed
  | _, [] => ([], none)
  | 0, _ => ([], none)
  | limit + 1, byte :: bytes =>
      match kind.read (byte :: bytes) with
      | .error fault => ([], some ((Malformed.here fault).under (.index position)))
      | .ok (value, rest) =>
          let (values, failure) := readPacked kind (position + 1) limit rest
          (value :: values, failure)

/-- Adds the values of one record to a repeated scalar field. -/
def readItems (codec : FieldCodec) (wire : WireType) (items : List Value) (bytes : Bytes) :
    List Value × Except Malformed Bytes :=
  if wire = .lengthDelimited ∧ codec.kind.isPackable then
    match Payload.readDelimited bytes with
    | .error fault => (items, .error (.here fault))
    | .ok (body, rest) =>
        match readPacked codec.kind items.length body.length body with
        | (values, none) => (items ++ values, .ok rest)
        | (values, some error) => (items ++ values, .error error)
  else
    match codec.kind.read bytes with
    | .error fault => (items, .error (.here fault))
    | .ok (value, rest) => (items ++ [value], .ok rest)

/-- Reads a record of a scalar field into its slot. -/
def readScalar (codec : FieldCodec) (wire : WireType) (slot : Option Value) (bytes : Bytes) :
    Option Value × Except Malformed Bytes :=
  if codec.arrangement.isRepeated then
    let (items, outcome) := codec.readItems wire ((slot.map Value.items).getD []) bytes
    (some (.list items), outcome)
  else
    match codec.kind.read bytes with
    | .error fault => (slot, .error (.here fault))
    | .ok (value, rest) => (some value, .ok rest)

/-- Reads a record of a message or group field into a message. -/
def readNested (inside : Option Merger) (codec : FieldCodec) (wire : WireType)
    (message : Message) (bytes : Bytes) : Coding (Message × Except Malformed Bytes) := do
  match inside with
  | none => return (message, .error (.here .tooDeep))
  | some merge =>
      if wire = .startGroup then merge (some codec.number) message bytes
      else
        match Payload.readDelimited bytes with
        | .error fault => return (message, .error (.here fault))
        | .ok (body, rest) =>
            let (message, outcome) ← merge none message body
            return (message, outcome.map fun _ => rest)

/-- The message to merge into: the one that is there, if it is of the given type,
and a new one otherwise. -/
def startingMessage (type : MessageType) : Option Value → Message
  | some (.message message) => if message.type = type then message else type.newMessage
  | _ => type.newMessage

/-- Reads a record of a field into its slot. -/
def read (inside : Option Merger) (codec : FieldCodec) (wire : WireType)
    (slot : Option Value) (bytes : Bytes) :
    Coding (Option Value × Except Malformed Bytes) := do
  if !codec.kind.isMessage then return codec.readScalar wire slot bytes
  else
    match codec.valueType with
    | none => return (slot, .error (.here .nestedTable))
    | some type =>
        if codec.arrangement.isRepeated then
          let items := (slot.map Value.items).getD []
          let (message, outcome) ← codec.readNested inside wire type.newMessage bytes
          return (some (.list (items ++ [.message message])),
            outcome.mapError (·.under (.index items.length)))
        else
          let (message, outcome) ←
            codec.readNested inside wire (startingMessage type slot) bytes
          return (some (.message message), outcome)

end FieldCodec

namespace MessageOf

/-- Passes over a record, whose bytes start with its tag, and keeps it among the
unknown bytes. -/
def mergeUnknown (depth : Nat) (message : Message) (bytes : Bytes) (number : Nat)
    (wire : WireType) (rest : Bytes) : Message × Step :=
  match skipValue depth number wire rest with
  | .error error => (message, .failed error)
  | .ok rest => (message.keepUnknown (bytes.before rest), .next rest)

/-- Reads a record of a declared field. -/
def mergeField (inside : Option Merger) (entry : FieldEntry) (message : Message)
    (wire : WireType) (rest : Bytes) : Coding (Message × Step) := do
  let (slot, outcome) ← entry.codec.read inside wire (message.slot? entry.position) rest
  let message := message.putSlot entry.position slot
  match outcome with
  | .error error => return (message, .failed (error.under (.field entry.number)))
  | .ok rest => return (message.clearSiblings entry.position, .next rest)

/-- Reads a record of an extension with the codec kept for it. -/
def mergeExtension (inside : Option Merger) (codec : FieldCodec) (type : ExtensionType)
    (message : Message) (wire : WireType) (rest : Bytes) : Coding (Message × Step) := do
  let slot := (message.extension? type.number).map AttachedOf.value
  let (slot, outcome) ← codec.read inside wire slot rest
  let message :=
    match slot with
    | some value => message.attach ⟨type, value⟩
    | none => message
  match outcome with
  | .error error => return (message, .failed (error.under (.field type.number)))
  | .ok rest => return (message, .next rest)

/-- The registered extension that a record of a message may belong to. -/
def extensionFor (message : Message) (number : Nat) : Coding (Option ExtensionType) := do
  if message.extensions.isNone || !message.type.descriptor.isExtensionNumber number then
    return none
  else Coding.findExtension message.type number

/-- Reads one record. -/
def mergeRecord (inside : Option Merger) (depth : Nat) (table : FieldTable)
    (group : Option Nat) (message : Message) (bytes : Bytes) : Coding (Message × Step) := do
  match Tag.read bytes with
  | .error fault => return (message, .failed (.here fault))
  | .ok (number, .endGroup, rest) =>
      if group = some number then return (message, .ended rest)
      else
        return (message,
          .failed ((Malformed.here .unexpectedEndGroup).under (.field number)))
  | .ok (number, wire, rest) =>
      match table.entry? number with
      | some entry =>
          if entry.codec.accepts wire then mergeField inside entry message wire rest
          else return mergeUnknown depth message bytes number wire rest
      | none =>
          match ← extensionFor message number with
          | none => return mergeUnknown depth message bytes number wire rest
          | some type =>
              let codec ← Coding.extensionCodec message.type type
              if codec.accepts wire then mergeExtension inside codec type message wire rest
              else return mergeUnknown depth message bytes number wire rest

/-- The parts of an item that were read so far; of parts that occur more than
once the last counts. -/
structure ItemParts where
  typeNumber : Option Nat
  body : Option Bytes
  deriving DecidableEq, Repr

/-- Reads the parts of an item up to its end tag, in any order, and passes over
other records. -/
def readItemParts (depth : Nat) : Nat → ItemParts → Bytes → Except Malformed (ItemParts × Bytes)
  | _, _, [] => .error (.here .unterminatedGroup)
  | 0, _, _ => .error (.here .unterminatedGroup)
  | limit + 1, parts, byte :: bytes =>
      match Tag.read (byte :: bytes) with
      | .error fault => .error (.here fault)
      | .ok (1, .endGroup, rest) => .ok (parts, rest)
      | .ok (2, .varint, rest) =>
          match Varint.read rest with
          | none => .error (.here .invalidVarint)
          | some (word, rest) =>
              readItemParts depth limit { parts with typeNumber := some (word % UInt32.size) } rest
      | .ok (3, .lengthDelimited, rest) =>
          match Payload.readDelimited rest with
          | .error fault => .error (.here fault)
          | .ok (body, rest) =>
              readItemParts depth limit { parts with body := some body } rest
      | .ok (number, wire, rest) =>
          match skipValue depth number wire rest with
          | .error error => .error error
          | .ok rest => readItemParts depth limit parts rest

/-- Reads an item after its start tag: the extension's number and the encoding
of its message, if both are there. -/
def readItem (depth : Nat) (bytes : Bytes) :
    Except Malformed (Option (Nat × Bytes) × Bytes) :=
  match readItemParts depth bytes.length ⟨none, none⟩ bytes with
  | .error error => .error error
  | .ok (⟨some number, some body⟩, rest) => .ok (some (number, body), rest)
  | .ok (_, rest) => .ok (none, rest)

/-- Merges the body of an item into the extension it names. -/
def mergeItem (inside : Option Merger) (type : ExtensionType) (message : Message)
    (body : Bytes) : Coding (Message × Option Malformed) := do
  match type.valueType with
  | none =>
      return (message, some ((Malformed.here .itemNotMessage).under (.field type.number)))
  | some valueType =>
      let held := (message.extension? type.number).map AttachedOf.value
      let inner := FieldCodec.startingMessage valueType held
      match inside with
      | none =>
          return (message.attach ⟨type, .message inner⟩,
            some ((Malformed.here .tooDeep).under (.field type.number)))
      | some merge =>
          let (inner, outcome) ← merge none inner body
          let message := message.attach ⟨type, .message inner⟩
          match outcome with
          | .error error => return (message, some (error.under (.field type.number)))
          | .ok _ => return (message, none)

/-- Reads one record of a message set. -/
def mergeSetRecord (inside : Option Merger) (depth : Nat) (message : Message)
    (bytes : Bytes) : Coding (Message × Step) := do
  match Tag.read bytes with
  | .error fault => return (message, .failed (.here fault))
  | .ok (1, .startGroup, rest) =>
      match readItem depth rest with
      | .error error => return (message, .failed error)
      | .ok (none, rest) => return (message.keepUnknown (bytes.before rest), .next rest)
      | .ok (some (number, body), rest) =>
          match ← Coding.findExtension message.type number with
          | none => return (message.keepUnknown (bytes.before rest), .next rest)
          | some type =>
              let (message, failure) ← mergeItem inside type message body
              match failure with
              | some error => return (message, .failed error)
              | none => return (message, .next rest)
  | .ok (number, wire, rest) => return mergeUnknown depth message bytes number wire rest

/-- Reads records until the input ends or a step ends the reading. No more
records are read than `limit`, which is the length of the input in use. -/
def mergeRecords (step : Message → Bytes → Coding (Message × Step))
    (atEnd : Except Malformed Bytes) :
    Nat → Message → Bytes → Coding (Message × Except Malformed Bytes)
  | _, message, [] => return (message, atEnd)
  | 0, message, _ => return (message, atEnd)
  | limit + 1, message, byte :: bytes => do
      let (message, outcome) ← step message (byte :: bytes)
      match outcome with
      | .next rest => mergeRecords step atEnd limit message rest
      | .ended rest => return (message, .ok rest)
      | .failed error => return (message, .error error)

/-- Merges bytes into a message. What its size cache held no longer counts. A
message set has its own form unless it is framed as a group. -/
def mergeBody (inside : Option Merger) (depth : Nat) (table : FieldTable)
    (group : Option Nat) (message : Message) (bytes : Bytes) :
    Coding (Message × Except Malformed Bytes) :=
  let message := message.clearCachedSize
  match group with
  | none =>
      let step :=
        if table.isMessageSet then mergeSetRecord inside depth
        else mergeRecord inside depth table none
      mergeRecords step (.ok []) bytes.length message bytes
  | some number =>
      mergeRecords (mergeRecord inside depth table (some number))
        (.error ((Malformed.here .unterminatedGroup).under (.field number)))
        bytes.length message bytes

/-- Merges into a nested message, which fails if its table cannot be built. -/
def mergeInner (inside : Option Merger) (depth : Nat) : Merger :=
  fun group message bytes => do
    match ← Coding.table message.type with
    | .error _ => return (message, .error (.here .nestedTable))
    | .ok table => mergeBody inside depth table group message bytes

/-- Merges into a nested message in which this many levels may still open. -/
def mergeAt : Nat → Merger
  | 0 => mergeInner none 0
  | depth + 1 => mergeInner (some (mergeAt depth)) (depth + 1)

end MessageOf

namespace MessageType

/-- Merges input into a message of the type. What was merged before a failure
stays in the message. -/
def merge (type : MessageType) (message : Message) (bytes : Bytes) :
    Coding (Message × Option Failure) := do
  if message.type ≠ type then
    return (message, some (.schema (.cannotMerge type.fullName message.type.fullName)))
  else
    match ← Coding.table type with
    | .error error => return (message, some (.build error))
    | .ok table =>
        let (message, outcome) ←
          MessageOf.mergeBody (some (MessageOf.mergeAt (maxNesting - 1))) maxNesting table none
            message bytes
        match outcome with
        | .ok _ => return (message, none)
        | .error error => return (message, some (.decode error))

/-- Reads a new message of the type. -/
def decode (type : MessageType) (bytes : Bytes) : Coding (Except Failure Message) := do
  let (message, failure) ← type.merge type.newMessage bytes
  match failure with
  | some failure => return .error failure
  | none => return .ok message

end MessageType

end ProtoWire
