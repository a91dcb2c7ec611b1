import ProtoWire.Bytes.Basic
import ProtoWire.Schema.MessageType

/-!
# Messages and values

A message has one slot for each declared field of its type and, as its type's
storage provides them, a size cache, the bytes of unknown fields and a set of
extensions. Values are dynamic: a slot may hold a value of any kind, and a
mismatch with the declared kind shows only when the message is encoded.
Floating-point values are held as bit patterns, so that no payload is lost.
-/

set_option autoImplicit false

namespace ProtoWire

/-- The place for the size last computed. -/
inductive SizeCache where
  /-- The storage has no such place. -/
  | absent
  /-- Nothing has been computed yet, or it has been forgotten. -/
  | empty
  | filled (size : Nat)
  deriving DecidableEq, Repr

namespace SizeCache

/-- The size held, if any. -/
def get? : SizeCache → Option Nat
  | .filled size => some size
  | _ => none

/-- Keeps a size, where there is a place for it. -/
def store : SizeCache → Nat → SizeCache
  | .absent, _ => .absent
  | _, size => .filled size

/-- Forgets the size held. -/
def clear : SizeCache → SizeCache
  | .absent => .absent
  | _ => .empty

end SizeCache

/-- An extension value and the extension it belongs to. -/
structure AttachedOf (V : Type) where
  type : ExtensionType
  value : V

/-- A message over a type of values. -/
structure MessageOf (V : Type) where
  type : MessageType
  /-- One slot for each declared field, in order of declaration. -/
  slots : List (Option V)
  cache : SizeCache
  unknown : Option Bytes
  /-- The attached extensions, in order of arrival, each number once. -/
  extensions : Option (List (AttachedOf V))

/-- The value of a field or extension. -/
inductive Value where
  | bool (value : Bool)
  | int32 (value : Int32)
  | int64 (value : Int64)
  | uint32 (value : UInt32)
  | uint64 (value : UInt64)
  /-- A binary32 number, given by its bits. -/
  | single (bits : UInt32)
  /-- A binary64 number, given by its bits. -/
  | double (bits : UInt64)
  /-- The number of an enumerator, declared or not. -/
  | enum (value : Int32)
  | string (text : String)
  | bytes (bytes : Bytes)
  | message (message : MessageOf Value)
  /-- The values of a repeated field. -/
  | list (items : List Value)

/-- A message. -/
abbrev Message := MessageOf Value

/-- An extension attached to a message. -/
abbrev Attached := AttachedOf Value

namespace Value

/-- The value that a field with no presence holds before it is set. -/
def zero? : Kind → Option Value
  | .bool => some (.bool false)
  | .enum => some (.enum 0)
  | .int32 | .sint32 | .sfixed32 => some (.int32 0)
  | .uint32 | .fixed32 => some (.uint32 0)
  | .int64 | .sint64 | .sfixed64 => some (.int64 0)
  | .uint64 | .fixed64 => some (.uint64 0)
  | .float => some (.single 0)
  | .double => some (.double 0)
  | .string => some (.string "")
  | .bytes => some (.bytes [])
  | .message | .group => none

/-- The items of a list, and none of any other value. -/
def items : Value → List Value
  | .list items => items
  | _ => []

end Value

namespace MessageType

/-- What a slot holds before it is set, and again after it is cleared. -/
def initialSlot (type : MessageType) (field : FieldDescriptor) : Option Value :=
  if field.mayBeAbsent type.descriptor.generation then none else Value.zero? field.kind

/-- A message with nothing set. -/
def newMessage (type : MessageType) : Message where
  type := type
  slots := type.fields.map type.initialSlot
  cache := if type.storage.sizeCache then .empty else .absent
  unknown := if type.storage.unknownFields then some [] else none
  extensions := if type.storage.extensions then some [] else none

end MessageType

mutual

/-- How deeply messages and lists nest inside a value, itself counted. -/
def Value.height : Value → Nat
  | .message message => messageHeight message + 1
  | .list items => itemsHeight items + 1
  | _ => 0

/-- The height of the highest value in a message. -/
def messageHeight : MessageOf Value → Nat
  | ⟨_, slots, _, _, extensions⟩ => max (slotsHeight slots) (extensionsHeight extensions)

def itemsHeight : List Value → Nat
  | [] => 0
  | item :: items => max item.height (itemsHeight items)

def slotsHeight : List (Option Value) → Nat
  | [] => 0
  | slot :: slots => max (slotHeight slot) (slotsHeight slots)

def slotHeight : Option Value → Nat
  | none => 0
  | some value => value.height

def extensionsHeight : Option (List (AttachedOf Value)) → Nat
  | none => 0
  | some attached => attachedHeight attached

def attachedHeight : List (AttachedOf Value) → Nat
  | [] => 0
  | entry :: entries => max (entryHeight entry) (attachedHeight entries)

def entryHeight : AttachedOf Value → Nat
  | ⟨_, value⟩ => value.height

end

/-- How deeply values nest inside a message. -/
def MessageOf.height (message : Message) : Nat :=
  messageHeight message

end ProtoWire
