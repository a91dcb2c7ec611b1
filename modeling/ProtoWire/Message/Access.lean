import ProtoWire.Failure
import ProtoWire.Message.Basic
import ProtoWire.Order

/-!
# Reading and changing messages

Fields are named by number. Setting a member of a oneof unsets its siblings.
Values are not checked here against the declared kinds.
-/

set_option autoImplicit false

namespace ProtoWire

namespace MessageOf

/-- The value in a slot. -/
def slot? {V : Type} (message : MessageOf V) (position : Nat) : Option V :=
  (message.slots[position]?).join

/-- Puts a value, or nothing, into a slot. -/
def putSlot {V : Type} (message : MessageOf V) (position : Nat) (slot : Option V) :
    MessageOf V :=
  { message with slots := message.slots.set position slot }

/-- Unsets the other members of the oneof that the field at a position belongs to. -/
def clearSiblings {V : Type} (message : MessageOf V) (position : Nat) : MessageOf V :=
  match (message.type.fields[position]?).bind FieldDescriptor.oneof with
  | none => message
  | some oneof =>
      let isSibling (other : Nat) : Bool :=
        other != position &&
          (message.type.fields[other]?).bind FieldDescriptor.oneof == some oneof
      { message with
        slots := message.slots.mapIdx fun other slot =>
          if isSibling other then none else slot }

/-- The value of a field, if it is set. -/
def get? {V : Type} (message : MessageOf V) (number : Nat) : Option V :=
  (message.type.descriptor.position? number).bind message.slot?

/-- The position of a declared field. -/
def fieldPosition {V : Type} (message : MessageOf V) (number : Nat) : Except Misuse Nat :=
  match message.type.descriptor.position? number with
  | some position => .ok position
  | none => .error (.noField message.type.fullName number)

/-- Sets a field. -/
def set {V : Type} (message : MessageOf V) (number : Nat) (value : V) :
    Except Misuse (MessageOf V) := do
  let position ← message.fieldPosition number
  return (message.putSlot position (some value)).clearSiblings position

/-- Puts a field back to what it held in a new message. -/
def clear (message : Message) (number : Nat) : Except Misuse Message := do
  let position ← message.fieldPosition number
  return message.putSlot position
    ((message.type.fields[position]?).bind message.type.initialSlot)

/-- Replaces the bytes of the unknown fields. -/
def setUnknown {V : Type} (message : MessageOf V) (bytes : Bytes) :
    Except Misuse (MessageOf V) :=
  match message.unknown with
  | some _ => .ok { message with unknown := some bytes }
  | none => .error (.noUnknownFields message.type.fullName)

/-- Adds to the bytes of the unknown fields, if there is a place for them. -/
def keepUnknown {V : Type} (message : MessageOf V) (bytes : Bytes) : MessageOf V :=
  { message with unknown := message.unknown.map (· ++ bytes) }

/-- The attached extensions, none if there is no place for them. -/
def attached {V : Type} (message : MessageOf V) : List (AttachedOf V) :=
  message.extensions.getD []

/-- The extension attached under a number. -/
def extension? {V : Type} (message : MessageOf V) (number : Nat) : Option (AttachedOf V) :=
  message.attached.find? fun entry => entry.type.number == number

/-- Takes away the extension attached under a number. -/
def withoutExtension {V : Type} (message : MessageOf V) (number : Nat) : MessageOf V :=
  { message with
    extensions := message.extensions.map fun entries =>
      entries.filter fun entry => entry.type.number != number }

/-- Attaches an extension in place of what its number held, if there is a place
for extensions. -/
def attach {V : Type} (message : MessageOf V) (entry : AttachedOf V) : MessageOf V :=
  { message with
    extensions := message.extensions.map fun entries =>
      entries.filter (fun other => other.type.number != entry.type.number) ++ [entry] }

/-- Attaches an extension after checking that it belongs to the message's type. -/
def setExtension {V : Type} (message : MessageOf V) (type : ExtensionType) (value : V) :
    Except Misuse (MessageOf V) :=
  let descriptor := message.type.descriptor
  if type.extendee ≠ descriptor.fullName then
    .error (.wrongExtendee type.fullName descriptor.fullName)
  else if !descriptor.isExtensionNumber type.number then
    .error (.outsideExtensionRanges type.number descriptor.fullName)
  else if message.extensions.isNone then
    .error (.noExtensions descriptor.fullName)
  else .ok (message.attach ⟨type, value⟩)

/-- The extensions in ascending order of number. -/
def attachedByNumber {V : Type} (message : MessageOf V) : List (AttachedOf V) :=
  sortBy (fun a b => a.type.number ≤ b.type.number) message.attached

/-- Forgets the size last computed, in this message but not in nested ones. -/
def clearCachedSize {V : Type} (message : MessageOf V) : MessageOf V :=
  { message with cache := message.cache.clear }

/-- Keeps a computed size, if there is a place for it. -/
def storeSize {V : Type} (message : MessageOf V) (size : Nat) : MessageOf V :=
  { message with cache := message.cache.store size }

end MessageOf

end ProtoWire
