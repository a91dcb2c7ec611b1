import ProtoWire.Message.Merge
import ProtoWire.Proofs.Message.Access
import ProtoWire.Proofs.Registry.Catalog

/-!
# Places of records

A record is read into a place, which is a declared field or an extension with the codec that is
kept for it, or it is passed over. Which of these happens depends on the catalog of the store, the
type of the message and the tag of the record (`Catalog.place?`,
`MessageOf.ensures_mergeRecord_placed`).
-/

set_option autoImplicit false

namespace ProtoWire

open Coding (Yields Ensures yields_pure)

/-- What a record is read into: a field, or an extension with the codec it is read by. -/
inductive Place where
  | field (entry : FieldEntry)
  | extension (type : ExtensionType) (codec : FieldCodec)

namespace Place

def codec : Place → FieldCodec
  | field entry => entry.codec
  | extension _ codec => codec

def number : Place → Nat
  | field entry => entry.number
  | extension type _ => type.number

/-- The value in the place. -/
def held? (place : Place) (message : Message) : Option Value :=
  match place with
  | field entry => message.slot? entry.position
  | extension type _ => (message.extension? type.number).map AttachedOf.value

/-- Puts what was read into the place, whether or not reading failed. -/
def put (place : Place) (message : Message) (slot : Option Value) : Message :=
  match place with
  | field entry => message.putSlot entry.position slot
  | extension type _ =>
      match slot with
      | some value => message.attach ⟨type, value⟩
      | none => message

/-- Unsets the siblings of a field that was read. -/
def settle (place : Place) (message : Message) : Message :=
  match place with
  | field entry => message.clearSiblings entry.position
  | extension _ _ => message

/-- What reading leaves of the message. -/
def leave (place : Place) (message : Message) (slot : Option Value) : Option Malformed → Message
  | none => place.settle (place.put message slot)
  | some _ => place.put message slot

@[simp]
theorem type_leave (place : Place) (message : Message) (slot : Option Value)
    (failure : Option Malformed) : (place.leave message slot failure).type = message.type := by
  cases place <;> cases failure <;> cases slot <;> simp [leave, put, settle, MessageOf.putSlot,
    MessageOf.attach]

@[simp]
theorem cache_leave (place : Place) (message : Message) (slot : Option Value)
    (failure : Option Malformed) : (place.leave message slot failure).cache = message.cache := by
  cases place <;> cases failure <;> cases slot <;> simp [leave, put, settle, MessageOf.putSlot,
    MessageOf.attach]

@[simp]
theorem unknown_leave (place : Place) (message : Message) (slot : Option Value)
    (failure : Option Malformed) :
    (place.leave message slot failure).unknown = message.unknown := by
  cases place <;> cases failure <;> cases slot <;> simp [leave, put, settle, MessageOf.putSlot,
    MessageOf.attach]

@[simp]
theorem isSome_extensions_leave (place : Place) (message : Message) (slot : Option Value)
    (failure : Option Malformed) :
    (place.leave message slot failure).extensions.isSome = message.extensions.isSome := by
  cases place <;> cases failure <;> cases slot <;> simp [leave, put, settle, MessageOf.putSlot,
    MessageOf.attach]

/-- Puts a value into the place and unsets its siblings. -/
def fill (place : Place) (message : Message) (value : Value) : Message :=
  match place with
  | field entry => message.putField entry.position value
  | extension type _ => message.attach ⟨type, value⟩

/-- To put a value into a place and settle it is to fill the place. -/
theorem settle_put_some (place : Place) (message : Message) (value : Value) :
    place.settle (place.put message (some value)) = place.fill message value := by
  cases place <;> rfl

@[simp]
theorem type_fill (place : Place) (message : Message) (value : Value) :
    (place.fill message value).type = message.type := by
  cases place <;> simp [fill, MessageOf.attach]

@[simp]
theorem isSome_extensions_fill (place : Place) (message : Message) (value : Value) :
    (place.fill message value).extensions.isSome = message.extensions.isSome := by
  cases place <;> simp [fill, MessageOf.attach]

/-- Whether a message has room for what is put into the place. -/
def Room (place : Place) (message : Message) : Prop :=
  match place with
  | field entry => entry.position < message.slots.length
  | extension _ _ => message.extensions.isSome = true

/-- A place that was filled can be filled again. -/
theorem Room.fill {place : Place} {message : Message} (h : place.Room message) (value : Value) :
    place.Room (place.fill message value) := by
  cases place with
  | field entry => simpa [Room, Place.fill] using h
  | extension type codec => simpa [Room] using h

/-- What was put into the place is there. -/
theorem Room.held?_fill {place : Place} {message : Message} (h : place.Room message)
    (value : Value) : place.held? (place.fill message value) = some value := by
  cases place with
  | field entry => rw [held?, Place.fill, MessageOf.slot?_putField message h, if_pos rfl]
  | extension type codec =>
      rw [held?, Place.fill, MessageOf.extension?_attach _ _ h, if_pos rfl]
      rfl

/-- What was put into the place first is gone, so its siblings need not be unset twice. -/
theorem fill_fill (place : Place) (message : Message) (value later : Value) :
    place.fill (place.fill message value) later = place.fill message later := by
  cases place with
  | field entry => exact MessageOf.putField_putField _ _ _ _
  | extension type codec => exact MessageOf.attach_attach message rfl

end Place

/-- The place that a message has for records of a number and a wire type. Extensions are read by
the codecs that the catalog has for them. -/
def Catalog.place? (catalog : Catalog) (table : FieldTable) (message : Message) (number : Nat)
    (wire : WireType) : Option Place :=
  match table.entry? number with
  | some entry => if entry.codec.accepts wire then some (.field entry) else none
  | none =>
      if message.extensions.isSome && message.type.descriptor.isExtensionNumber number then
        match catalog.extension? message.type number with
        | some type =>
            let codec := catalog.codec message.type type
            if codec.accepts wire then some (.extension type codec) else none
        | none => none
      else none

namespace Catalog

variable {catalog : Catalog} {table : FieldTable} {message : Message} {number : Nat}
  {wire : WireType}

/-- Putting a value into a place closes none. -/
@[simp]
theorem place?_fill (place : Place) (value : Value) :
    catalog.place? table (place.fill message value) number wire =
      catalog.place? table message number wire := by
  rw [Catalog.place?, Catalog.place?, Place.type_fill, Place.isSome_extensions_fill]

/-- A record goes to a field under its declared number, with a wire type that the field accepts. -/
theorem of_place?_field {entry : FieldEntry}
    (h : catalog.place? table message number wire = some (.field entry)) :
    table.entry? number = some entry ∧ entry.codec.accepts wire = true := by
  rw [place?] at h
  split at h
  · next declared =>
      split at h
      · next accepts =>
          cases h
          exact ⟨declared, accepts⟩
      · simp at h
  · split at h
    · split at h
      · simp only at h
        split at h <;> simp at h
      · simp at h
    · simp at h

/-- It goes to an extension only where no field has the number, and is read with the codec that is
kept. -/
theorem of_place?_extension {type : ExtensionType} {codec : FieldCodec}
    (h : catalog.place? table message number wire = some (.extension type codec)) :
    table.entry? number = none ∧ catalog.extension? message.type number = some type ∧
      codec = catalog.codec message.type type ∧ codec.accepts wire = true := by
  rw [place?] at h
  split at h
  · split at h <;> simp at h
  · next undeclared =>
      split at h
      · split at h
        · next found =>
            simp only at h
            split at h
            · next accepts =>
                cases h
                exact ⟨undeclared, found, rfl, accepts⟩
            · simp at h
        · simp at h
      · simp at h

end Catalog

namespace MessageOf

/-- Reads a record into a place. -/
def mergePlace (inside : Option Merger) (place : Place) (message : Message) (wire : WireType)
    (rest : Bytes) : Coding (Message × Step) := do
  let (slot, outcome) ← place.codec.read inside wire (place.held? message) rest
  match outcome with
  | .error error =>
      return (place.put message slot, .failed (error.under (.field place.number)))
  | .ok rest => return (place.settle (place.put message slot), .next rest)

/-- Merges a record into its place, or passes over it if it has none. -/
def mergePlaced (inside : Option Merger) (depth : Nat) (place : Option Place) (message : Message)
    (bytes : Bytes) (number : Nat) (wire : WireType) (rest : Bytes) : Coding (Message × Step) :=
  match place with
  | some place => mergePlace inside place message wire rest
  | none => return mergeUnknown depth message bytes number wire rest

theorem mergeField_eq (inside : Option Merger) (entry : FieldEntry) (message : Message)
    (wire : WireType) (rest : Bytes) :
    mergeField inside entry message wire rest =
      mergePlace inside (.field entry) message wire rest :=
  rfl

/-- Fields and extensions are merged in the same way, each into its place. -/
theorem mergeExtension_eq (inside : Option Merger) (codec : FieldCodec) (type : ExtensionType)
    (message : Message) (wire : WireType) (rest : Bytes) :
    mergeExtension inside codec type message wire rest =
      mergePlace inside (.extension type codec) message wire rest :=
  rfl

section

variable {store : Store} {inside : Option Merger} {depth : Nat} {table : FieldTable}
  {group : Option Nat} {message : Message} {bytes rest : Bytes} {number : Nat} {wire : WireType}

/-- A record that starts with no end tag is one of a field or of an extension, or is kept. -/
theorem mergeRecord_eq (tag : Tag.read bytes = .ok (number, wire, rest))
    (starts : wire ≠ .endGroup) :
    mergeRecord inside depth table group message bytes =
      match table.entry? number with
      | some entry =>
          if entry.codec.accepts wire then mergeField inside entry message wire rest
          else return mergeUnknown depth message bytes number wire rest
      | none => do
          match ← extensionFor message number with
          | none => return mergeUnknown depth message bytes number wire rest
          | some type =>
              let codec ← Coding.extensionCodec message.type type
              if codec.accepts wire then mergeExtension inside codec type message wire rest
              else return mergeUnknown depth message bytes number wire rest := by
  rw [mergeRecord, tag]
  cases wire <;> first | contradiction | rfl

/-- An extension is looked for only in a message that has a place for it, and only under the numbers
that its type leaves to extensions. -/
theorem yields_extensionFor (sound : store.Sound) (message : Message) (number : Nat) :
    Yields store (extensionFor message number)
      (if message.extensions.isSome && message.type.descriptor.isExtensionNumber number
        then store.catalog.extension? message.type number else none) := by
  rw [extensionFor, ← Option.not_isSome, ← Bool.not_and]
  cases message.extensions.isSome && message.type.descriptor.isExtensionNumber number with
  | true => exact Coding.yields_findExtension sound message.type number
  | false => exact yields_pure none

/-- A record that starts with no end tag is read into its place, or is passed over. -/
theorem ensures_mergeRecord_placed (sound : store.Sound) (held : store.Holds message.type)
    (tag : Tag.read bytes = .ok (number, wire, rest)) (starts : wire ≠ .endGroup)
    {goal : Message × Step → Prop}
    (h : Ensures store (mergePlaced inside depth (store.catalog.place? table message number wire)
      message bytes number wire rest) goal) :
    Ensures store (mergeRecord inside depth table group message bytes) goal := by
  rw [mergeRecord_eq tag starts]
  rw [Catalog.place?] at h
  cases declared : table.entry? number with
  | some entry =>
      -- a declared number is never looked up among the extensions
      simp only [declared] at h ⊢
      split at h
      · next accepts =>
          rw [if_pos accepts]
          exact h
      · next refuses =>
          rw [if_neg refuses]
          exact h
  | none =>
      simp only [declared] at h ⊢
      apply (yields_extensionFor sound message number).bind_ensures
      split at h
      · next takes =>
          rw [if_pos takes]
          cases found : store.catalog.extension? message.type number with
          | none =>
              simp only [found] at h ⊢
              exact h
          | some type =>
              simp only [found] at h ⊢
              have declared' := (Store.mem_extensions_of_extension? found).1
              apply (Coding.yields_extensionCodec sound held declared').bind_ensures
              split at h
              · next accepts =>
                  rw [if_pos accepts]
                  exact h
              · next refuses =>
                  rw [if_neg refuses]
                  exact h
      · next outside =>
          rw [if_neg outside]
          exact h

end

end MessageOf

end ProtoWire
