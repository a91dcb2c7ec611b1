import ProtoWire.Proofs.Message.Access
import ProtoWire.Proofs.Message.Item
import ProtoWire.Proofs.Message.Registered
import ProtoWire.Proofs.Message.Scalar
import ProtoWire.Proofs.Message.WireForm
import ProtoWire.Proofs.Schema.Table

/-!
# Well-typed messages

A message is well typed for some levels of nesting if each value is of the kind and cardinality
of its field or extension, at most one member of each oneof is set, extensions are those that
the registry finds under their numbers, the unknown bytes are records that no field or
extension takes, and messages and unknown groups nest in it at most as deeply as the number of
levels says (`MessageOf.WellTyped`). A well-typed message has a wire form
(`WellTyped.exists_wireForm`) and is registered (`WellTyped.registered`).
-/

set_option autoImplicit false

namespace ProtoWire

/-! ## Values -/

namespace FieldCodec

/-- One value of a field: a scalar of its kind, or a message of its type of which the assertion
holds. Groups do not hold message sets, which have no form between group tags. -/
def FitsOne (inside : Message → Prop) (codec : FieldCodec) : Value → Prop
  | .message inner =>
      codec.kind.isMessage = true ∧ codec.valueType = some inner.type ∧
        (codec.kind = .group → inner.type.descriptor.messageSet = false) ∧ inside inner
  | value => (codec.kind.payload? value).isSome = true

/-- A value of a field: a list for a repeated field, a single value for any other. -/
def Fits (inside : Message → Prop) (codec : FieldCodec) (value : Value) : Prop :=
  if codec.arrangement.isRepeated then
    ∃ items, value = .list items ∧ ∀ item ∈ items, codec.FitsOne inside item
  else codec.FitsOne inside value

end FieldCodec

/-! ## Unknown records -/

/-- What a record of a message belongs to. -/
inductive Taker where
  | field (entry : FieldEntry)
  | extension (type : ExtensionType)

namespace Catalog

/-- The declared field or the extension of a type that takes records of a number and a wire
type. A number that is declared does not belong to any extension. -/
def taker? (catalog : Catalog) (table : FieldTable) (type : MessageType) (number : Nat)
    (wire : WireType) : Option Taker :=
  match table.entry? number with
  | some entry => if entry.codec.accepts wire then some (.field entry) else none
  | none =>
      if type.storage.extensions && type.descriptor.isExtensionNumber number then
        match catalog.extension? type number with
        | some extension =>
            if extension.codec.accepts wire then some (.extension extension) else none
        | none => none
      else none

section

variable {catalog : Catalog} {table : FieldTable} {type : MessageType} {number : Nat}
  {wire : WireType}

/-- A field takes records of its number with wire types that it accepts. -/
theorem of_taker?_field {entry : FieldEntry}
    (h : catalog.taker? table type number wire = some (.field entry)) :
    table.entry? number = some entry ∧ entry.codec.accepts wire = true := by
  rw [taker?] at h
  split at h
  · next declared =>
      split at h
      · next accepts =>
          cases h
          exact ⟨declared, accepts⟩
      · simp at h
  · split at h
    · split at h
      · split at h <;> simp at h
      · simp at h
    · simp at h

/-- An extension takes them only where no field has the number, and only in a message that has a
place for it. -/
theorem of_taker?_extension {extension : ExtensionType}
    (h : catalog.taker? table type number wire = some (.extension extension)) :
    table.entry? number = none ∧ type.storage.extensions = true ∧
      type.descriptor.isExtensionNumber number = true ∧
      catalog.extension? type number = some extension ∧
      extension.codec.accepts wire = true := by
  rw [taker?] at h
  split at h
  · split at h <;> simp at h
  · next undeclared =>
      split at h
      · next takes =>
          split at h
          · next found =>
              split at h
              · next accepts =>
                  cases h
                  rw [Bool.and_eq_true] at takes
                  exact ⟨undeclared, takes.1, takes.2, found, accepts⟩
              · simp at h
          · simp at h
      · simp at h

end

/-- A complete record that a message of the type keeps as it is: one that no field or extension
takes and, in a message set, an item that is incomplete or names no extension. -/
def KeepsRecord (catalog : Catalog) (table : FieldTable) (type : MessageType) (depth : Nat)
    (record : Bytes) : Prop :=
  ∃ number wire rest, Tag.read record = .ok (number, wire, rest) ∧
    if table.isMessageSet then
      if number = MessageOf.itemNumber ∧ wire = .startGroup then
        ∃ item, MessageOf.readItem depth rest = .ok (item, []) ∧
          ∀ found body, item = some (found, body) → catalog.extension? type found = none
      else skipValue depth number wire rest = .ok []
    else
      skipValue depth number wire rest = .ok [] ∧ catalog.taker? table type number wire = none

end Catalog

/-! ## Messages -/

namespace MessageOf

/-- An extension of a message: the one that the registry finds under its number, with a value of
its field. In a message set it holds a single message, in other messages it has a number that
the type leaves open and does not declare. -/
def FitsAttached (catalog : Catalog) (table : FieldTable) (inside : Message → Prop)
    (owner : MessageType) (entry : Attached) : Prop :=
  catalog.extension? owner entry.type.number = some entry.type ∧
    if table.isMessageSet then
      ∃ inner, entry.value = .message inner ∧ entry.type.valueType = some inner.type ∧
        inside inner
    else
      owner.descriptor.isExtensionNumber entry.type.number = true ∧
        table.entry? entry.type.number = none ∧ entry.type.codec.Fits inside entry.value

/-- A message fits its type, given what is asked of the messages inside it and how deeply unknown
groups may nest. -/
structure Typed (catalog : Catalog) (table : FieldTable) (inside : Message → Prop) (depth : Nat)
    (message : Message) : Prop where
  slots : message.slots.length = message.type.fields.length
  cache : message.cache.clear = message.type.newMessage.cache
  unknownPlace : message.unknown.isSome = message.type.storage.unknownFields
  extensionPlace : message.extensions.isSome = message.type.storage.extensions
  fits : ∀ entry ∈ table.entries, ∀ value, message.slot? entry.position = some value →
    entry.codec.Fits inside value
  /-- Fields without presence hold a value. -/
  present : ∀ entry ∈ table.entries, entry.mayBeAbsent = false →
    (message.slot? entry.position).isSome = true
  /-- At most one member of each oneof is set. -/
  exclusive : ∀ position other, message.type.areSiblings position other = true →
    (message.slot? position).isSome = true → message.slot? other = none
  distinct : (message.attached.map (·.type.number)).Nodup
  attached : ∀ entry ∈ message.attached,
    FitsAttached catalog table inside message.type entry
  unknown : ∃ records : List Bytes, message.unknown.getD [] = records.flatten ∧
    ∀ record ∈ records, catalog.KeepsRecord table message.type depth record

/-- Messages whose tables can be built and that fit their types, with at most the given number
of levels of nesting. -/
def WellTyped (catalog : Catalog) : Nat → Message → Prop
  | 0, message =>
      ∃ table, catalog.table message.type = .ok table ∧
        message.Typed catalog table (fun _ => False) 0
  | depth + 1, message =>
      ∃ table, catalog.table message.type = .ok table ∧
        message.Typed catalog table (WellTyped catalog depth) (depth + 1)

/-- What is asked of the messages inside a message that is well typed for some levels. -/
def Inside (catalog : Catalog) : Nat → Message → Prop
  | 0 => fun _ => False
  | depth + 1 => WellTyped catalog depth

/-- A message is well typed if it fits the table of its type, and the messages inside are well typed
for one level less. -/
theorem wellTyped_iff {catalog : Catalog} {depth : Nat} {message : Message} :
    message.WellTyped catalog depth ↔
      ∃ table, catalog.table message.type = .ok table ∧
        message.Typed catalog table (Inside catalog depth) depth := by
  cases depth <;> rfl

end MessageOf

namespace FieldCodec

variable {inside : Message → Prop} {codec : FieldCodec}

theorem fits_iff_fitsOne (single : codec.arrangement.isRepeated = false) {value : Value} :
    codec.Fits inside value ↔ codec.FitsOne inside value := by
  rw [Fits, single, if_neg Bool.false_ne_true]

/-- A repeated field holds a list of values that fit it one by one. -/
theorem fits_iff_items (repeated : codec.arrangement.isRepeated = true) {value : Value} :
    codec.Fits inside value ↔
      ∃ items, value = .list items ∧ ∀ item ∈ items, codec.FitsOne inside item := by
  rw [Fits, if_pos repeated]

/-- What has a payload is neither a message nor a list. -/
theorem plain_of_payload? {kind : Kind} {value : Value}
    (h : (kind.payload? value).isSome = true) : value.messages = [] := by
  cases value with
  | message | list => cases kind <;> simp [Kind.payload?] at h
  | _ => rfl

/-- A value of a message or group field is a message of its type. -/
theorem FitsOne.exists_message {value : Value} (nested : codec.kind.isMessage = true)
    (h : codec.FitsOne inside value) :
    ∃ inner, value = .message inner ∧ codec.valueType = some inner.type ∧
      (codec.kind = .group → inner.type.descriptor.messageSet = false) ∧ inside inner := by
  cases value with
  | message inner => exact ⟨inner, rfl, h.2⟩
  | _ =>
      have scalar : (codec.kind.payload? _).isSome = true := h
      cases kind : codec.kind <;> simp [kind, Kind.isMessage] at nested <;>
        simp [kind, Kind.payload?] at scalar

/-- A value of any other field has a payload. -/
theorem FitsOne.exists_payload {value : Value} (scalar : codec.kind.isMessage = false)
    (h : codec.FitsOne inside value) : ∃ payload, codec.kind.payload? value = some payload := by
  cases value with
  | message inner =>
      obtain ⟨kind, -⟩ := h
      rw [scalar] at kind
      simp at kind
  | _ => exact Option.isSome_iff_exists.1 h

/-- A scalar that fits has a payload. -/
theorem Fits.exists_payload {value : Value} (scalar : codec.kind.isMessage = false)
    (single : codec.arrangement.isRepeated = false) (h : codec.Fits inside value) :
    ∃ payload, codec.kind.payload? value = some payload :=
  ((fits_iff_fitsOne single).1 h).exists_payload scalar

theorem Fits.exists_payloads {value : Value} (scalar : codec.kind.isMessage = false)
    (repeated : codec.arrangement.isRepeated = true) (h : codec.Fits inside value) :
    ∃ items payloads, value = .list items ∧
      List.Forall₂ (fun item payload => codec.kind.payload? item = some payload)
        items payloads := by
  have all : ∀ items, (∀ item ∈ items, codec.FitsOne inside item) → ∃ payloads,
      List.Forall₂ (fun item payload => codec.kind.payload? item = some payload)
        items payloads := by
    intro items each
    induction items with
    | nil => exact ⟨[], .nil⟩
    | cons item items ih =>
        obtain ⟨payloads, rest⟩ := ih fun other mem => each other (List.mem_cons_of_mem _ mem)
        obtain ⟨payload, first⟩ := (each item List.mem_cons_self).exists_payload scalar
        exact ⟨payload :: payloads, .cons first rest⟩
  obtain ⟨items, rfl, each⟩ := (fits_iff_items repeated).1 h
  obtain ⟨payloads, all'⟩ := all items each
  exact ⟨items, payloads, rfl, all'⟩

/-- A message in a single value is of the field's type, which is no message set in a group. -/
theorem FitsOne.of_mem {value : Value} (h : codec.FitsOne inside value) {inner : Message}
    (mem : inner ∈ value.messages) :
    codec.kind.isMessage = true ∧ codec.valueType = some inner.type ∧
      (codec.kind = .group → inner.type.descriptor.messageSet = false) ∧ inside inner := by
  cases value with
  | message message =>
      rw [Value.messages_message, List.mem_singleton] at mem
      subst mem
      exact h
  -- no kind has lists for single values
  | list items =>
      have scalar : (codec.kind.payload? (.list items)).isSome = true := h
      cases kind : codec.kind <;> simp [kind, Kind.payload?] at scalar
  | _ => simp [Value.messages] at mem

theorem Fits.isRepeated_of_list {items : List Value} (h : codec.Fits inside (.list items)) :
    codec.arrangement.isRepeated = true := by
  rw [Fits] at h
  split at h
  · assumption
  · have scalar : (codec.kind.payload? (.list items)).isSome = true := h
    cases kind : codec.kind <;> simp [kind, Kind.payload?] at scalar

/-- The messages in a value of a field are of the field's type. -/
theorem Fits.of_mem {value : Value} (h : codec.Fits inside value) {inner : Message}
    (mem : inner ∈ value.messages) :
    codec.kind.isMessage = true ∧ codec.valueType = some inner.type ∧
      (codec.kind = .group → inner.type.descriptor.messageSet = false) ∧ inside inner := by
  rw [Fits] at h
  split at h
  · obtain ⟨items, rfl, all⟩ := h
    rw [Value.messages_list] at mem
    obtain ⟨item, listed, deep⟩ := List.mem_flatMap.1 mem
    exact (all item listed).of_mem deep
  · exact h.of_mem mem

end FieldCodec

/-! ## Registered types -/

namespace MessageOf

variable {store : Store} {message inner : Message} {table : FieldTable} {inside : Message → Prop}
  {depth : Nat}

/-- A slot that holds something belongs to a field of the table. -/
theorem Typed.exists_entry (sound : store.Sound) (held : store.Holds message.type)
    (found : store.catalog.table message.type = .ok table)
    (typed : message.Typed store.catalog table inside depth) {position : Nat} {value : Value}
    (h : message.slot? position = some value) :
    ∃ entry ∈ table.entries, entry.position = position := by
  have bound := lt_length_of_slot? h
  rw [typed.slots] at bound
  obtain ⟨entry, mem, valueType, -, rfl⟩ :=
    (sound.builds_of_table held found).exists_entry (List.getElem?_eq_getElem bound)
  exact ⟨_, mem, rfl⟩

/-- An extension of a fitting message is the one that is registered under its number, and its value
fits. -/
theorem Typed.of_extension? {catalog : Catalog} {number : Nat} {entry : Attached}
    (typed : message.Typed catalog table inside depth)
    (held : message.extension? number = some entry) :
    catalog.extension? message.type number = some entry.type ∧
      if table.isMessageSet then
        ∃ inner, entry.value = .message inner ∧ entry.type.valueType = some inner.type ∧
          inside inner
      else
        message.type.descriptor.isExtensionNumber number = true ∧
          table.entry? number = none ∧ entry.type.codec.Fits inside entry.value := by
  have fits := typed.attached entry (List.mem_of_find?_eq_some held)
  have same := List.find?_some held
  rw [beq_iff_eq] at same
  rw [FitsAttached, same] at fits
  exact fits

/-- Reading a message of the type comes across the types of what stands inside a fitting one. -/
theorem Typed.opens_of_mem (sound : store.Sound) (held : store.Holds message.type)
    (found : store.catalog.table message.type = .ok table)
    (typed : message.Typed store.catalog table inside depth) (mem : inner ∈ message.children) :
    inside inner ∧ store.Opens message.type inner.type := by
  obtain ⟨value, holds, deep⟩ := List.mem_flatMap.1 mem
  -- the value stands in a slot or belongs to an extension
  rcases mem_values_iff.1 holds with ⟨position, slot⟩ | ⟨entry, listed, rfl⟩
  · obtain ⟨entry, listed, rfl⟩ := typed.exists_entry sound held found slot
    obtain ⟨-, type, -, holds⟩ := (typed.fits entry listed value slot).of_mem deep
    exact ⟨holds, .inl ((sound.builds_of_table held found).links_of_mem listed type)⟩
  · obtain ⟨registered, rest⟩ := typed.attached entry listed
    split at rest
    · obtain ⟨message', eq, type, holds⟩ := rest
      rw [eq, Value.messages_message, List.mem_singleton] at deep
      subst deep
      exact ⟨holds, .inr ⟨_, _, registered, type⟩⟩
    · obtain ⟨-, -, fits⟩ := rest
      obtain ⟨-, type, -, holds⟩ := fits.of_mem deep
      exact ⟨holds, .inr ⟨_, _, registered, type⟩⟩

/-- A message inside a fitting one is of a type that the same registry holds. -/
theorem Typed.of_mem (sound : store.Sound) (held : store.Holds message.type)
    (found : store.catalog.table message.type = .ok table)
    (typed : message.Typed store.catalog table inside depth) (mem : inner ∈ message.children) :
    inside inner ∧ store.Holds inner.type ∧ inner.type.registry = message.type.registry := by
  obtain ⟨holds, opens⟩ := typed.opens_of_mem sound held found mem
  exact ⟨holds, sound.home_of_opens opens⟩

/-- The messages inside a well-typed message are well typed for fewer levels. -/
theorem WellTyped.of_mem (sound : store.Sound) (held : store.Holds message.type)
    (h : message.WellTyped store.catalog depth) (mem : inner ∈ message.children) :
    ∃ lower, depth = lower + 1 ∧ inner.WellTyped store.catalog lower ∧ store.Holds inner.type ∧
      inner.type.registry = message.type.registry := by
  obtain ⟨table, found, typed⟩ := wellTyped_iff.1 h
  obtain ⟨holds, held', home⟩ := typed.of_mem sound held found mem
  cases depth with
  | zero => exact holds.elim
  | succ lower => exact ⟨lower, rfl, holds, held', home⟩

/-- Reading a message of the type comes across the types of the messages inside well-typed ones. -/
theorem WellTyped.opens_of_mem (sound : store.Sound) (held : store.Holds message.type)
    (h : message.WellTyped store.catalog depth) (mem : inner ∈ message.children) :
    store.Opens message.type inner.type := by
  obtain ⟨table, found, typed⟩ := wellTyped_iff.1 h
  exact (typed.opens_of_mem sound held found mem).2

/-- A well-typed message of a registered type is registered. -/
theorem WellTyped.registered (sound : store.Sound) (held : store.Holds message.type)
    (h : message.WellTyped store.catalog depth) : message.Registered store := by
  induction message using MessageOf.induction generalizing depth with
  | step message ih =>
      obtain ⟨table, found, typed⟩ := wellTyped_iff.1 h
      refine .intro held ?_ ?_
      · intro entry mem
        exact (Store.mem_extensions_of_extension? (typed.attached entry mem).1).1
      · intro inner mem
        obtain ⟨lower, -, wellTyped, held', -⟩ := h.of_mem sound held mem
        exact ih inner mem held' wellTyped

end MessageOf

/-! ## Wire forms -/

namespace FieldCodec

variable {inside : Message → Prop} {codec : FieldCodec}

/-- A list has payloads if each of its items has one. -/
theorem payloads_eq_ok_iff {position : Nat} {items : List Value} {payloads : List Payload} :
    codec.payloads position items = .ok payloads ↔
      List.Forall₂ (fun item payload => codec.kind.payload? item = some payload) items
        payloads := by
  induction items generalizing position payloads with
  | nil => cases payloads <;> simp [FieldCodec.payloads]
  | cons item items ih =>
      simp only [FieldCodec.payloads, payloadAt]
      -- the first value without a payload is the error
      cases first : codec.kind.payload? item with
      | none =>
          simp only [reduceCtorEq, false_iff]
          intro all
          cases all with
          | cons head _ => simp [first] at head
      | some payload =>
          simp only
          cases rest : codec.payloads (position + 1) items with
          | error error =>
              simp only [reduceCtorEq, false_iff]
              intro all
              cases all with
              | cons _ tail =>
                  rw [ih.2 tail] at rest
                  simp at rest
          | ok others =>
              simp only [Except.ok.injEq]
              constructor
              · rintro rfl
                exact .cons first (ih.1 rest)
              · intro all
                cases all with
                | @cons _ payload' _ others' head tail =>
                    rw [first] at head
                    rw [ih.2 tail] at rest
                    cases head
                    cases rest
                    rfl

theorem toPiece_writeRecords (position : Nat) (items : List Value) :
    (codec.writeRecords position items).toPiece =
      .join (Piece.each (fun item => (codec.writeRecord item).toPiece) position items) := by
  induction items generalizing position with
  | nil => rfl
  | cons item items ih =>
      rw [writeRecords, Piece.each, List.zipIdx_cons, List.map_cons, ← Output.toPiece_under]
      exact Output.toPiece_andThen_join (ih (position + 1))

theorem toPiece_writeRecord {value : Value} {payload : Payload}
    (h : codec.kind.payload? value = some payload) :
    (codec.writeRecord value).toPiece = .ok (codec.tag ++ payload.write) := by
  simp only [writeRecord, h, Output.toPiece_ofBytes]

/-- A packed list is its tag, the size of its payloads and the payloads. -/
theorem toPiece_writePacked {items : List Value} {payloads : List Payload}
    (all : List.Forall₂ (fun item payload => codec.kind.payload? item = some payload)
      items payloads) (nonempty : items ≠ []) :
    (codec.writePacked items).toPiece =
      .ok (codec.tag ++ Varint.write (Payload.totalSize payloads) ++
        payloads.flatMap Payload.write) := by
  have eq : codec.payloads 0 items = .ok payloads := payloads_eq_ok_iff.2 all
  rw [writePacked, if_neg (by simpa using nonempty)]
  simp only [eq, Output.toPiece_ofBytes]

/-- A scalar field with a value that fits can be written. -/
theorem exists_writeScalar {value : Value} (scalar : codec.kind.isMessage = false)
    (h : codec.Fits inside value) : ∃ bytes, (codec.writeScalar value).toPiece = .ok bytes := by
  cases arrangement : codec.arrangement with
  | implicit =>
      obtain ⟨payload, eq⟩ := h.exists_payload scalar (by rw [arrangement]; rfl)
      simp only [writeScalar, arrangement, eq]
      -- a zero is left out
      split
      · exact ⟨[], rfl⟩
      · exact ⟨_, rfl⟩
  | explicit =>
      obtain ⟨payload, eq⟩ := h.exists_payload scalar (by rw [arrangement]; rfl)
      simp only [writeScalar, arrangement]
      exact ⟨_, toPiece_writeRecord eq⟩
  | packed =>
      obtain ⟨items, payloads, rfl, all⟩ := h.exists_payloads scalar (by rw [arrangement]; rfl)
      simp only [writeScalar, arrangement]
      by_cases empty : items = []
      · subst empty
        exact ⟨[], rfl⟩
      · exact ⟨_, toPiece_writePacked all empty⟩
  | expanded =>
      obtain ⟨items, payloads, rfl, all⟩ := h.exists_payloads scalar (by rw [arrangement]; rfl)
      simp only [writeScalar, arrangement, toPiece_writeRecords]
      have parts : List.Forall₂ (fun item part => (codec.writeRecord item).toPiece = .ok part)
          items (payloads.map fun payload => codec.tag ++ payload.write) := by
        rw [List.forall₂_map_right_iff]
        exact all.imp fun item payload eq => toPiece_writeRecord eq
      exact ⟨_, Piece.join_each_eq_ok_iff.2 (Piece.join_map_eq_ok_iff.2 ⟨_, parts, rfl⟩)⟩

/-- A message in a value can be written if the message can. -/
theorem exists_wireNested {form : Message → Piece} {value : Value}
    (nested : codec.kind.isMessage = true) (h : codec.FitsOne inside value)
    (forms : ∀ inner ∈ value.messages, ∃ body, form inner = .ok body) :
    ∃ bytes, codec.wireNested form value = .ok bytes := by
  obtain ⟨inner, rfl, type, -, -⟩ := h.exists_message nested
  obtain ⟨body, eq⟩ := forms inner (by simp)
  simp only [wireNested, type, ne_eq, not_true_eq_false, if_false, eq]
  split
  · exact ⟨_, rfl⟩
  · exact ⟨_, rfl⟩

/-- A field with a value that fits can be written if the messages in it can. -/
theorem exists_wire {form : Message → Piece} {value : Value} (h : codec.Fits inside value)
    (forms : ∀ inner ∈ value.messages, ∃ body, form inner = .ok body) :
    ∃ bytes, codec.wire form value = .ok bytes := by
  -- scalars do not ask for the forms of messages
  cases nested : codec.kind.isMessage with
  | false =>
      simp only [wire, nested, Bool.not_false, if_true]
      exact exists_writeScalar nested h
  | true =>
      cases repeated : codec.arrangement.isRepeated with
      | false =>
          simp only [wire, nested, repeated, Bool.not_true, Bool.false_eq_true, if_false]
          exact exists_wireNested nested ((fits_iff_fitsOne repeated).1 h) forms
      | true =>
          obtain ⟨items, rfl, all⟩ := (fits_iff_items repeated).1 h
          simp only [wire, nested, repeated, Bool.not_true, Bool.false_eq_true, if_false, if_true]
          have pieces : ∀ item ∈ items, ∃ bytes, codec.wireNested form item = .ok bytes := by
            intro item mem
            exact exists_wireNested nested (all item mem) fun inner deep =>
              forms inner (Value.mem_messages_of_mem_items mem deep)
          obtain ⟨bytes, joined⟩ := Piece.exists_join_map pieces
          exact ⟨bytes, Piece.join_each_eq_ok_iff.2 joined⟩

end FieldCodec

namespace MessageOf

variable {store : Store} {message : Message} {depth : Nat}

theorem wireItem_of_value {form : Message → Piece} {entry : Attached} {inner : Message}
    {body : Bytes} (value : entry.value = .message inner)
    (type : entry.type.valueType = some inner.type) (h : form inner = .ok body) :
    wireItem form entry =
      .ok (Tag.write itemNumber .startGroup ++
        (itemContent entry.type.number body ++ Tag.write itemNumber .endGroup)) := by
  have item : itemMessage entry = .ok inner := by
    simp only [itemMessage, value, type, if_true]
  simp only [wireItem, item, h, itemContent, List.append_assoc]

section

variable {form : Message → Piece} {table : FieldTable} {inside : Message → Prop}

/-- An item can be written if the message in it can. -/
theorem FitsAttached.exists_wireItem {catalog : Catalog} {owner : MessageType} {entry : Attached}
    (isSet : table.isMessageSet = true) (fits : FitsAttached catalog table inside owner entry)
    (forms : ∀ inner ∈ entry.value.messages, ∃ body, form inner = .ok body) :
    ∃ bytes, wireItem form entry = .ok bytes := by
  obtain ⟨-, fits⟩ := fits
  rw [if_pos isSet] at fits
  obtain ⟨inner, value, type, -⟩ := fits
  obtain ⟨body, eq⟩ := forms inner (by simp [value])
  exact ⟨_, wireItem_of_value value type eq⟩

/-- An extension can be written by its own codec. -/
theorem FitsAttached.exists_wireAttached {owner : MessageType} {entry : Attached}
    (own : store.OwnCodecs owner) (regular : table.isMessageSet = false)
    (fits : FitsAttached store.catalog table inside owner entry)
    (forms : ∀ inner ∈ entry.value.messages, ∃ body, form inner = .ok body) :
    ∃ bytes, wireAttached form store.catalog owner entry = .ok bytes := by
  obtain ⟨known, fits⟩ := fits
  rw [regular, if_neg Bool.false_ne_true] at fits
  obtain ⟨bytes, eq⟩ := FieldCodec.exists_wire fits.2.2 forms
  rw [wireAttached, own.codec known]
  exact ⟨bytes, Piece.under_eq_ok_iff.2 eq⟩

/-- And so can each slot. -/
theorem Typed.exists_wireSlot {catalog : Catalog}
    (typed : message.Typed catalog table inside depth) {entry : FieldEntry}
    (mem : entry ∈ table.entries)
    (forms : ∀ inner ∈ message.children, ∃ body, form inner = .ok body) :
    ∃ bytes, message.wireSlot form entry = .ok bytes := by
  rw [wireSlot]
  cases slot : message.slot? entry.position with
  | none => exact ⟨[], rfl⟩
  | some value =>
      have held := mem_values_of_slot? slot
      obtain ⟨bytes, eq⟩ := FieldCodec.exists_wire (typed.fits entry mem value slot)
        fun inner deep => forms inner (mem_children_of_mem held deep)
      exact ⟨bytes, Piece.under_eq_ok_iff.2 eq⟩

/-- The pieces of a message that fits its type can be written if the messages inside it can. -/
theorem Typed.exists_wirePieces (sound : store.Sound) (held : store.Holds message.type)
    (own : store.OwnCodecs message.type)
    (found : store.catalog.table message.type = .ok table)
    (typed : message.Typed store.catalog table inside depth)
    (forms : ∀ inner ∈ message.children, ∃ body, form inner = .ok body) :
    ∃ front, Piece.join (message.wirePieces form store.catalog table) = .ok front := by
  have attached : ∀ entry ∈ message.attachedByNumber,
      FitsAttached store.catalog table inside message.type entry ∧
        ∀ inner ∈ entry.value.messages, ∃ body, form inner = .ok body := by
    intro entry mem
    rw [mem_attachedByNumber] at mem
    exact ⟨typed.attached entry mem, fun inner deep =>
      forms inner (mem_children_of_attached mem deep)⟩
  rw [wirePieces]
  -- a message set consists of items, any other message of extensions and fields
  cases isSet : table.isMessageSet with
  | true =>
      rw [if_pos rfl]
      apply Piece.exists_join_map
      intro entry mem
      obtain ⟨fits, forms'⟩ := attached entry mem
      obtain ⟨bytes, eq⟩ := fits.exists_wireItem isSet forms'
      exact ⟨bytes, Piece.under_eq_ok_iff.2 eq⟩
  | false =>
      rw [if_neg Bool.false_ne_true]
      have extensions : ∀ entry ∈ message.attachedByNumber, ∃ bytes,
          wireAttached form store.catalog message.type entry = .ok bytes := by
        intro entry mem
        obtain ⟨fits, forms'⟩ := attached entry mem
        exact fits.exists_wireAttached own isSet forms'
      have fields : ∀ entry ∈ table.writingOrder, ∃ bytes,
          message.wireSlot form entry = .ok bytes := by
        intro entry mem
        rw [(sound.builds_of_table held found).perm_writingOrder.mem_iff] at mem
        exact typed.exists_wireSlot mem forms
      obtain ⟨first, joined⟩ := Piece.exists_join_map extensions
      obtain ⟨rest, joined'⟩ := Piece.exists_join_map fields
      exact ⟨_, Piece.join_append_eq_ok_iff.2 ⟨first, rest, joined, joined', rfl⟩⟩

end

/-- A well-typed message has a wire form, where extensions are coded by their own codecs. -/
theorem WellTyped.exists_wireForm (sound : store.Sound) (held : store.Holds message.type)
    (own : store.OwnCodecs message.type) (h : message.WellTyped store.catalog depth) :
    ∃ bytes, message.wireForm store.catalog = .ok bytes := by
  induction message using MessageOf.induction generalizing depth with
  | step message ih =>
      obtain ⟨table, found, typed⟩ := wellTyped_iff.1 h
      have forms : ∀ inner ∈ message.children,
          ∃ body, inner.wireForm store.catalog = .ok body := by
        intro inner mem
        obtain ⟨lower, -, wellTyped, held', -⟩ := h.of_mem sound held mem
        exact ih inner mem held' (own.opens (h.opens_of_mem sound held mem)) wellTyped
      obtain ⟨front, joined⟩ := typed.exists_wirePieces sound held own found forms
      exact ⟨_, (wireForm_eq_ok_iff found).2 ⟨front, joined, rfl⟩⟩

end MessageOf

end ProtoWire
