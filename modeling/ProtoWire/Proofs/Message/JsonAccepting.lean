import ProtoWire.Proofs.Json.Representable
import ProtoWire.Proofs.Message.JsonReading
import ProtoWire.Proofs.Registry.Indexes

/-!
# Messages read from JSON

Every message that is read from a JSON value of 64-bit integers and finite numbers holds in its
fields and extensions what their declarations allow, at every depth, except that its numbers of 32
bits need not be finite (`Registry.composes_readMessageAt`).
-/

set_option autoImplicit false

namespace ProtoWire

theorem exists_of_bind_eq_ok {ε α β : Type} {x : Except ε α} {f : α → Except ε β} {b : β}
    (h : x >>= f = .ok b) : ∃ a, x = .ok a ∧ f a = .ok b := by
  cases x with
  | error => cases h
  | ok a => exact ⟨a, rfl, h⟩

theorem mapError_eq_ok_iff {ε ε' α : Type} {x : Except ε α} {f : ε → ε'} {a : α} :
    x.mapError f = .ok a ↔ x = .ok a := by
  cases x <;> simp [Except.mapError]

/-! ## Values -/

/-- The numbers of 32 bits in the value of a field are finite. -/
def Value.FiniteSingles (value : Value) : Prop :=
  ∀ bits, value = .single bits ∨ .single bits ∈ value.items →
    BinaryFormat.single.Finite bits.toNat

namespace FieldDescriptor

/-- One value that is read for a field: one that the field holds, except that a number of 32 bits
need not be finite. -/
def GivesOne (registry : Registry) (field : FieldDescriptor) : Value → Prop
  | .single _ => field.kind = .float
  | value => field.HoldsOne registry value

/-- A value that is read for a field. -/
def Gives (registry : Registry) (field : FieldDescriptor) (value : Value) : Prop :=
  if field.isRepeated then
    ∃ items, value = .list items ∧ ∀ item ∈ items, field.GivesOne registry item
  else field.GivesOne registry value

variable {registry : Registry} {field : FieldDescriptor} {json : Json} {value : Value}
  {read : MessageType → Json → Except Unfit Message}

/-- What is read for a field of messages. -/
def Nests (registry : Registry) (field : FieldDescriptor)
    (read : MessageType → Json → Except Unfit Message) (P : Message → Prop) : Prop :=
  ∀ type json after, field.kind.isMessage = true →
    registry.type? (field.messageType.getD "") = some type → json.Representable →
      read type json = .ok after → after.type = type ∧ after.Throughout P

theorem readDouble_eq_ok_iff {bits : UInt64} :
    field.readDouble json = .ok bits ↔ json.toDouble? = some bits := by
  rw [readDouble]
  cases json.toDouble? <;> simp

/-- What is read is what the field may give. -/
theorem givesOne_of_readSingle {P : Message → Prop} (nests : field.Nests registry read P)
    (representable : json.Representable)
    (reads : field.readSingle read registry json = .ok value) :
    field.GivesOne registry value ∧ value.Throughout P := by
  have plain : value.messages = [] → value.Throughout P := Value.throughout_of_plain
  cases kind : field.kind with
  | enum | int32 | sint32 | sfixed32 | uint32 | fixed32 | int64 | sint64 | sfixed64 | uint64
  | fixed64 =>
      simp only [readSingle, kind] at reads
      obtain ⟨number, -, eq⟩ := exists_of_bind_eq_ok reads
      obtain rfl := Except.ok.inj eq
      exact ⟨by simp [GivesOne, HoldsOne, kind, Kind.payload?], plain rfl⟩
  | float =>
      simp only [readSingle, kind] at reads
      obtain ⟨bits, -, eq⟩ := exists_of_bind_eq_ok reads
      obtain rfl := Except.ok.inj eq
      exact ⟨kind, plain rfl⟩
  | double =>
      simp only [readSingle, kind] at reads
      obtain ⟨bits, number, eq⟩ := exists_of_bind_eq_ok reads
      obtain rfl := Except.ok.inj eq
      exact ⟨⟨kind, representable.finite_toDouble (readDouble_eq_ok_iff.1 number)⟩, plain rfl⟩
  | bool | string =>
      simp only [readSingle, kind] at reads
      split at reads
      · obtain rfl := Except.ok.inj reads
        exact ⟨by simp [GivesOne, HoldsOne, kind, Kind.payload?], plain rfl⟩
      · cases reads
  | bytes =>
      simp only [readSingle, kind] at reads
      split at reads
      · split at reads
        · obtain rfl := Except.ok.inj reads
          exact ⟨by simp [GivesOne, HoldsOne, kind, Kind.payload?], plain rfl⟩
        · cases reads
      · cases reads
  | message | group =>
      simp only [readSingle, kind] at reads
      split at reads
      · next type found =>
          obtain ⟨after, read, eq⟩ := exists_of_bind_eq_ok reads
          obtain rfl := Except.ok.inj eq
          have isMessage : field.kind.isMessage = true := by rw [kind]; rfl
          obtain ⟨same, inside⟩ := nests type json after isMessage found representable read
          exact ⟨⟨isMessage, by rw [found, same]⟩, by simpa using inside⟩
      · cases reads

theorem gives_of_mapM_readSingle {P : Message → Prop} (nests : field.Nests registry read P)
    {items : List Json} {values : List Value} (representable : ∀ item ∈ items, item.Representable)
    (reads : items.mapM (field.readSingle read registry) = .ok values) :
    ∀ value ∈ values, field.GivesOne registry value ∧ value.Throughout P := by
  induction items generalizing values with
  | nil =>
      obtain rfl := Except.ok.inj reads
      simp
  | cons item items ih =>
      rw [List.forall_mem_cons] at representable
      rw [List.mapM_cons] at reads
      obtain ⟨first, here, reads'⟩ := exists_of_bind_eq_ok reads
      obtain ⟨rest, behind, eq⟩ := exists_of_bind_eq_ok reads'
      obtain rfl := Except.ok.inj eq
      exact List.forall_mem_cons.2
        ⟨givesOne_of_readSingle nests representable.1 here, ih representable.2 behind⟩

theorem gives_of_readValue {P : Message → Prop} (nests : field.Nests registry read P)
    (representable : json.Representable)
    (reads : field.readValue read registry json = .ok value) :
    field.Gives registry value ∧ value.Throughout P := by
  cases repeated : field.isRepeated with
  | false =>
      simp only [readValue, repeated, Bool.not_false, if_true] at reads
      rw [Gives, repeated, if_neg Bool.false_ne_true]
      exact givesOne_of_readSingle nests representable reads
  | true =>
      simp only [readValue, repeated, Bool.not_true, Bool.false_eq_true, if_false] at reads
      cases representable with
      | array representable =>
          obtain ⟨values, reads', eq⟩ := exists_of_bind_eq_ok reads
          obtain rfl := Except.ok.inj eq
          have each := gives_of_mapM_readSingle nests representable reads'
          rw [Gives, repeated, if_pos rfl]
          exact ⟨⟨values, rfl, fun item mem => (each item mem).1⟩,
            Value.throughout_list.2 fun item mem => (each item mem).2⟩
      | _ => cases reads

theorem GivesOne.holdsOne (gives : field.GivesOne registry value)
    (finite : ∀ bits, value = .single bits → BinaryFormat.single.Finite bits.toNat) :
    field.HoldsOne registry value := by
  cases value with
  | single bits => exact ⟨gives, finite bits rfl⟩
  | _ => exact gives

/-- A value that is read for a field is one that the field holds if its numbers are finite. -/
theorem Gives.holds (gives : field.Gives registry value) (finite : value.FiniteSingles) :
    field.Holds registry value := by
  rw [Gives] at gives
  rw [Holds]
  split at gives
  · next repeated =>
      obtain ⟨items, rfl, each⟩ := gives
      rw [if_pos repeated]
      refine ⟨items, rfl, fun item mem => (each item mem).holdsOne ?_⟩
      rintro bits rfl
      exact finite bits (.inr mem)
  · next single =>
      rw [if_neg single]
      exact gives.holdsOne fun bits eq => finite bits (.inl eq)

end FieldDescriptor

/-! ## Messages -/

namespace MessageOf

variable {registry : Registry} {message after : Message}

/-- What members set in a new message: fields and extensions hold values that were read for them,
whatever the messages in these are, and all else is as in the new message. -/
structure Composed (registry : Registry) (message : Message) : Prop where
  slots : message.slots.length = message.type.fields.length
  cache : message.cache = message.type.newMessage.cache
  unknown : message.unknown = message.type.newMessage.unknown
  place : message.extensions.isSome = message.type.storage.extensions
  gives : ∀ position field value, message.type.fields[position]? = some field →
    message.slot? position = some value → field.Gives registry value
  present : ∀ position field, message.type.fields[position]? = some field →
    message.slot? position = none →
      field.mayBeAbsent message.type.descriptor.generation = true
  exclusive : message.Exclusive
  distinct : (message.attached.map (·.type.number)).Nodup
  attached : ∀ entry ∈ message.attached, entry.type ∈ registry.extensions ∧
    entry.type.extendee = message.type.fullName ∧
    message.type.descriptor.isExtensionNumber entry.type.number = true ∧
    entry.type.descriptor.field.Gives registry entry.value

theorem gives_of_initialSlot {type : MessageType} {field : FieldDescriptor} {value : Value}
    (initial : type.initialSlot field = some value) : field.Gives registry value := by
  rw [MessageType.initialSlot] at initial
  split at initial
  · cases initial
  · next implicit =>
      have single : field.isRepeated = false := by
        rw [Bool.not_eq_true, FieldDescriptor.mayBeAbsent, Bool.or_eq_false_iff] at implicit
        exact implicit.1
      rw [FieldDescriptor.Gives, single, if_neg Bool.false_ne_true]
      cases kind : field.kind <;> rw [kind] at initial <;> cases initial
      all_goals first
        | exact kind
        | exact ⟨kind, BinaryFormat.finite_iff.2 (by decide)⟩
        | simp [FieldDescriptor.GivesOne, FieldDescriptor.HoldsOne, kind, Kind.payload?]

theorem composed_newMessage (type : MessageType) : type.newMessage.Composed registry where
  slots := by simp [MessageType.newMessage]
  cache := rfl
  unknown := rfl
  place := by
    rw [MessageType.newMessage]
    cases type.storage.extensions <;> rfl
  gives := by
    intro position field value declared held
    have declared' : type.fields[position]? = some field := declared
    rw [type.slot?_newMessage declared'] at held
    exact gives_of_initialSlot held
  present := by
    intro position field declared held
    have declared' : type.fields[position]? = some field := declared
    rw [type.slot?_newMessage declared'] at held
    cases implicit : field.mayBeAbsent type.descriptor.generation with
    | true => exact implicit
    | false =>
        have zero := isSome_zero? implicit
        rw [← type.initialSlot_of_implicit implicit, held] at zero
        cases zero
  exclusive := exclusive_newMessage type
  distinct := by simp
  attached := by simp

theorem Composed.lt_length (composed : message.Composed registry) {position : Nat}
    {field : FieldDescriptor} (declared : message.type.fields[position]? = some field) :
    position < message.slots.length := by
  rw [composed.slots]
  exact (List.getElem?_eq_some_iff.1 declared).1

/-- Setting a field to a value that was read for it. -/
theorem Composed.putField (composed : message.Composed registry) {position : Nat}
    {field : FieldDescriptor} (declared : message.type.fields[position]? = some field)
    {value : Value} (gives : field.Gives registry value) :
    (message.putField position value).Composed registry where
  slots := by rw [length_slots_putField, type_putField, composed.slots]
  cache := by rw [cache_putField, type_putField, composed.cache]
  unknown := by rw [unknown_putField, type_putField, composed.unknown]
  place := by rw [extensions_putField, type_putField, composed.place]
  gives := by
    intro other field' held declared' slot
    have inside := composed.lt_length declared
    rw [type_putField] at declared'
    rw [slot?_putField message inside] at slot
    split at slot
    · next same =>
        subst same
        rw [declared] at declared'
        cases declared'
        cases slot
        exact gives
    · split at slot
      · cases slot
      · exact composed.gives other field' held declared' slot
  present := by
    intro other field' declared' slot
    have inside := composed.lt_length declared
    rw [type_putField] at declared' ⊢
    rw [slot?_putField message inside] at slot
    split at slot
    · cases slot
    · split at slot
      · next siblings =>
          rw [MessageType.areSiblings_comm] at siblings
          exact mayBeAbsent_of_areSiblings siblings declared'
      · exact composed.present other field' declared' slot
  exclusive := composed.exclusive.putField position value
  distinct := by rw [attached_putField]; exact composed.distinct
  attached := by rw [attached_putField, type_putField]; exact composed.attached

/-- Attaching an extension with a value that was read for it. -/
theorem Composed.attach (composed : message.Composed registry) {entry : Attached}
    (registered : entry.type ∈ registry.extensions)
    (extendee : entry.type.extendee = message.type.fullName)
    (inRange : message.type.descriptor.isExtensionNumber entry.type.number = true)
    (gives : entry.type.descriptor.field.Gives registry entry.value) :
    (message.attach entry).Composed registry where
  slots := composed.slots
  cache := composed.cache
  unknown := composed.unknown
  place := by
    rw [MessageOf.attach, Option.isSome_map]
    exact composed.place
  gives := composed.gives
  present := composed.present
  exclusive := composed.exclusive.congr rfl fun _ => rfl
  distinct := nodup_attach message composed.distinct entry
  attached := by
    intro other mem
    rcases mem_attached_attach mem with rfl | before
    · exact ⟨registered, extendee, inRange, gives⟩
    · exact composed.attached other before

theorem Composed.known (composed : message.Composed registry) :
    message.unknown.getD [] = [] := by
  rw [composed.unknown, MessageType.newMessage]
  cases message.type.storage.unknownFields <;> rfl

/-- A composed message conforms to its type if its numbers of 32 bits are finite. -/
theorem Composed.conforms (composed : message.Composed registry)
    (finite : ∀ value ∈ message.values, value.FiniteSingles) : message.Conforms registry where
  slots := composed.slots
  cache := by
    rw [composed.cache, MessageType.newMessage]
    cases message.type.storage.sizeCache <;> rfl
  unknownPlace := by
    rw [composed.unknown, MessageType.newMessage]
    cases message.type.storage.unknownFields <;> rfl
  known := composed.known
  extensionPlace := composed.place
  holds := fun position field value declared held =>
    (composed.gives position field value declared held).holds
      (finite value (mem_values_of_slot? held))
  present := composed.present
  exclusive := composed.exclusive
  distinct := composed.distinct
  attached := by
    intro entry mem
    obtain ⟨registered, extendee, inRange, gives⟩ := composed.attached entry mem
    exact ⟨registered, extendee, inRange, gives.holds (finite _ (mem_values_of_attached mem))⟩

/-! ## Members -/

section

variable {read : MessageType → Json → Except Unfit Message} {key : String} {json : Json}

/-- A member that is read sets a field or an extension to a value that is read for it. -/
theorem cases_of_readMember (sound : registry.Sound)
    (reads : registry.readMember read message key json = .ok after) :
    (∃ field ∈ message.type.fields, ∃ value, field.readValue read registry json = .ok value ∧
      message.set field.number value = .ok after) ∨
    ∃ extension ∈ registry.extensions, ∃ value,
      extension.descriptor.field.readValue read registry json = .ok value ∧
        message.setExtension extension value = .ok after := by
  rw [Registry.readMember] at reads
  split at reads
  · next name _ =>
      right
      split at reads
      · cases reads
      · next extension found =>
          obtain ⟨value, reads, set⟩ := exists_of_bind_eq_ok reads
          exact ⟨extension, (sound.extensionNamed?_eq_some_iff.1 found).2, value, reads,
            mapError_eq_ok_iff.1 set⟩
  · left
    split at reads
    · cases reads
    · next field found =>
        obtain ⟨value, reads, set⟩ := exists_of_bind_eq_ok reads
        exact ⟨field, List.mem_of_find?_eq_some found, value, mapError_eq_ok_iff.1 reads,
          mapError_eq_ok_iff.1 set⟩

/-- Messages of whole types are read as composed messages of these types. -/
def Composes (registry : Registry) (read : MessageType → Json → Except Unfit Message) : Prop :=
  ∀ type json after, type ∈ registry.types → registry.Whole type → json.Representable →
    read type json = .ok after → after.type = type ∧ after.Throughout (Composed registry)

variable (sound : registry.Sound) (vouched : registry.Vouched)
  (composes : Composes registry read) (representable : json.Representable)

include sound vouched composes representable in
/-- Reading a member keeps messages composed. -/
theorem composed_of_readMember (whole : registry.Whole message.type)
    (composed : message.Throughout (Composed registry))
    (reads : registry.readMember read message key json = .ok after) :
    after.type = message.type ∧ after.Throughout (Composed registry) := by
  have here := composed.here
  rcases cases_of_readMember sound reads with
    ⟨field, mem, value, reads, set⟩ | ⟨extension, registered, value, reads, set⟩
  · obtain ⟨position, declared⟩ := List.mem_iff_getElem?.1 mem
    have nests : field.Nests registry read (Composed registry) := by
      intro type json after isMessage found
      obtain ⟨listed, whole'⟩ := whole.of_field declared isMessage found
      exact composes type json after listed whole'
    obtain ⟨gives, inside⟩ := FieldDescriptor.gives_of_readValue nests representable reads
    have put := set
    rw [set_number (whole _ .refl).nodup_numbers declared] at put
    obtain rfl := Except.ok.inj put
    exact ⟨type_putField .., composed.set inside set (here.putField declared gives)⟩
  · have nests : extension.descriptor.field.Nests registry read (Composed registry) := by
      intro type json after isMessage found
      obtain ⟨listed, whole'⟩ := vouched.whole_of_extension sound registered isMessage found
      exact composes type json after listed whole'
    obtain ⟨gives, inside⟩ := FieldDescriptor.gives_of_readValue nests representable reads
    obtain ⟨rfl, extendee, inRange⟩ := of_setExtension set
    exact ⟨rfl, composed.setExtension inside set (here.attach registered extendee inRange gives)⟩

end

section

variable {read : MessageType → Json → Except Unfit Message} (sound : registry.Sound)
  (vouched : registry.Vouched) (composes : Composes registry read)

include sound vouched composes in
/-- Reading members one after the other keeps messages composed. -/
theorem composed_of_readMembers {members : List (String × Json)}
    (representable : ∀ member ∈ members, member.2.Representable)
    (whole : registry.Whole message.type) (composed : message.Throughout (Composed registry))
    (reads : members.foldlM
      (fun message member => registry.readMember read message member.1 member.2) message =
        .ok after) :
    after.type = message.type ∧ after.Throughout (Composed registry) := by
  induction members generalizing message with
  | nil =>
      obtain rfl := Except.ok.inj reads
      exact ⟨rfl, composed⟩
  | cons member members ih =>
      rw [List.forall_mem_cons] at representable
      rw [List.foldlM_cons] at reads
      obtain ⟨next, here, behind⟩ := exists_of_bind_eq_ok reads
      obtain ⟨type, composed'⟩ := composed_of_readMember sound vouched composes representable.1
        whole composed here
      rw [← type]
      exact ih representable.2 (type ▸ whole) composed' behind

end

end MessageOf

open MessageOf (Composed Composes)

namespace Registry

variable {registry : Registry}

/-- Whatever JSON value is read as a message of a whole type, the message is of that type and is
composed, and so are all messages inside it. -/
theorem composes_readMessageAt (sound : registry.Sound) (vouched : registry.Vouched)
    (depth : Nat) : Composes registry (registry.readMessageAt depth) := by
  induction depth with
  | zero =>
      intro type json after _ _ _ reads
      cases reads
  | succ depth ih =>
      intro type json after mem whole representable reads
      cases representable with
      | object representable =>
          have new : type.newMessage.Throughout (Composed registry) :=
            MessageOf.throughout_newMessage (MessageOf.composed_newMessage type)
          exact MessageOf.composed_of_readMembers sound vouched ih representable whole new reads
      | _ => cases reads

end Registry

end ProtoWire
