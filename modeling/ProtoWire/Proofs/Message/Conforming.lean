import ProtoWire.Message.Equality
import ProtoWire.Proofs.Message.Content
import ProtoWire.Proofs.Message.Oneof
import ProtoWire.Proofs.Number.Binary
import ProtoWire.Proofs.Registry.Vouching

/-!
# Messages that conform to their types

A message conforms to its type if its fields and extensions hold values of the declared kinds, all
of them finite where they are floating-point numbers, and if it has no unknown bytes
(`MessageOf.Conforms`). The messages in it are of types that its own type or an extension vouches
for (`Conforms.whole`), and every message of its content is equal to it (`eq_of_content`).
-/

set_option autoImplicit false

namespace ProtoWire

/-! ## Values of a field -/

namespace FieldDescriptor

/-- One value of a field: a scalar of its kind, which is finite if it is a floating-point number,
or a message of the type that the registry finds for the field. -/
def HoldsOne (registry : Registry) (field : FieldDescriptor) : Value → Prop
  | .single bits => field.kind = .float ∧ BinaryFormat.single.Finite bits.toNat
  | .double bits => field.kind = .double ∧ BinaryFormat.double.Finite bits.toNat
  | .message inner =>
      field.kind.isMessage = true ∧
        registry.type? (field.messageType.getD "") = some inner.type
  | value => (field.kind.payload? value).isSome = true

/-- A value of a field: a list for a repeated field, a single value for any other. -/
def Holds (registry : Registry) (field : FieldDescriptor) (value : Value) : Prop :=
  if field.isRepeated then
    ∃ items, value = .list items ∧ ∀ item ∈ items, field.HoldsOne registry item
  else field.HoldsOne registry value

variable {registry : Registry} {field : FieldDescriptor} {value : Value} {inner : Message}

theorem HoldsOne.eq_message (holds : field.HoldsOne registry value)
    (isMessage : field.kind.isMessage = true) : ∃ inner, value = .message inner := by
  cases value with
  | message inner => exact ⟨inner, rfl⟩
  | single | double => simp [holds.1, Kind.isMessage] at isMessage
  | _ =>
      cases kind : field.kind <;> simp [kind, Kind.isMessage] at isMessage <;>
        simp [HoldsOne, kind, Kind.payload?] at holds

/-- A single value is no list. -/
theorem HoldsOne.ne_list (holds : field.HoldsOne registry value) (items : List Value) :
    value ≠ .list items := by
  rintro rfl
  cases kind : field.kind <;> simp [HoldsOne, kind, Kind.payload?] at holds

theorem HoldsOne.type? (holds : field.HoldsOne registry value) (inside : inner ∈ value.messages) :
    field.kind.isMessage = true ∧ registry.type? (field.messageType.getD "") = some inner.type := by
  cases value with
  | message held =>
      rw [Value.messages_message, List.mem_singleton] at inside
      subst inside
      exact holds
  | list items => exact absurd rfl (holds.ne_list items)
  | _ => simp [Value.messages] at inside

/-- The messages in a value are of the type that the registry finds for the field. -/
theorem Holds.type? (holds : field.Holds registry value) (inside : inner ∈ value.messages) :
    field.kind.isMessage = true ∧ registry.type? (field.messageType.getD "") = some inner.type := by
  rw [Holds] at holds
  split at holds
  · obtain ⟨items, rfl, all⟩ := holds
    rw [Value.messages_list] at inside
    obtain ⟨item, mem, inside⟩ := List.mem_flatMap.1 inside
    exact (all item mem).type? inside
  · exact holds.type? inside

end FieldDescriptor

/-- What the registry finds for a field of messages, a type that resolves is linked to. -/
theorem Registry.Resolvable.links_of_type? {registry : Registry} {type other : MessageType}
    (resolvable : registry.Resolvable type) {position : Nat} {field : FieldDescriptor}
    (declared : type.fields[position]? = some field) (isMessage : field.kind.isMessage = true)
    (found : registry.type? (field.messageType.getD "") = some other) :
    registry.Links type other := by
  obtain ⟨valueTypes, resolved⟩ := resolvable
  have builds : registry.Builds type (.build type valueTypes true) := ⟨_, _, resolved, rfl⟩
  obtain ⟨-, -, valueType, resolves, -⟩ := builds.exists_entry declared
  refine ⟨field, List.mem_of_getElem? declared, ?_⟩
  -- the field names a type, so that nothing else is looked up instead
  have named := resolves.named isMessage
  rw [resolves.value, FieldDescriptor.valueTypeName?, if_pos isMessage] at named
  rw [FieldDescriptor.valueTypeName?, if_pos isMessage]
  cases name : field.messageType with
  | none => simp [name] at named
  | some name' => simpa [name] using found

/-- The types of the messages in a field of a type are whole if the type is. -/
theorem Registry.Whole.of_field {registry : Registry} {type other : MessageType}
    (whole : registry.Whole type) {position : Nat} {field : FieldDescriptor}
    (declared : type.fields[position]? = some field) (isMessage : field.kind.isMessage = true)
    (found : registry.type? (field.messageType.getD "") = some other) :
    other ∈ registry.types ∧ registry.Whole other := by
  have links := (whole _ .refl).links_of_type? declared isMessage found
  exact ⟨links.mem_types, whole.of_reaches (.single links)⟩

/-- The types of the messages in registered extensions are whole. -/
theorem Registry.Vouched.whole_of_extension {registry : Registry} (vouched : registry.Vouched)
    (sound : registry.Sound) {extension : ExtensionType} {other : MessageType}
    (registered : extension ∈ registry.extensions)
    (isMessage : extension.descriptor.field.kind.isMessage = true)
    (found : registry.type? (extension.descriptor.field.messageType.getD "") = some other) :
    other ∈ registry.types ∧ registry.Whole other := by
  rw [← sound.extensionValue _ registered] at isMessage
  obtain ⟨valueType, eq⟩ := Option.isSome_iff_exists.1 isMessage
  have listed := sound.extensionValueType _ registered valueType eq
  rw [sound.extensionValueName _ registered valueType eq, sound.named valueType listed] at found
  rw [← Option.some.inj found]
  exact ⟨listed, vouched.extensions _ registered valueType eq⟩

/-! ## Messages -/

/-- An extension of a message of a type: one of the registry, under a number that the type leaves
open, with a value of its field. -/
structure AttachedOf.Belongs (registry : Registry) (owner : MessageType) (entry : Attached) :
    Prop where
  registered : entry.type ∈ registry.extensions
  extendee : entry.type.extendee = owner.fullName
  inRange : owner.descriptor.isExtensionNumber entry.type.number = true
  holds : entry.type.descriptor.field.Holds registry entry.value

namespace MessageOf

variable {registry : Registry} {message after : Message}

/-- A message of its type without unknown bytes, whatever the messages in it are. -/
structure Conforms (registry : Registry) (message : Message) : Prop where
  slots : message.slots.length = message.type.fields.length
  cache : message.cache.clear = message.type.newMessage.cache
  unknownPlace : message.unknown.isSome = message.type.storage.unknownFields
  known : message.unknown.getD [] = []
  extensionPlace : message.extensions.isSome = message.type.storage.extensions
  holds : ∀ position field value, message.type.fields[position]? = some field →
    message.slot? position = some value → field.Holds registry value
  /-- Fields without presence hold a value. -/
  present : ∀ position field, message.type.fields[position]? = some field →
    message.slot? position = none →
      field.mayBeAbsent message.type.descriptor.generation = true
  /-- At most one member of each oneof is set. -/
  exclusive : message.Exclusive
  distinct : (message.attached.map (·.type.number)).Nodup
  attached : ∀ entry ∈ message.attached, entry.Belongs registry message.type

theorem Conforms.unknown (conforms : message.Conforms registry) :
    message.unknown = message.type.newMessage.unknown := by
  have known := conforms.known
  rw [MessageType.newMessage, ← conforms.unknownPlace]
  cases held : message.unknown with
  | none => rfl
  | some bytes =>
      rw [held, Option.getD_some] at known
      rw [known]
      rfl

/-- A value of a conforming message is that of a declared field or of an extension. -/
theorem Conforms.cases_values (conforms : message.Conforms registry) {value : Value}
    (held : value ∈ message.values) :
    (∃ position field, message.type.fields[position]? = some field ∧
      message.slot? position = some value) ∨ ∃ entry ∈ message.attached, entry.value = value := by
  rcases mem_values_iff.1 held with ⟨position, slot⟩ | attached
  · have bound := lt_length_of_slot? slot
    rw [conforms.slots] at bound
    exact .inl ⟨position, _, List.getElem?_eq_getElem bound, slot⟩
  · exact .inr attached

theorem Conforms.exists_holds (conforms : message.Conforms registry) {value : Value}
    (held : value ∈ message.values) : ∃ field : FieldDescriptor, field.Holds registry value := by
  rcases conforms.cases_values held with ⟨position, field, declared, slot⟩ | ⟨entry, listed, rfl⟩
  · exact ⟨field, conforms.holds position field value declared slot⟩
  · exact ⟨_, (conforms.attached entry listed).holds⟩

/-! ## Types of the messages inside -/

/-- The messages inside a message are of types that its type or an extension vouches for. -/
theorem Conforms.whole (conforms : message.Conforms registry) (sound : registry.Sound)
    (vouched : registry.Vouched) (whole : registry.Whole message.type) {inner : Message}
    (mem : inner ∈ message.children) :
    inner.type ∈ registry.types ∧ registry.Whole inner.type := by
  obtain ⟨value, held, inside⟩ := List.mem_flatMap.1 mem
  rcases conforms.cases_values held with ⟨position, field, declared, slot⟩ | ⟨entry, listed, rfl⟩
  · obtain ⟨isMessage, found⟩ := (conforms.holds position field value declared slot).type? inside
    exact whole.of_field declared isMessage found
  · have belongs := conforms.attached entry listed
    obtain ⟨isMessage, found⟩ := belongs.holds.type? inside
    exact vouched.whole_of_extension sound belongs.registered isMessage found

end MessageOf

/-! ## Equality -/

theorem listEq_of_map_eq {α β : Type} {eq : α → α → Bool} {key : α → β} {xs ys : List α}
    (same : xs.map key = ys.map key)
    (each : ∀ x ∈ xs, ∀ y ∈ ys, key x = key y → eq x y = true) : listEq eq xs ys = true := by
  induction xs generalizing ys with
  | nil =>
      obtain rfl := List.map_eq_nil_iff.1 same.symm
      rfl
  | cons x xs ih =>
      cases ys with
      | nil => simp at same
      | cons y ys =>
          obtain ⟨first, rest⟩ := List.cons.inj same
          rw [listEq, each x List.mem_cons_self y List.mem_cons_self first, Bool.true_and]
          exact ih rest fun x' mem y' mem' =>
            each x' (List.mem_cons_of_mem _ mem) y' (List.mem_cons_of_mem _ mem')

theorem BinaryFormat.numberEq_self {format : BinaryFormat} {bits : Nat}
    (finite : format.Finite bits) : format.numberEq bits bits = true := by
  have below := finite_iff.1 finite
  simp [numberEq, Nat.le_of_lt below]

namespace Value

variable {registry : Registry} {field : FieldDescriptor} {value after : Value}

/-- Every message of the content of a message in the value is equal to that message. -/
def Settles (value : Value) : Prop :=
  ∀ inner ∈ value.messages, ∀ (after : Message) (depth : Nat), after.content = inner.content →
    after.height ≤ depth → after.eqBy (eqAt depth) inner = true

theorem Settles.eqAt {inner later : Message} (settles : (message inner).Settles)
    (same : later.content = inner.content) {depth : Nat} (deep : (message later).height ≤ depth) :
    (message later).eqAt depth (message inner) = true := by
  rw [height] at deep
  cases depth with
  | zero => omega
  | succ depth =>
      rw [Value.eqAt]
      exact settles inner (by simp) later depth same (Nat.le_of_succ_le_succ deep)

theorem eqAt_of_holdsOne (holds : field.HoldsOne registry value) (settles : value.Settles)
    (same : after.mapMessage MessageOf.content = value.mapMessage MessageOf.content) {depth : Nat}
    (deep : after.height ≤ depth) : after.eqAt depth value = true := by
  rcases cases_of_mapMessage same with rfl | ⟨later, inner, rfl, rfl, content⟩
  · cases after with
    | message inner => exact settles.eqAt rfl deep
    | list items => exact absurd rfl (holds.ne_list items)
    | single bits =>
        rw [Value.eqAt]
        exact BinaryFormat.numberEq_self holds.2
    | double bits =>
        rw [Value.eqAt]
        exact BinaryFormat.numberEq_self holds.2
    | _ => simp [Value.eqAt]
  · exact settles.eqAt content deep

theorem eqAt_of_holds (holds : field.Holds registry value) (settles : value.Settles)
    (same : after.mapMessages MessageOf.content = value.mapMessages MessageOf.content) {depth : Nat}
    (deep : after.height ≤ depth) : after.eqAt depth value = true := by
  rw [FieldDescriptor.Holds] at holds
  split at holds
  · obtain ⟨items, rfl, all⟩ := holds
    cases after with
    | list items' =>
        rw [height] at deep
        cases depth with
        | zero => omega
        | succ depth =>
            rw [Value.eqAt]
            refine listEq_of_map_eq (list.inj same) fun item' mem' item mem eq => ?_
            have settles' : item.Settles := fun inner inside =>
              settles inner (mem_messages_of_mem_items mem inside)
            have := height_le_itemsHeight mem'
            exact eqAt_of_holdsOne (all item mem) settles' eq (by omega)
    | _ => cases same
  · exact eqAt_of_holdsOne holds settles (mapMessage_eq_of_mapMessages holds.ne_list same) deep

end Value

namespace MessageOf

variable {registry : Registry} {message after : Message}

theorem attachedEq_of_content {eq : Value → Value → Bool}
    (distinct : (message.attached.map (·.type.number)).Nodup)
    (same : after.attachedByNumber.map (AttachedOf.mapMessages content) =
      message.attachedByNumber.map (AttachedOf.mapMessages content))
    (each : ∀ entry ∈ after.attached, ∀ held ∈ message.attached,
      entry.mapMessages content = held.mapMessages content → eq entry.value held.value = true) :
    attachedEq eq after.attached message.attached = true := by
  have length := congrArg List.length same
  rw [List.length_map, List.length_map, after.perm_attachedByNumber.length_eq,
    message.perm_attachedByNumber.length_eq] at length
  rw [attachedEq, Bool.and_eq_true, List.all_eq_true]
  refine ⟨by simpa using length, fun entry mem => ?_⟩
  have listed : entry.mapMessages content ∈
      message.attachedByNumber.map (AttachedOf.mapMessages content) := by
    rw [← same]
    exact List.mem_map_of_mem (mem_attachedByNumber.2 mem)
  obtain ⟨held, mem', eq'⟩ := List.mem_map.1 listed
  rw [mem_attachedByNumber] at mem'
  have type : held.type = entry.type := (AttachedOf.mk.inj eq').1
  have found : message.attached.find? (fun other => other.type.number == entry.type.number) =
      some held :=
    (extension?_eq_some_iff message distinct).2 ⟨mem', by rw [type]⟩
  rw [found]
  simp [type, each entry mem held mem' eq'.symm]

theorem extensionsEq_of_content {eq : Value → Value → Bool}
    (distinct : (message.attached.map (·.type.number)).Nodup)
    (same : after.content.extensions = message.content.extensions)
    (each : ∀ entry ∈ after.attached, ∀ held ∈ message.attached,
      entry.mapMessages content = held.mapMessages content → eq entry.value held.value = true) :
    optionEq (attachedEq eq) after.extensions message.extensions = true := by
  rw [extensions_content, extensions_content] at same
  cases place : after.extensions with
  | none =>
      cases place' : message.extensions with
      | none => rfl
      | some => simp [place, place'] at same
  | some entries =>
      cases place' : message.extensions with
      | none => simp [place, place'] at same
      | some entries' =>
          rw [place, place', Option.map_some, Option.map_some, Option.some.injEq] at same
          have attached := attachedEq_of_content distinct same each
          rwa [MessageOf.attached, MessageOf.attached, place, place'] at attached

/-- A message that conforms to its type is equal to every message of its content. -/
theorem eqBy_of_content (conforms : message.Throughout (Conforms registry))
    (same : after.content = message.content) {depth : Nat} (deep : after.height ≤ depth) :
    after.eqBy (Value.eqAt depth) message = true := by
  induction message using MessageOf.induction generalizing after depth with
  | step message ih =>
      have here := conforms.here
      have agree : ∀ value ∈ after.values, ∀ held ∈ message.values,
          value.mapMessages content = held.mapMessages content →
            value.eqAt depth held = true := by
        intro value mem held mem' eq
        obtain ⟨field, holds⟩ := here.exists_holds mem'
        have settles : held.Settles := fun inner inside _ _ same' deep' =>
          ih inner (mem_children_of_mem mem' inside)
            (conforms.of_mem (mem_children_of_mem mem' inside)) same' deep'
        exact Value.eqAt_of_holds holds settles eq (Nat.le_trans (height_value_le mem) deep)
      have type := congrArg MessageOf.type same
      have unknown := congrArg MessageOf.unknown same
      have slots := congrArg MessageOf.slots same
      have extensions := congrArg MessageOf.extensions same
      rw [type_content, type_content] at type
      rw [unknown_content, unknown_content] at unknown
      rw [slots_content, slots_content] at slots
      have slotsEq : listEq (optionEq (Value.eqAt depth)) after.slots message.slots = true := by
        refine listEq_of_map_eq slots fun slot mem slot' mem' eq => ?_
        cases slot with
        | none =>
            cases slot' with
            | none => rfl
            | some => cases eq
        | some value =>
            cases slot' with
            | none => cases eq
            | some held =>
                exact agree value (mem_values_of_mem_slots mem) held
                  (mem_values_of_mem_slots mem') (Option.some.inj eq)
      have extensionsEq : optionEq (attachedEq (Value.eqAt depth)) after.extensions
          message.extensions = true :=
        extensionsEq_of_content here.distinct extensions fun entry mem held mem' eq =>
          agree _ (mem_values_of_attached mem) _ (mem_values_of_attached mem')
            (AttachedOf.mk.inj eq).2
      rw [eqBy, slotsEq, extensionsEq, unknown]
      simp [type]

theorem eq_of_content (conforms : message.Throughout (Conforms registry))
    (same : after.content = message.content) : after.eq message = true :=
  eqBy_of_content conforms same (Nat.le_refl _)

end MessageOf

end ProtoWire
