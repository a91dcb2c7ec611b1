import ProtoWire.Proofs.Message.Access
import ProtoWire.Proofs.Message.Shape

/-!
# What holds throughout a message

A property of messages holds throughout a message if it holds of the message itself and of every
message inside it, at any depth (`MessageOf.Throughout`). A change of one value of a message
leaves the other values as they are, so that only the message itself and the new value are looked
at again (`Throughout.change`).
-/

set_option autoImplicit false

namespace ProtoWire

/-- The property holds of the message and of all messages inside it. -/
inductive MessageOf.Throughout (P : Message → Prop) : Message → Prop
  | intro {message : Message} :
      P message → (∀ inner ∈ message.children, Throughout P inner) → Throughout P message

/-- The property holds throughout each message in the value. -/
def Value.Throughout (P : Message → Prop) (value : Value) : Prop :=
  ∀ inner ∈ value.messages, inner.Throughout P

namespace Value

variable {P : Message → Prop}

@[simp]
theorem throughout_message {message : Message} :
    (Value.message message).Throughout P ↔ message.Throughout P := by
  simp [Throughout]

/-- A list is looked through item by item. -/
theorem throughout_list {items : List Value} :
    (Value.list items).Throughout P ↔ ∀ item ∈ items, item.Throughout P := by
  simp only [Throughout, messages_list, List.mem_flatMap]
  constructor
  · intro all item mem inner inside
    exact all inner ⟨item, mem, inside⟩
  · rintro all inner ⟨item, mem, inside⟩
    exact all item mem inner inside

/-- A value without messages. -/
theorem throughout_of_plain {value : Value} (plain : value.messages = []) :
    value.Throughout P := by
  simp [Throughout, plain]

/-- What holds throughout a value holds throughout its items, if it is a list. -/
theorem throughout_items {value : Value} (h : value.Throughout P) {item : Value}
    (mem : item ∈ value.items) : item.Throughout P := by
  cases value with
  | list items => exact throughout_list.1 h item mem
  | _ => simp [items] at mem

end Value

namespace MessageOf

variable {P : Message → Prop} {message after inner : Message}

theorem Throughout.here (h : message.Throughout P) : P message := by
  cases h
  assumption

theorem Throughout.of_mem (h : message.Throughout P) (mem : inner ∈ message.children) :
    inner.Throughout P := by
  cases h with
  | intro _ below => exact below inner mem

/-- The property is looked for in the message, and then in its children. -/
theorem throughout_iff :
    message.Throughout P ↔ P message ∧ ∀ inner ∈ message.children, inner.Throughout P :=
  ⟨fun h => ⟨h.here, fun _ mem => h.of_mem mem⟩, fun h => .intro h.1 h.2⟩

theorem throughout_of_forall (all : ∀ inner, P inner) : message.Throughout P := by
  induction message using MessageOf.induction with
  | step message ih => exact .intro (all message) ih

/-- What holds throughout a message holds throughout each value in it. -/
theorem Throughout.of_mem_values (h : message.Throughout P) {value : Value}
    (mem : value ∈ message.values) : value.Throughout P :=
  fun _ inside => h.of_mem (mem_children_of_mem mem inside)

theorem Throughout.of_slot? (h : message.Throughout P) {position : Nat} {value : Value}
    (held : message.slot? position = some value) : value.Throughout P :=
  h.of_mem_values (mem_values_of_slot? held)

theorem Throughout.of_attached (h : message.Throughout P) {entry : Attached}
    (mem : entry ∈ message.attached) : entry.value.Throughout P :=
  h.of_mem_values (mem_values_of_attached mem)

/-- A weaker property holds throughout the same messages. -/
theorem Throughout.mono {Q : Message → Prop} (h : message.Throughout P)
    (imp : ∀ inner, P inner → Q inner) : message.Throughout Q := by
  induction h with
  | intro holds _ ih => exact .intro (imp _ holds) ih

/-- Two properties may be carried through a message together. -/
theorem Throughout.and {Q : Message → Prop} (h : message.Throughout P)
    (h' : message.Throughout Q) : message.Throughout fun inner => P inner ∧ Q inner := by
  induction h with
  | intro holds _ ih =>
      exact .intro ⟨holds, h'.here⟩ fun inner mem => ih inner mem (h'.of_mem mem)

/-- A change that brings in only values throughout which the property holds. -/
theorem Throughout.change (h : message.Throughout P) (holds : P after)
    (values : ∀ value ∈ after.values, value.Throughout P ∨ value ∈ message.values) :
    after.Throughout P := by
  refine .intro holds fun inner mem => ?_
  obtain ⟨value, held, inside⟩ := List.mem_flatMap.1 mem
  rcases values value held with good | before
  · exact good inner inside
  · exact h.of_mem_values before inner inside

/-! ## Values after a change -/

section

variable {V : Type} {message : MessageOf V} {value : V}

/-- A message in which a slot was put holds nothing new but what was put. -/
theorem mem_values_putSlot {position : Nat} {slot : Option V}
    (h : value ∈ (message.putSlot position slot).values) :
    slot = some value ∨ value ∈ message.values := by
  rcases mem_values_iff.1 h with ⟨other, held⟩ | attached
  · rw [slot?_putSlot] at held
    split at held
    · exact .inl held
    · exact .inr (mem_values_of_slot? held)
  · exact .inr (mem_values_iff.2 (.inr attached))

/-- Unsetting fields brings in no values. -/
theorem mem_values_clearSiblings {position : Nat}
    (h : value ∈ (message.clearSiblings position).values) : value ∈ message.values := by
  rcases mem_values_iff.1 h with ⟨other, held⟩ | ⟨entry, mem, eq⟩
  · rw [slot?_clearSiblings] at held
    split at held
    · simp at held
    · exact mem_values_of_slot? held
  · rw [attached, extensions_clearSiblings] at mem
    exact mem_values_iff.2 (.inr ⟨entry, mem, eq⟩)

/-- Attaching an extension brings in no other one. -/
theorem mem_attached_attach {entry other : AttachedOf V}
    (h : other ∈ (message.attach entry).attached) : other = entry ∨ other ∈ message.attached := by
  cases place : message.extensions with
  | none => simp [attached, attach, place] at h
  | some entries =>
      rw [attached_attach message entry (by simp [place]), List.mem_append,
        List.mem_singleton] at h
      rcases h with before | here
      · exact .inr (List.mem_filter.1 before).1
      · exact .inl here

theorem mem_values_attach {entry : AttachedOf V} (h : value ∈ (message.attach entry).values) :
    value = entry.value ∨ value ∈ message.values := by
  rcases mem_values_iff.1 h with ⟨position, held⟩ | ⟨other, mem, rfl⟩
  · exact .inr (mem_values_iff.2 (.inl ⟨position, held⟩))
  · rcases mem_attached_attach mem with rfl | before
    · exact .inl rfl
    · exact .inr (mem_values_of_attached before)

end

/-! ## New messages -/

/-- Nothing is inside a new message. -/
theorem throughout_newMessage {type : MessageType} (holds : P type.newMessage) :
    type.newMessage.Throughout P := by
  refine .intro holds ?_
  rw [type.children_newMessage]
  simp

/-- The message that is merged into, if it is not new, is the one that is there. -/
theorem throughout_startingMessage {slot : Option Value}
    (before : ∀ value, slot = some value → value.Throughout P)
    (new : ∀ type : MessageType, P type.newMessage) (type : MessageType) :
    (FieldCodec.startingMessage type slot).Throughout P := by
  simp only [FieldCodec.startingMessage]
  split
  · split
    · exact Value.throughout_message.1 (before _ rfl)
    · exact throughout_newMessage (new type)
  · exact throughout_newMessage (new type)

/-! ## Operations -/

/-- An operation on a field that succeeds has found the position of its number. -/
theorem exists_position_of_bind {number : Nat} {change : Nat → Message}
    (h : (do return change (← message.fieldPosition number)) = Except.ok after) :
    ∃ position, after = change position := by
  cases found : message.fieldPosition number with
  | error misuse =>
      rw [found] at h
      cases h
  | ok position =>
      rw [found] at h
      cases h
      exact ⟨position, rfl⟩

/-- Setting a field is putting the value into its slot and unsetting its siblings. -/
theorem eq_putField_of_set {number : Nat} {value : Value}
    (h : message.set number value = .ok after) :
    ∃ position, after = message.putField position value :=
  exists_position_of_bind h

/-- Clearing a field puts its initial value back. -/
theorem eq_putSlot_of_clear {number : Nat} (h : message.clear number = .ok after) :
    ∃ position, after = message.putSlot position
      ((message.type.fields[position]?).bind message.type.initialSlot) :=
  exists_position_of_bind h

/-- An extension is attached only if it extends the message's type with a declared number. -/
theorem of_setExtension {type : ExtensionType} {value : Value}
    (h : message.setExtension type value = .ok after) :
    after = message.attach ⟨type, value⟩ ∧ type.extendee = message.type.fullName ∧
      message.type.descriptor.isExtensionNumber type.number = true := by
  simp only [setExtension] at h
  split at h
  · cases h
  · next extendee =>
      split at h
      · cases h
      · next inRange =>
          split at h <;> cases h
          exact ⟨rfl, not_not.1 extendee, by simpa using inRange⟩

/-- Where there is a place for unknown bytes they are replaced. -/
theorem eq_of_setUnknown {bytes : Bytes} (h : message.setUnknown bytes = .ok after) :
    after = { message with unknown := some bytes } := by
  rw [setUnknown] at h
  split at h <;> cases h
  rfl

theorem mem_attached_of_withoutExtension {number : Nat} {entry : Attached}
    (h : entry ∈ (message.withoutExtension number).attached) : entry ∈ message.attached := by
  cases place : message.extensions with
  | none => simp [attached, withoutExtension, place] at h
  | some entries =>
      simp only [attached, withoutExtension, place, Option.map_some, Option.getD_some] at h ⊢
      exact (List.mem_filter.1 h).1

/-- Setting a field keeps the property, if it holds throughout the value and of the message
afterwards. -/
theorem Throughout.set (h : message.Throughout P) {number : Nat} {value : Value}
    (inside : value.Throughout P) (set : message.set number value = .ok after) (holds : P after) :
    after.Throughout P := by
  obtain ⟨position, rfl⟩ := eq_putField_of_set set
  refine h.change holds fun other mem => ?_
  rcases mem_values_putSlot (mem_values_clearSiblings mem) with eq | before
  · cases eq
    exact .inl inside
  · exact .inr before

/-- There are no messages in what a field holds initially. -/
theorem Throughout.clear (h : message.Throughout P) {number : Nat}
    (clear : message.clear number = .ok after) (holds : P after) : after.Throughout P := by
  obtain ⟨position, rfl⟩ := eq_putSlot_of_clear clear
  refine h.change holds fun value mem => ?_
  rcases mem_values_putSlot mem with initial | before
  · obtain ⟨field, -, initial⟩ := Option.bind_eq_some_iff.1 initial
    exact .inl (Value.throughout_of_plain (MessageType.plain_of_initialSlot _ initial).1)
  · exact .inr before

/-- The same for setting an extension. -/
theorem Throughout.setExtension (h : message.Throughout P) {type : ExtensionType} {value : Value}
    (inside : value.Throughout P) (set : message.setExtension type value = .ok after)
    (holds : P after) : after.Throughout P := by
  obtain ⟨rfl, -⟩ := of_setExtension set
  refine h.change holds fun other mem => ?_
  rcases mem_values_attach mem with rfl | before
  · exact .inl inside
  · exact .inr before

/-- Detaching an extension brings in no values. -/
theorem Throughout.withoutExtension (h : message.Throughout P) (number : Nat)
    (holds : P (message.withoutExtension number)) :
    (message.withoutExtension number).Throughout P := by
  refine h.change holds fun value mem => .inr ?_
  rcases mem_values_iff.1 mem with slot | ⟨entry, listed, eq⟩
  · exact mem_values_iff.2 (.inl slot)
  · exact mem_values_iff.2 (.inr ⟨entry, mem_attached_of_withoutExtension listed, eq⟩)

/-- Nor does setting the unknown bytes. -/
theorem Throughout.setUnknown (h : message.Throughout P) {bytes : Bytes}
    (set : message.setUnknown bytes = .ok after) (holds : P after) : after.Throughout P := by
  obtain rfl := eq_of_setUnknown set
  exact h.change holds fun _ mem => .inr mem

/-! ## Extensions carried -/

/-- All extensions attached to the message, and to the messages inside it, are of the given
kind. -/
def Carries (extensions : ExtensionType → Prop) (message : Message) : Prop :=
  message.Throughout fun message => ∀ entry ∈ message.attached, extensions entry.type

/-- The same of a kind that depends on the type of the message that an extension is attached to. -/
def Bears (extensions : MessageType → ExtensionType → Prop) (message : Message) : Prop :=
  message.Throughout fun message => ∀ entry ∈ message.attached, extensions message.type entry.type

end MessageOf

/-- The same of the messages in a value. -/
def Value.Bears (extensions : MessageType → ExtensionType → Prop) (value : Value) : Prop :=
  ∀ inner ∈ value.messages, inner.Bears extensions

/-- The same of an extension attached to a message of the type, and of the messages in its value. -/
structure AttachedOf.Borne (extensions : MessageType → ExtensionType → Prop) (owner : MessageType)
    (entry : Attached) : Prop where
  type : extensions owner entry.type
  value : entry.value.Bears extensions

section

variable {extensions : MessageType → ExtensionType → Prop} {message after : Message}

/-- Kinds that do not depend on the message are a special case. -/
theorem MessageOf.carries_iff_bears {kind : ExtensionType → Prop} :
    message.Carries kind ↔ message.Bears fun _ => kind :=
  Iff.rfl

@[simp]
theorem Value.bears_message :
    (Value.message message).Bears extensions ↔ message.Bears extensions :=
  Value.throughout_message

theorem Value.bears_list {items : List Value} :
    (Value.list items).Bears extensions ↔ ∀ item ∈ items, item.Bears extensions :=
  Value.throughout_list

/-- A value in which there are no messages. -/
theorem Value.bears_of_messages_eq_nil {value : Value} (none : value.messages = []) :
    value.Bears extensions := by
  simp [Value.Bears, none]

namespace MessageOf

theorem Bears.of_slot? (h : message.Bears extensions) {position : Nat} {value : Value}
    (held : message.slot? position = some value) : value.Bears extensions :=
  Throughout.of_slot? h held

/-- An extension that the message carries is of the given kind, and so are those in its value. -/
theorem Bears.borne (h : message.Bears extensions) {entry : Attached}
    (mem : entry ∈ message.attached) : entry.Borne extensions message.type :=
  ⟨Throughout.here h entry mem, Throughout.of_attached h mem⟩

/-- No extension is attached to a new message. -/
theorem bears_newMessage (type : MessageType) : type.newMessage.Bears extensions :=
  throughout_newMessage (by simp)

/-- A slot may be put if all extensions in its value are of the given kind. -/
theorem Bears.putSlot (h : message.Bears extensions) {position : Nat} {slot : Option Value}
    (value : ∀ value, slot = some value → value.Bears extensions) :
    (message.putSlot position slot).Bears extensions := by
  refine Throughout.change h (Throughout.here h) fun held mem => ?_
  rcases mem_values_putSlot mem with here | before
  · exact .inl (value held here)
  · exact .inr before

/-- A message with other extensions attached. -/
theorem Bears.of_borne (h : message.Bears extensions) (slots : after.slots = message.slots)
    (entries : ∀ entry ∈ after.attached, entry.Borne extensions after.type) :
    after.Bears extensions := by
  refine Throughout.change h (fun entry mem => (entries entry mem).type) fun value mem => ?_
  rcases mem_values_iff.1 mem with ⟨position, held⟩ | ⟨entry, attached, rfl⟩
  · rw [slot?, slots] at held
    exact .inr (mem_values_of_slot? held)
  · exact .inl (entries entry attached).value

/-- So may an extension be attached. -/
theorem Bears.attach (h : message.Bears extensions) {entry : Attached}
    (borne : entry.Borne extensions message.type) : (message.attach entry).Bears extensions := by
  refine h.of_borne rfl fun other mem => ?_
  rcases mem_attached_attach mem with rfl | before
  · exact borne
  · exact h.borne before

/-- The same for kinds that do not depend on the message, and a value without messages. -/
theorem Carries.attach {kind : ExtensionType → Prop} (h : message.Carries kind) {entry : Attached}
    (type : kind entry.type) (plain : entry.value.messages = []) :
    (message.attach entry).Carries kind :=
  (carries_iff_bears.1 h).attach ⟨type, Value.bears_of_messages_eq_nil plain⟩

end MessageOf

end

end ProtoWire
