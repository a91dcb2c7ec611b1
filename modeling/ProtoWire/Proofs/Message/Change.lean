import ProtoWire.Proofs.Message.Effect

/-!
# Changes that records make

A record that can be merged changes its message in one of two ways. It leaves a value in its
place, which depends on nothing but what the place held, or it is kept among the unknown bytes
(`Change`). Changes of two places that are no members of one oneof can be made in either order, and
so can a change of a place and one of the unknown bytes (`Change.apply_comm`). What differs
afterwards is at most the order in which extensions were attached (`MessageOf.Same`).
-/

set_option autoImplicit false

namespace ProtoWire

/-! ## Messages up to the order of their extensions -/

namespace MessageOf

/-- The messages are the same but for the order in which their extensions were attached. -/
structure Same (first second : Message) : Prop where
  type : first.type = second.type
  slots : first.slots = second.slots
  cache : first.cache = second.cache
  unknown : first.unknown = second.unknown
  place : first.extensions.isSome = second.extensions.isSome
  extension : ∀ number, first.extension? number = second.extension? number

namespace Same

variable {first second : Message}

theorem refl (message : Message) : message.Same message :=
  ⟨rfl, rfl, rfl, rfl, rfl, fun _ => rfl⟩

theorem slot? (h : first.Same second) (position : Nat) :
    first.slot? position = second.slot? position := by
  rw [MessageOf.slot?, MessageOf.slot?, h.slots]

theorem held? (h : first.Same second) (place : Place) : place.held? first = place.held? second := by
  cases place with
  | field entry => exact h.slot? entry.position
  | extension type codec => exact congrArg (Option.map AttachedOf.value) (h.extension type.number)

end Same

end MessageOf

/-! ## Places -/

namespace Place

variable {message : Message} {slot : Option Value}

/-- What is in a slot after a place was filled. -/
theorem slot?_leave (place : Place) (position : Nat) :
    (place.leave message slot none).slot? position =
      match place with
      | field entry =>
          if message.type.areSiblings entry.position position then none
          else if position = entry.position ∧ entry.position < message.slots.length then slot
          else message.slot? position
      | extension _ _ => message.slot? position := by
  cases place with
  | field entry =>
      have type : (message.putSlot entry.position slot).type = message.type := rfl
      rw [leave, settle, put, MessageOf.slot?_clearSiblings, MessageOf.slot?_putSlot, type]
  | extension type codec => cases slot <;> rfl

/-- What is attached after a place was filled. -/
theorem extension?_leave (place : Place) (number : Nat) :
    (place.leave message slot none).extension? number =
      match place with
      | field _ => message.extension? number
      | extension type _ =>
          if number = type.number ∧ message.extensions.isSome = true then
            (slot.map fun value => ⟨type, value⟩).or (message.extension? number)
          else message.extension? number := by
  cases place with
  | field entry => rw [MessageOf.extension?, attached_leave_field, MessageOf.extension?]
  | extension type codec =>
      rw [leave_extension]
      cases slot with
      | none => simp
      | some value =>
          cases room : message.extensions with
          | none => simp [MessageOf.attach, MessageOf.extension?, MessageOf.attached, room]
          | some entries =>
              have place : message.extensions.isSome = true := by rw [room, Option.isSome_some]
              simp only [MessageOf.extension?_attach message _ place, Option.isSome_some, and_true,
                Option.map_some, Option.some_or]

theorem length_slots_leave (place : Place) :
    (place.leave message slot none).slots.length = message.slots.length := by
  cases place with
  | field entry => simp [leave, settle, put, MessageOf.putSlot]
  | extension type codec => cases slot <;> rfl

/-- The places differ, and none of them is unset when the other one is filled. -/
def Apart (type : MessageType) : Place → Place → Prop
  | field entry, field other =>
      entry.position ≠ other.position ∧ type.areSiblings entry.position other.position = false
  | extension type _, extension other _ => type.number ≠ other.number
  | _, _ => True

variable {type : MessageType} {place other : Place}

theorem Apart.symm (h : Apart type place other) : Apart type other place := by
  cases place <;> cases other
  case field.field entry other =>
    obtain ⟨ne, siblings⟩ := h
    exact ⟨ne.symm, by rwa [MessageType.areSiblings_comm]⟩
  case extension.extension => exact Ne.symm h
  all_goals trivial

/-- Filling a place leaves the other one as it is. -/
theorem Apart.held?_leave (h : Apart message.type place other) :
    other.held? (place.leave message slot none) = other.held? message := by
  cases other with
  | field other =>
      rw [held?, slot?_leave, held?]
      cases place with
      | field entry =>
          obtain ⟨ne, siblings⟩ := h
          simp [siblings, ne.symm]
      | extension type codec => rfl
  | extension other codec =>
      rw [held?, extension?_leave, held?]
      cases place with
      | field entry => rfl
      | extension type _ =>
          have ne : other.number ≠ type.number := Ne.symm h
          simp [ne]

/-- Places that are apart can be filled in either order. -/
theorem Apart.leave_leave (h : Apart message.type place other) {slot' : Option Value} :
    (other.leave (place.leave message slot none) slot' none).Same
      (place.leave (other.leave message slot' none) slot none) := by
  refine ⟨by simp, ?_, by simp, by simp, by simp, ?_⟩
  · apply MessageOf.slots_ext
    · simp only [length_slots_leave]
    · intro position
      simp only [slot?_leave, length_slots_leave, type_leave]
      cases place with
      | extension => rfl
      | field entry =>
          cases other with
          | extension => rfl
          | field other =>
              obtain ⟨ne, siblings⟩ := h
              have siblings' := siblings
              rw [MessageType.areSiblings_comm] at siblings'
              -- a place that is filled is not unset by the other one
              by_cases here : position = entry.position
              · subst here
                simp [siblings', ne]
              · by_cases there : position = other.position
                · subst there
                  simp [siblings, here]
                · by_cases unset : message.type.areSiblings entry.position position = true <;>
                    simp [here, there, unset]
  · intro number
    simp only [extension?_leave, isSome_extensions_leave]
    cases place with
    | field entry => rfl
    | extension type codec =>
        cases other with
        | field other => rfl
        | extension other codec' =>
            have ne : type.number ≠ other.number := h
            by_cases here : number = type.number
            · subst here
              simp [ne]
            · simp [here]

/-- Filling a place does not see the unknown bytes. -/
theorem leave_keepUnknown (place : Place) (record : Bytes) :
    place.leave (message.keepUnknown record) slot none =
      (place.leave message slot none).keepUnknown record := by
  cases place with
  | extension type codec => cases slot <;> rfl
  | field entry =>
      apply MessageOf.congr_slots
      · simp only [leave, settle, put, MessageOf.keepUnknown, MessageOf.slots_clearSiblings,
          MessageOf.putSlot]
      all_goals simp [leave, settle, put, MessageOf.keepUnknown, MessageOf.putSlot]

end Place

/-! ## Changes -/

/-- What merging a record does to a message: the record leaves a value in a place, or it is kept
among the unknown bytes. -/
inductive Change where
  | fill (place : Place) (slot : Option Value)
  | keep (record : Bytes)

namespace Change

def apply (change : Change) (message : Message) : Message :=
  match change with
  | fill place slot => place.leave message slot none
  | keep record => message.keepUnknown record

/-- The messages hold the same where the change reads. -/
def Sees (change : Change) (message other : Message) : Prop :=
  match change with
  | fill place _ => place.held? other = place.held? message
  | keep _ => True

/-- The changes concern different parts of a message. -/
def Apart (type : MessageType) : Change → Change → Prop
  | fill place _, fill other _ => place.Apart type other
  | keep _, keep _ => False
  | _, _ => True

variable {change other : Change} {message second : Message} {type : MessageType}

@[simp]
theorem type_apply : (change.apply message).type = message.type := by
  cases change with
  | fill place slot => exact place.type_leave message slot none
  | keep record => rfl

@[simp]
theorem isSome_extensions_apply :
    (change.apply message).extensions.isSome = message.extensions.isSome := by
  cases change with
  | fill place slot => exact place.isSome_extensions_leave message slot none
  | keep record => rfl

theorem Apart.symm (h : Apart type change other) : Apart type other change := by
  cases change <;> cases other
  case fill.fill => exact Place.Apart.symm h
  case keep.keep => exact h
  all_goals trivial

/-- A change goes unnoticed by one that is apart from it. -/
theorem Apart.sees (h : Apart message.type change other) :
    other.Sees message (change.apply message) := by
  cases other with
  | keep record => trivial
  | fill other slot =>
      cases change with
      | fill place _ => exact Place.Apart.held?_leave h
      | keep record => cases other <;> rfl

theorem Sees.symm (h : change.Sees message second) : change.Sees second message := by
  cases change with
  | fill place slot => exact Eq.symm h
  | keep record => trivial

theorem Sees.trans {third : Message} (h : change.Sees message second)
    (h' : change.Sees second third) : change.Sees message third := by
  cases change with
  | fill place slot => exact Eq.trans h' h
  | keep record => trivial

theorem Sees.of_same (h : message.Same second) : change.Sees message second := by
  cases change with
  | fill place slot => exact (h.held? place).symm
  | keep record => trivial

/-- A change leaves the same of messages that are the same. -/
theorem same_apply (h : message.Same second) :
    (change.apply message).Same (change.apply second) := by
  cases change with
  | keep record =>
      exact ⟨h.type, h.slots, h.cache, by rw [apply, apply, MessageOf.keepUnknown,
        MessageOf.keepUnknown, h.unknown], h.place, h.extension⟩
  | fill place slot =>
      refine ⟨?_, ?_, ?_, ?_, ?_, ?_⟩
      · simpa [apply] using h.type
      · apply MessageOf.slots_ext
        · rw [apply, apply, Place.length_slots_leave, Place.length_slots_leave, h.slots]
        · intro position
          rw [apply, apply, Place.slot?_leave, Place.slot?_leave, h.type, h.slots,
            h.slot? position]
      · simpa [apply] using h.cache
      · simpa [apply] using h.unknown
      · simpa [apply] using h.place
      · intro number
        rw [apply, apply, Place.extension?_leave, Place.extension?_leave, h.place,
          h.extension number]

/-- Changes that are apart can be made in either order. -/
theorem Apart.apply_comm (h : Apart message.type change other) :
    (other.apply (change.apply message)).Same (change.apply (other.apply message)) := by
  cases change with
  | keep record =>
      cases other with
      | keep => exact h.elim
      | fill other slot =>
          rw [apply, apply, apply, apply, Place.leave_keepUnknown]
          exact .refl _
  | fill place slot =>
      cases other with
      | keep record =>
          rw [apply, apply, apply, apply, Place.leave_keepUnknown]
          exact .refl _
      | fill other slot' => exact Place.Apart.leave_leave h

end Change

end ProtoWire
