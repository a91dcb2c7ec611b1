import ProtoWire.Proofs.Message.Overlay
import ProtoWire.Proofs.Message.WellTyped

/-!
# Shapes of messages

A message has the shape of its type if it has a slot for each declared field and a place for
extensions just if its type provides one, and if the messages inside it have the shapes of
theirs (`MessageOf.Shaped`). This is all that merging relies on in the message that is merged
into: the values that it holds may be of any kind.
-/

set_option autoImplicit false

namespace ProtoWire

namespace MessageOf

/-- The message, and every message inside it, has the slots and the place for extensions that its
type provides. -/
inductive Shaped : Message → Prop
  | intro {message : Message} :
      message.slots.length = message.type.fields.length →
      message.extensions.isSome = message.type.storage.extensions →
      (∀ inner ∈ message.children, Shaped inner) →
      Shaped message

end MessageOf

/-- Every message in the value has the shape of its type. -/
def Value.Shaped (value : Value) : Prop :=
  ∀ inner ∈ value.messages, inner.Shaped

namespace MessageOf

variable {message after inner : Message}

theorem Shaped.slots (h : message.Shaped) : message.slots.length = message.type.fields.length := by
  cases h
  assumption

theorem Shaped.extensions (h : message.Shaped) :
    message.extensions.isSome = message.type.storage.extensions := by
  cases h
  assumption

/-- The shape is asked of the messages inside as well. -/
theorem Shaped.of_mem (h : message.Shaped) (mem : inner ∈ message.children) : inner.Shaped := by
  cases h with
  | intro _ _ below => exact below inner mem

theorem Shaped.of_mem_values (h : message.Shaped) {value : Value} (mem : value ∈ message.values) :
    value.Shaped :=
  fun _ inside => h.of_mem (mem_children_of_mem mem inside)

/-- So what a slot holds is shaped. -/
theorem Shaped.of_slot? (h : message.Shaped) {position : Nat} {value : Value}
    (held : message.slot? position = some value) : value.Shaped :=
  h.of_mem_values (mem_values_of_slot? held)

/-- And so is the value of an extension. -/
theorem Shaped.of_extension? (h : message.Shaped) {number : Nat} {value : Value}
    (held : (message.extension? number).map AttachedOf.value = some value) : value.Shaped := by
  obtain ⟨entry, found, rfl⟩ := Option.map_eq_some_iff.1 held
  exact h.of_mem_values (mem_values_of_attached (List.mem_of_find?_eq_some found))

/-- A change that brings in shaped values only leaves a shaped message. -/
theorem Shaped.change (h : message.Shaped) (type : after.type = message.type)
    (slots : after.slots.length = message.slots.length)
    (extensions : after.extensions.isSome = message.extensions.isSome)
    (values : ∀ value ∈ after.values, value.Shaped ∨ value ∈ message.values) : after.Shaped := by
  refine .intro ?_ ?_ ?_
  · rw [slots, type, h.slots]
  · rw [extensions, type, h.extensions]
  · intro inner mem
    obtain ⟨value, held, inside⟩ := List.mem_flatMap.1 mem
    rcases values value held with shaped | before
    · exact shaped inner inside
    · exact h.of_mem_values before inner inside

/-- A value may be put into a slot that is there. -/
theorem Shaped.putField (h : message.Shaped) {position : Nat}
    (inside : position < message.slots.length) {value : Value} (shaped : value.Shaped) :
    (message.putField position value).Shaped := by
  apply h.change (by simp) (by simp) (by simp)
  intro other mem
  rcases mem_values_iff.1 mem with ⟨place, slot⟩ | ⟨entry, listed, rfl⟩
  -- the slot of the field holds the new value, those of its siblings hold nothing
  · rw [slot?_putField message inside] at slot
    split at slot
    · cases slot
      exact .inl shaped
    · split at slot
      · simp at slot
      · exact .inr (mem_values_iff.2 (.inl ⟨place, slot⟩))
  · rw [attached_putField] at listed
    exact .inr (mem_values_iff.2 (.inr ⟨entry, listed, rfl⟩))

/-- An extension may be attached where there is a place for extensions. -/
theorem Shaped.attach (h : message.Shaped) (place : message.extensions.isSome = true)
    {entry : Attached} (shaped : entry.value.Shaped) : (message.attach entry).Shaped := by
  have kept : (message.attach entry).extensions.isSome = message.extensions.isSome := by
    simp [MessageOf.attach]
  refine h.change rfl rfl kept fun other mem => ?_
  rcases mem_values_iff.1 mem with ⟨position, slot⟩ | ⟨held, listed, rfl⟩
  · exact .inr (mem_values_iff.2 (.inl ⟨position, slot⟩))
  · rw [attached_attach message entry place, List.mem_append, List.mem_singleton] at listed
    -- other extensions were there before
    rcases listed with before | rfl
    · exact .inr (mem_values_iff.2 (.inr ⟨held, (List.mem_filter.1 before).1, rfl⟩))
    · exact .inl shaped

theorem Shaped.keepUnknown (h : message.Shaped) (bytes : Bytes) :
    (message.keepUnknown bytes).Shaped :=
  h.change rfl rfl rfl fun _ mem => .inr mem

theorem Shaped.clearCachedSize (h : message.Shaped) : message.clearCachedSize.Shaped :=
  h.change rfl rfl rfl fun _ mem => .inr mem

/-- Well-typed messages of registered types are shaped. -/
theorem WellTyped.shaped {store : Store} {depth : Nat} (sound : store.Sound)
    (held : store.Holds message.type) (h : message.WellTyped store.catalog depth) :
    message.Shaped := by
  induction message using MessageOf.induction generalizing depth with
  | step message ih =>
      obtain ⟨table, found, typed⟩ := wellTyped_iff.1 h
      refine .intro typed.slots typed.extensionPlace fun inner mem => ?_
      obtain ⟨lower, -, wellTyped, held', -⟩ := h.of_mem sound held mem
      exact ih inner mem held' wellTyped

end MessageOf

/-! ## Slots of a table -/

/-- What a message holds under the number of an entry stands in the slot of the entry. -/
theorem Registry.Builds.get?_of_mem {registry : Registry} {message : Message} {table : FieldTable}
    (builds : registry.Builds message.type table) {entry : FieldEntry}
    (mem : entry ∈ table.entries) : message.get? entry.number = message.slot? entry.position := by
  rw [MessageOf.get?, builds.position?_of_mem mem, Option.bind_some]

/-! ## New messages -/

namespace MessageType

variable (type : MessageType)

@[simp]
theorem type_newMessage : type.newMessage.type = type := rfl

/-- A new message holds what the slots of its type hold initially. -/
theorem slot?_newMessage {position : Nat} {field : FieldDescriptor}
    (declared : type.fields[position]? = some field) :
    type.newMessage.slot? position = type.initialSlot field := by
  rw [MessageOf.slot?, newMessage, List.getElem?_map, declared]
  rfl

/-- No extensions are attached to it. -/
@[simp]
theorem attached_newMessage : type.newMessage.attached = [] := by
  rw [MessageOf.attached, newMessage]
  cases type.storage.extensions <;> rfl

/-- Fields that may be absent are so initially. -/
theorem initialSlot_of_mayBeAbsent {field : FieldDescriptor}
    (h : field.mayBeAbsent type.descriptor.generation = true) : type.initialSlot field = none := by
  rw [initialSlot, if_pos h]

/-- All others hold a zero of their kind. -/
theorem initialSlot_of_implicit {field : FieldDescriptor}
    (h : field.mayBeAbsent type.descriptor.generation = false) :
    type.initialSlot field = Value.zero? field.kind := by
  rw [initialSlot, h, if_neg Bool.false_ne_true]

/-- A slot holds neither messages nor items before it is set. -/
theorem plain_of_initialSlot {field : FieldDescriptor} {value : Value}
    (h : type.initialSlot field = some value) : value.messages = [] ∧ value.items = [] := by
  rw [initialSlot] at h
  split at h
  · simp at h
  · cases kind : field.kind <;> rw [kind] at h <;> cases h <;> exact ⟨rfl, rfl⟩

/-- What a slot of a new message holds is the initial value of some field. -/
theorem slot?_newMessage_cases {position : Nat} {value : Value}
    (h : type.newMessage.slot? position = some value) :
    ∃ field, type.fields[position]? = some field ∧ type.initialSlot field = some value := by
  cases declared : type.fields[position]? with
  | some field =>
      rw [slot?_newMessage type declared] at h
      exact ⟨field, rfl, h⟩
  | none =>
      rw [MessageOf.slot?, newMessage, List.getElem?_map, declared] at h
      simp at h

/-- There are no messages inside a new message. -/
theorem children_newMessage : type.newMessage.children = [] := by
  rw [List.eq_nil_iff_forall_not_mem]
  intro inner mem
  obtain ⟨value, held, inside⟩ := List.mem_flatMap.1 mem
  -- slots hold zeros at most, and nothing is attached
  rcases MessageOf.mem_values_iff.1 held with ⟨position, slot⟩ | ⟨entry, listed, rfl⟩
  · obtain ⟨field, -, initial⟩ := slot?_newMessage_cases type slot
    rw [(plain_of_initialSlot type initial).1] at inside
    simp at inside
  · simp at listed

/-- New messages are shaped. -/
theorem shaped_newMessage : type.newMessage.Shaped := by
  refine .intro ?_ ?_ ?_
  · simp [newMessage]
  · rw [newMessage]
    cases type.storage.extensions <;> rfl
  · rw [children_newMessage]
    simp

end MessageType

/-! ## Merged values -/

namespace FieldCodec

@[simp]
theorem type_startingMessage (type : MessageType) (slot : Option Value) :
    (startingMessage type slot).type = type := by
  simp only [startingMessage]
  split
  · split
    · assumption
    · rfl
  · rfl

/-- So is the message that merging starts from, be it new or the one that is there. -/
theorem shaped_startingMessage (type : MessageType) {slot : Option Value}
    (h : ∀ value, slot = some value → value.Shaped) : (startingMessage type slot).Shaped := by
  simp only [startingMessage]
  split
  · next message =>
      split
      · exact h _ rfl message (by simp)
      · exact type.shaped_newMessage
  · exact type.shaped_newMessage

end FieldCodec

namespace Value

variable {merge : Message → Message → Message} {value : Value}

theorem shaped_item {items : List Value} (h : (list items).Shaped) {item : Value}
    (mem : item ∈ items) : item.Shaped :=
  fun inner inside => h inner (mem_messages_of_mem_items mem inside)

/-- Merging the messages of a shaped value into new ones leaves shaped ones. -/
theorem shaped_fresh (whole : value.Shaped) (merged : ∀ inner ∈ value.messages,
      ∀ target : Message, target.Shaped → target.type = inner.type → (merge target inner).Shaped) :
    (value.fresh merge).Shaped := by
  cases value with
  | message inner =>
      intro other mem
      rw [fresh, messages_message, List.mem_singleton] at mem
      rw [mem]
      exact merged inner (by simp) _ inner.type.shaped_newMessage rfl
  | _ => exact whole

theorem shaped_items {value : Value} (h : value.Shaped) {item : Value}
    (mem : item ∈ value.items) : item.Shaped := by
  cases value with
  | list items => exact shaped_item h mem
  | _ => simp [items] at mem

/-- What is left in a place has the shape of its type if what is merged there does. -/
theorem shaped_mergeOver {old : Option Value} (shaped : ∀ value, old = some value → value.Shaped)
    (whole : value.Shaped) (merged : ∀ inner ∈ value.messages,
      ∀ target : Message, target.Shaped → target.type = inner.type → (merge target inner).Shaped) :
    (value.mergeOver merge old).Shaped := by
  cases value with
  | message inner =>
      intro other mem
      rw [mergeOver, messages_message, List.mem_singleton] at mem
      rw [mem]
      exact merged inner (by simp) _ (FieldCodec.shaped_startingMessage _ shaped) (by simp)
  | list items =>
      intro other mem
      rw [mergeOver, messages_list] at mem
      obtain ⟨item, listed, inside⟩ := List.mem_flatMap.1 mem
      -- an item was in the list before, or was added to it
      rcases List.mem_append.1 listed with before | added
      · cases old with
        | none => simp at before
        | some held => exact shaped_items (shaped held rfl) before other inside
      · obtain ⟨item, mem, rfl⟩ := List.mem_map.1 added
        exact shaped_fresh (shaped_item whole mem)
          (fun inner deep => merged inner (mem_messages_of_mem_items mem deep)) other inside
  | _ => exact whole

end Value

/-! ## Merged messages -/

namespace MessageOf

/-- Merging a message into another one keeps the shape. -/
theorem shaped_overlay {source target : Message} (source_shaped : source.Shaped)
    (shaped : target.Shaped) : (overlay target source).Shaped := by
  induction source using MessageOf.induction generalizing target with
  | step source ih =>
      have merged : ∀ value ∈ source.values, ∀ inner ∈ value.messages, ∀ target : Message,
          target.Shaped → target.type = inner.type → (overlay target inner).Shaped := by
        intro value held inner inside target shaped _
        have mem := mem_children_of_mem held inside
        exact ih inner mem (source_shaped.of_mem mem) shaped
      rw [overlay_eq]
      refine shaped.change rfl (by simp [overlayBody]) (by simp [overlayBody]) fun value mem => ?_
      -- each value was in the target, or is what merging a value of the source leaves
      rcases mem_values_iff.1 mem with ⟨position, slot⟩ | ⟨entry, listed, rfl⟩
      · rw [slot?, overlayBody, List.getElem?_mapIdx] at slot
        cases before : target.slots[position]? with
        | none => simp [before] at slot
        | some old =>
            rw [before, Option.map_some, Option.join_some] at slot
            split at slot
            · next value' written =>
                cases slot
                have held := mem_values_of_slot? (slot?_of_written? written)
                refine .inl (Value.shaped_mergeOver (fun other eq => ?_)
                  (source_shaped.of_mem_values held) (merged value' held))
                exact shaped.of_slot? (slot?_eq_some_iff _ |>.2 (eq ▸ before))
            · split at slot
              · simp at slot
              · exact .inr (mem_values_of_slot? (slot?_eq_some_iff _ |>.2 (slot ▸ before)))
      · rw [attached, overlayBody] at listed
        cases place : target.extensions with
        | none => simp [place] at listed
        | some old =>
            rw [place, Option.map_some, Option.getD_some, List.mem_append] at listed
            rcases listed with before | added
            · refine .inr (mem_values_of_attached ?_)
              rw [attached, place]
              exact (List.mem_filter.1 before).1
            · obtain ⟨entry, written, rfl⟩ := List.mem_map.1 added
              have held := mem_values_of_attached (mem_attached_of_written written)
              exact .inl (Value.shaped_mergeOver (fun _ eq => shaped.of_extension? eq)
                (source_shaped.of_mem_values held) (merged entry.value held))

/-- What merging a value of a shaped message leaves is shaped. -/
theorem Shaped.mergeOver {message : Message} (h : message.Shaped) {value : Value}
    (holds : value ∈ message.values) {old : Option Value}
    (before : ∀ value, old = some value → value.Shaped) :
    (value.mergeOver overlay old).Shaped := by
  apply Value.shaped_mergeOver before (h.of_mem_values holds)
  intro inner deep target shaped _
  exact shaped_overlay (h.of_mem (mem_children_of_mem holds deep)) shaped

end MessageOf

end ProtoWire
