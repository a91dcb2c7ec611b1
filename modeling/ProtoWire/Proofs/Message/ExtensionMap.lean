import ProtoWire.Proofs.Message.Effect
import ProtoWire.Proofs.Message.Registered

/-!
# Extension maps

The extensions that a message carries form a map by number. Each of them extends the type of the
message, and its number lies in the ranges that the type declares. This holds of every message that
operations lead to, and of all messages inside it (`throughout_validExtensions_of_formed`), also
after merges that failed.

Message sets are an exception to the ranges. Setting an extension and reading a record look at
them, but reading an item does not, and attaches whatever extension is registered under its number
(`outsideRanges_of_item`). So an extension of another number is one that a merge has read from an
item in its input.
-/

set_option autoImplicit false

namespace ProtoWire

namespace MessageOf

/-- The input has an item for the extension, which the store finds for messages of the type. -/
def HasItem (store : Store) (input : Bytes) (owner : MessageType) (type : ExtensionType) : Prop :=
  ∃ record body, record <:+: input ∧ IsItem type.number body record ∧
    store.catalog.extension? owner type.number = some type

/-- The extensions attached to the message have different numbers, and extend its type with numbers
that it declares. A message set may carry extensions of other numbers, too, for which the input of
one of the merges had items. -/
structure ValidExtensions (merged : List (Store × Bytes)) (message : Message) : Prop where
  distinct : (message.attached.map (·.type.number)).Nodup
  extendee : ∀ entry ∈ message.attached, entry.type.extendee = message.type.fullName
  range : ∀ entry ∈ message.attached,
    message.type.descriptor.isExtensionNumber entry.type.number = true ∨
      message.type.descriptor.messageSet = true ∧
        ∃ store input, (store, input) ∈ merged ∧ HasItem store input message.type entry.type

variable {merged : List (Store × Bytes)} {store : Store} {input : Bytes} {message after : Message}

theorem ValidExtensions.congr (h : message.ValidExtensions merged)
    (type : after.type = message.type) (same : after.attached = message.attached) :
    after.ValidExtensions merged := by
  refine ⟨?_, ?_, ?_⟩
  · rw [same]
    exact h.distinct
  · rw [same, type]
    exact h.extendee
  · rw [same, type]
    exact h.range

theorem validExtensions_newMessage (type : MessageType) :
    type.newMessage.ValidExtensions merged := by
  refine ⟨?_, ?_, ?_⟩ <;> simp [MessageType.attached_newMessage]

theorem ValidExtensions.attach (h : message.ValidExtensions merged) {entry : Attached}
    (extendee : entry.type.extendee = message.type.fullName)
    (range : message.type.descriptor.isExtensionNumber entry.type.number = true ∨
      message.type.descriptor.messageSet = true ∧
        ∃ store input, (store, input) ∈ merged ∧ HasItem store input message.type entry.type) :
    (message.attach entry).ValidExtensions merged := by
  refine ⟨nodup_attach message h.distinct entry, fun other mem => ?_, fun other mem => ?_⟩
  · rcases mem_attached_attach mem with rfl | before
    · exact extendee
    · exact h.extendee other before
  · rcases mem_attached_attach mem with rfl | before
    · exact range
    · exact h.range other before

theorem ValidExtensions.withoutExtension (h : message.ValidExtensions merged) (number : Nat) :
    (message.withoutExtension number).ValidExtensions merged := by
  refine ⟨nodup_withoutExtension message h.distinct number, fun entry mem => ?_,
    fun entry mem => ?_⟩
  · exact h.extendee entry (mem_attached_of_withoutExtension mem)
  · exact h.range entry (mem_attached_of_withoutExtension mem)

/-! ## Merging -/

/-- Reading a record attaches an extension of a declared number, unless it is read from an item of a
message set. -/
theorem ValidExtensions.leave (mem : (store, input) ∈ merged) (h : message.ValidExtensions merged)
    {place : Place} (offered : (store.reading input).Offers message.type place)
    (slot : Option Value) (failure : Option Malformed) :
    (place.leave message slot failure).ValidExtensions merged := by
  cases offered with
  | @field _ _ entry _ _ =>
      exact h.congr (Place.type_leave _ _ _ _)
        (Place.attached_leave_field entry message slot failure)
  | extension found extendee range =>
      rw [Place.leave_extension]
      cases slot with
      | none => exact h
      | some value =>
          refine h.attach extendee (range.imp id ?_)
          rintro ⟨isSet, record, body, part, item⟩
          exact ⟨isSet, store, input, mem, record, body, part, item, found⟩

theorem preserves_validExtensions (mem : (store, input) ∈ merged) :
    (store.reading input).Preserves (ValidExtensions merged) :=
  ⟨validExtensions_newMessage, fun _ h => h.congr rfl rfl, fun _ _ h => h.congr rfl rfl,
    fun _ _ slot failure offered h => h.leave mem offered slot failure⟩

/-- What the changes of single messages preserve holds throughout what a merge leaves, whether it
succeeded or failed. -/
theorem throughout_of_merge {P : Message → Prop} (reachable : store.Reachable)
    (preserves : (store.reading input).Preserves P) {type : MessageType} (held : store.Holds type)
    (h : message.Throughout P) {failure : Option Failure} {later : Store}
    (run : (type.merge message input).run store = ((after, failure), later)) :
    after.Throughout P := by
  rcases MessageType.merges_of_run reachable held run with rfl | ⟨error, merges, -⟩
  · exact h
  · exact merges.throughout preserves h

/-! ## Sessions with a message -/

/-- The messages that operations lead to, starting from new messages. Copies are the messages
themselves, and messages inside may be taken out. Merges may have succeeded or failed, each of them
in any store that registrations and coding lead to, and with any input. The list is of the merges
that have been made. -/
inductive Formed (merged : List (Store × Bytes)) : Message → Prop
  | new (type : MessageType) : Formed merged type.newMessage
  | inner {message inner : Message} :
      Formed merged message → inner ∈ message.children → Formed merged inner
  | set {message after : Message} {number : Nat} {value : Value} :
      Formed merged message → (∀ inner ∈ value.messages, Formed merged inner) →
      message.set number value = .ok after → Formed merged after
  | clear {message after : Message} {number : Nat} :
      Formed merged message → message.clear number = .ok after → Formed merged after
  | setExtension {message after : Message} {type : ExtensionType} {value : Value} :
      Formed merged message → (∀ inner ∈ value.messages, Formed merged inner) →
      message.setExtension type value = .ok after → Formed merged after
  | withoutExtension {message : Message} (number : Nat) :
      Formed merged message → Formed merged (message.withoutExtension number)
  | setUnknown {message after : Message} {bytes : Bytes} :
      Formed merged message → message.setUnknown bytes = .ok after → Formed merged after
  | merge {store later : Store} {type : MessageType} {message after : Message} {input : Bytes}
      {failure : Option Failure} :
      store.Reachable → store.Holds type → (store, input) ∈ merged → Formed merged message →
      (type.merge message input).run store = ((after, failure), later) → Formed merged after

theorem Formed.throughout_validExtensions (formed : message.Formed merged) :
    message.Throughout (ValidExtensions merged) := by
  induction formed with
  | new type => exact throughout_newMessage (validExtensions_newMessage type)
  | inner _ mem ih => exact ih.of_mem mem
  | set _ _ h ih inside =>
      obtain ⟨position, rfl⟩ := eq_putField_of_set h
      exact ih.set inside h (ih.here.congr (by simp) (by simp [attached]))
  | clear _ h ih =>
      obtain ⟨position, rfl⟩ := eq_putSlot_of_clear h
      exact ih.clear h (ih.here.congr rfl rfl)
  | setExtension _ _ h ih inside =>
      obtain ⟨rfl, extendee, range⟩ := of_setExtension h
      exact ih.setExtension inside h (ih.here.attach extendee (.inl range))
  | withoutExtension number _ ih =>
      exact ih.withoutExtension number (ih.here.withoutExtension number)
  | setUnknown _ h ih =>
      obtain rfl := eq_of_setUnknown h
      exact ih.setUnknown h (ih.here.congr rfl rfl)
  | merge reachable held mem _ run ih =>
      exact throughout_of_merge reachable (preserves_validExtensions mem) held ih run

/-- In every message that operations lead to, and in all messages inside it, each extension is found
under its own number and extends the type of the message. Its number is one that the type declares
for extensions, or the message is a message set, and a merge found the extension for an item. -/
theorem throughout_validExtensions_of_formed (formed : message.Formed merged) :
    message.Throughout fun inner => inner.ValidExtensions merged ∧ ∀ number entry,
      inner.extension? number = some entry ↔
        entry ∈ inner.attached ∧ entry.type.number = number :=
  formed.throughout_validExtensions.mono fun inner valid =>
    ⟨valid, fun _ _ => inner.extension?_eq_some_iff valid.distinct⟩

/-- A node with a label, and a node with a label in it. -/
def labelledNode : Message :=
  ⟨nodeType,
    [none, some (.message ⟨nodeType, [some (.int32 7), none], .empty, some [],
      some [⟨labelType, .string "y"⟩]⟩)],
    .empty, some [], some [⟨labelType, .string "x"⟩]⟩

/-- A label is set, and then a merge fails inside a node after its label was read. -/
theorem throughout_validExtensions_node :
    labelledNode.Formed [(nodeStore, [18, 7, 162, 6, 1, 121, 8, 7, 255])] ∧
      labelledNode.Throughout fun inner =>
        inner.ValidExtensions [(nodeStore, [18, 7, 162, 6, 1, 121, 8, 7, 255])] ∧
          ∀ number entry, inner.extension? number = some entry ↔
            entry ∈ inner.attached ∧ entry.type.number = number := by
  have held : nodeStore.Holds nodeType := List.mem_singleton_self nodeType
  have set : nodeType.newMessage.setExtension labelType (.string "x") =
      .ok (nodeType.newMessage.attach ⟨labelType, .string "x"⟩) := rfl
  have merged : (nodeType.merge (nodeType.newMessage.attach ⟨labelType, .string "x"⟩)
      [18, 7, 162, 6, 1, 121, 8, 7, 255]).run nodeStore =
        ((labelledNode, some (.decode ⟨.invalidVarint, [.field 2]⟩)), _) := rfl
  have formed : labelledNode.Formed [(nodeStore, [18, 7, 162, 6, 1, 121, 8, 7, 255])] :=
    .merge reachable_nodeStore held List.mem_cons_self
      (.setExtension (.new nodeType) (by simp [Value.messages]) set) merged
  exact ⟨formed, throughout_validExtensions_of_formed formed⟩

/-- An extension of sets with a number that sets do not leave to extensions. -/
def strayType : ExtensionType :=
  ⟨⟨"a.stray", "a.Set",
    { FieldDescriptor.plain "stray" 3 .message with messageType := some "a.Node" }⟩, some nodeType⟩

/-- The store of sets with that extension registered. -/
def strayStore : Store :=
  ⟨[{ setStore.registry ⟨0⟩ with
    extensions := [labelType, itemType, strayType],
    extensionNames := [labelType, itemType, strayType] }]⟩

/-- The extension cannot be set, but an item of it is attached to a message set. -/
theorem outsideRanges_of_item :
    setType.newMessage.setExtension strayType (.message nodeType.newMessage) =
        .error (.outsideExtensionRanges 3 "a.Set") ∧
      ∃ message later, (setType.merge setType.newMessage [11, 16, 3, 26, 0, 12]).run strayStore =
          ((message, none), later) ∧ message.Formed [(strayStore, [11, 16, 3, 26, 0, 12])] ∧
        ∃ entry ∈ message.attached,
          message.type.descriptor.isExtensionNumber entry.type.number = false := by
  have extended : (setStore.registry ⟨0⟩).registerExtension strayType.descriptor =
      .ok (strayType, strayStore.registry ⟨0⟩) := rfl
  have reachable : strayStore.Reachable := .registerExtension reachable_setStore extended
  have held : strayStore.Holds setType := holds_setType
  have merged : (setType.merge setType.newMessage [11, 16, 3, 26, 0, 12]).run strayStore =
      ((setType.newMessage.attach ⟨strayType, .message nodeType.newMessage⟩, none), _) := rfl
  exact ⟨rfl, _, _, merged, .merge reachable held List.mem_cons_self (.new setType) merged, _,
    List.mem_singleton_self _, rfl⟩

end MessageOf

end ProtoWire
