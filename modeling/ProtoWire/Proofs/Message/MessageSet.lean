import ProtoWire.Proofs.Message.Conservation
import ProtoWire.Proofs.Message.Content
import ProtoWire.Proofs.Message.Throughout
import ProtoWire.Proofs.Wire.Depth

/-!
# Round trips of message sets

A message of a message set whose items hold well-typed messages, and whose unknown bytes are
complete records that the set does not recognise, comes back from its encoding as it is. So it does
from the encoding of a message that holds it in a field (`MessageType.decode_encode_set`).

As it is means that only the sizes in the caches are gone. Extensions form a map by number, which
`MessageOf.content` lists in ascending order without changing what is found under a number
(`MessageOf.extension?_content`). The extensions that are found, also those of the messages inside
the items, have to be coded by their own codecs (`Store.OwnCodecs`).
-/

set_option autoImplicit false

namespace ProtoWire

namespace MessageOf

variable {store : Store} {message : Message} {depth : Nat}

/-! ## Messages without empty lists -/

/-- No value of the message is an empty list. -/
def NoEmptyList (message : Message) : Prop :=
  ∀ value ∈ message.values, value.isEmptyList = false

/-- Where there is one value only, that one matters. -/
theorem noEmptyList_of_values {value : Value} (only : message.values = [value])
    (full : value.isEmptyList = false) (inside : value.Throughout NoEmptyList) :
    message.Throughout NoEmptyList := by
  refine .intro ?_ ?_
  · intro other mem
    rw [only, List.mem_singleton] at mem
    exact mem ▸ full
  · intro inner mem
    rw [children, only, List.flatMap_singleton] at mem
    exact inside inner mem

/-- Without empty lists there is nothing that the canonical form leaves out. -/
theorem canonical_eq_content (full : message.Throughout NoEmptyList) :
    message.canonical = message.content := by
  induction message using MessageOf.induction with
  | step message ih =>
      have same : ∀ inner ∈ message.children, inner.canonical = inner.content :=
        fun inner mem => ih inner mem (full.of_mem mem)
      rw [canonical_eq, canonicalBody_congr same, content_eq, canonicalBody, contentBody]
      congr 1
      · apply List.map_congr_left
        intro slot mem
        cases slot with
        | none => rfl
        | some value =>
            have held := mem_values_of_mem_slots mem
            rw [Option.filter_some, full.here value held, Bool.not_false, if_pos rfl]
      · have written : message.writtenAttached = message.attachedByNumber := by
          apply List.filter_eq_self.2
          intro entry mem
          have held := mem_values_of_attached (mem_attachedByNumber.1 mem)
          rw [full.here entry.value held, Bool.not_false]
        rw [written]

/-- A well-typed message without empty lists comes back from its encoding. -/
theorem WellTyped.decode_encode (sound : store.Sound) (held : store.Holds message.type)
    (own : store.OwnCodecs message.type)
    (typed : message.WellTyped store.catalog maxNesting) (full : message.Throughout NoEmptyList) :
    ∃ bytes, (message.encode.run store).1.2 = .ok bytes ∧
      (bytes.length < UInt64.size →
        ((message.type.decode bytes).run (message.encode.run store).2).1 =
          .ok message.content) := by
  obtain ⟨bytes, written, encoded⟩ := typed.exists_encoding sound held own
  obtain ⟨eq, grows⟩ := encoded.run
  refine ⟨bytes, eq, fun small => ?_⟩
  rw [← canonical_eq_content full, ← overlay_newMessage sound held typed]
  exact (MessageType.yields_decode sound held own typed rfl small written _ grows).1

/-! ## Message sets -/

/-- A message of a message set. The set has a table, the extensions have different numbers, each of
them is registered for the set and holds a message of its type that is well typed, and the unknown
bytes are complete records that nest within the limit and that the set does not recognise. -/
structure WellTypedSet (catalog : Catalog) (depth : Nat) (message : Message) : Prop where
  isSet : message.type.descriptor.messageSet = true
  table : ∃ table, catalog.table message.type = .ok table
  slots : message.slots = []
  cache : message.cache.clear = message.type.newMessage.cache
  unknownPlace : message.unknown.isSome = true
  extensionPlace : message.extensions.isSome = true
  distinct : (message.attached.map (·.type.number)).Nodup
  item : ∀ entry ∈ message.attached,
    catalog.extension? message.type entry.type.number = some entry.type ∧
      ∃ inner, entry.value = .message inner ∧ entry.type.valueType = some inner.type ∧
        Inside catalog depth inner
  unknown : ∃ records : List Bytes, message.unknown.getD [] = records.flatten ∧
    ∀ record ∈ records, Complete record ∧ deepest record ≤ depth ∧
      ¬ catalog.Recognises message.type record

/-- A record that a message set does not recognise is kept. -/
theorem keepsRecord_of_not_recognises {catalog : Catalog} {type : MessageType} {table : FieldTable}
    (found : catalog.table type = .ok table) (isSet : table.isMessageSet = true)
    (sets : type.descriptor.messageSet = true) {record : Bytes} (complete : Complete record)
    (within : deepest record ≤ depth) (unrecognised : ¬ catalog.Recognises type record) :
    catalog.KeepsRecord table type depth record := by
  obtain ⟨_, divided⟩ := complete
  have divided' : IsRecord Eq depth record := divided.of_deepest.mono within fun _ _ => id
  obtain ⟨number, wire, value, tag, skips⟩ := isRecord_iff.1 divided'
  refine ⟨number, wire, value, tag, ?_⟩
  rw [if_pos isSet]
  split
  · next isItem =>
      obtain ⟨rfl, rfl⟩ := isItem
      obtain ⟨item, reads⟩ :=
        exists_readItem (divided'.mono (Nat.le_succ depth) fun _ _ => id) tag
      refine ⟨item, reads, fun named body eq => ?_⟩
      -- an item of a registered extension would be recognised
      cases registered : catalog.extension? type named with
      | none => rfl
      | some extension =>
          refine absurd ⟨table, found, ?_⟩ unrecognised
          rw [if_pos sets]
          exact ⟨named, body, (isItem_iff tag reads).2 eq, by simp [registered]⟩
  · exact skips

theorem WellTypedSet.wellTyped (sound : store.Sound) (held : store.Holds message.type)
    (h : message.WellTypedSet store.catalog depth) : message.WellTyped store.catalog depth := by
  obtain ⟨table, found⟩ := h.table
  have builds := sound.builds_of_table held found
  have isSet : table.isMessageSet = true := builds.isMessageSet.trans h.isSet
  obtain ⟨extensions, unknownFields, fields⟩ := builds.shape_of_messageSet isSet
  have empty : ∀ position, message.slot? position = none := by
    intro position
    rw [slot?, h.slots]
    rfl
  have undeclared : ∀ entry, entry ∉ table.entries := by
    intro entry mem
    obtain ⟨field, _, declared, -⟩ := builds.field_of_mem mem
    simp [fields] at declared
  refine wellTyped_iff.2 ⟨table, found, ?_, h.cache, ?_, ?_, ?_, ?_, ?_, h.distinct, ?_, ?_⟩
  · rw [h.slots, fields]
    rfl
  · rw [h.unknownPlace, unknownFields]
  · rw [h.extensionPlace, extensions]
  · exact fun entry mem => absurd mem (undeclared entry)
  · exact fun entry mem => absurd mem (undeclared entry)
  · exact fun _ other _ _ => empty other
  · intro entry mem
    obtain ⟨registered, holds⟩ := h.item entry mem
    exact ⟨registered, by rwa [if_pos isSet]⟩
  · obtain ⟨records, same, kept⟩ := h.unknown
    refine ⟨records, same, fun record mem => ?_⟩
    obtain ⟨complete, within, unrecognised⟩ := kept record mem
    exact keepsRecord_of_not_recognises found isSet h.isSet complete within unrecognised

end MessageOf

/-! ## A set in a field -/

/-- A type with a field for sets. -/
def holderType : MessageType :=
  ⟨⟨"a.Holder", .proto2,
    [{ FieldDescriptor.plain "set" 1 .message with messageType := some "a.Set" }], [], [], false⟩,
    .full, ⟨0⟩⟩

/-- The store of sets with that type. -/
def holderStore : Store :=
  ⟨[{ setStore.registry ⟨0⟩ with types := [nodeType, setType, holderType] }]⟩

theorem reachable_holderStore : holderStore.Reachable := by
  have typed : (setStore.registry ⟨0⟩).register holderType.descriptor .full =
      .ok (holderType, holderStore.registry ⟨0⟩) := rfl
  exact .register reachable_setStore typed

/-- A set with an item that holds a node with a label, and with a record that is no item. -/
def labelSet : Message :=
  ⟨setType, [], .empty, some [24, 9],
    some [⟨itemType, .message (nodeType.newMessage.attach ⟨labelType, .string "x"⟩)⟩]⟩

/-- A message with that set in its field. -/
def holder : Message :=
  ⟨holderType, [some (.message labelSet)], .empty, some [], some []⟩

namespace MessageOf

/-- The set is well typed wherever nodes, labels, sets and items are registered. -/
theorem wellTypedSet_labelSet {store : Store} (sound : store.Sound) (held : store.Holds nodeType)
    {nodes sets : FieldTable} (found : store.catalog.table nodeType = .ok nodes)
    (regular : nodes.isMessageSet = false) (undeclared : nodes.entry? 100 = none)
    (label : store.catalog.extension? nodeType 100 = some labelType)
    (found' : store.catalog.table setType = .ok sets)
    (item : store.catalog.extension? setType 5 = some itemType) (depth : Nat) :
    labelSet.WellTypedSet store.catalog (depth + 1) := by
  have builds := sound.builds_of_table held found
  have tag : Tag.read [24, 9] = .ok (3, .varint, [9]) := by cbv
  refine ⟨rfl, ⟨sets, found'⟩, rfl, rfl, rfl, rfl, by simp [labelSet, attached], ?_, [[24, 9]], rfl,
    ?_⟩
  · intro entry mem
    obtain rfl := List.mem_singleton.1 mem
    refine ⟨item, _, rfl, rfl, wellTyped_iff.2 ⟨nodes, found, ?_⟩⟩
    refine (typed_newMessage builds).attach rfl ⟨label, ?_⟩
    rw [regular, if_neg Bool.false_ne_true]
    exact ⟨rfl, undeclared, rfl⟩
  · intro record mem
    obtain rfl := List.mem_singleton.1 mem
    refine ⟨.intro 0 (isRecord_iff.2 ⟨3, .varint, [9], tag, by cbv⟩), ?_, ?_⟩
    · have flat : deepest [24, 9] = 0 := by decide
      rw [flat]
      exact Nat.zero_le _
    -- the record does not start like an item
    · rintro ⟨table, -, recognised⟩
      rw [if_pos (by decide)] at recognised
      obtain ⟨_, _, isItem, -⟩ := recognised
      obtain ⟨_, tag'⟩ := isItem.exists_tag
      rw [tag] at tag'
      cases tag'

theorem noEmptyList_labelSet : labelSet.Throughout NoEmptyList := by
  have node : (nodeType.newMessage.attach ⟨labelType, .string "x"⟩).Throughout NoEmptyList :=
    noEmptyList_of_values rfl rfl (Value.throughout_of_plain rfl)
  exact noEmptyList_of_values rfl rfl (Value.throughout_message.2 node)

end MessageOf

namespace MessageType

open MessageOf

/-- A message of a message set without empty lists decodes from its encoding with all that it holds,
and so it does as the value of a field, from the encoding of the message that it is in. -/
theorem decode_encode_set {store : Store} (reachable : store.Reachable) {type : MessageType}
    (held : store.Holds type) (own : store.OwnCodecs type) {message : Message}
    (same : message.type = type) (typed : message.WellTypedSet store.catalog maxNesting)
    (full : message.Throughout NoEmptyList) :
    (∃ bytes, (message.encode.run store).1.2 = .ok bytes ∧
      (bytes.length < UInt64.size →
        ((type.decode bytes).run (message.encode.run store).2).1 = .ok message.content)) ∧
    ∀ parent : Message, store.Holds parent.type → store.OwnCodecs parent.type →
      parent.WellTyped store.catalog maxNesting → parent.Throughout NoEmptyList →
      ∀ position, parent.slot? position = some (.message message) →
        ∃ bytes, (parent.encode.run store).1.2 = .ok bytes ∧
          (bytes.length < UInt64.size →
            ∃ after, ((parent.type.decode bytes).run (parent.encode.run store).2).1 = .ok after ∧
              after.slot? position = some (.message message.content)) := by
  subst same
  have sound := reachable.sound
  refine ⟨(typed.wellTyped sound held).decode_encode sound held own full, ?_⟩
  intro parent held' own' typed' full' position slot
  obtain ⟨bytes, encoded, decoded⟩ := typed'.decode_encode sound held' own' full'
  refine ⟨bytes, encoded, fun small => ⟨_, decoded small, ?_⟩⟩
  rw [slot?_content, slot]
  rfl

theorem decode_encode_set_holder :
    (labelSet.encode.run holderStore).1.2 = .ok [11, 16, 5, 26, 4, 162, 6, 1, 120, 12, 24, 9] ∧
      ((setType.decode [11, 16, 5, 26, 4, 162, 6, 1, 120, 12, 24, 9]).run
        (labelSet.encode.run holderStore).2).1 = .ok labelSet ∧ labelSet.content = labelSet ∧
      (holder.encode.run holderStore).1.2 =
        .ok [10, 12, 11, 16, 5, 26, 4, 162, 6, 1, 120, 12, 24, 9] ∧
      ∃ after, ((holderType.decode [10, 12, 11, 16, 5, 26, 4, 162, 6, 1, 120, 12, 24, 9]).run
          (holder.encode.run holderStore).2).1 = .ok after ∧
        after.slot? 0 = some (.message labelSet) := by
  have sound := reachable_holderStore.sound
  have node : holderStore.Holds nodeType := List.mem_cons_self
  have set : holderStore.Holds setType := List.mem_cons_of_mem _ List.mem_cons_self
  have held : holderStore.Holds holderType :=
    List.mem_cons_of_mem _ (List.mem_cons_of_mem _ (List.mem_singleton_self holderType))
  have own : holderStore.OwnCodecs setType := sound.ownCodecs_of_registry set fun _ _ => rfl
  have own' : holderStore.OwnCodecs holderType := sound.ownCodecs_of_registry held fun _ _ => rfl
  have typed : ∀ depth, labelSet.WellTypedSet holderStore.catalog (depth + 1) :=
    wellTypedSet_labelSet sound node rfl rfl rfl rfl rfl rfl
  -- the set is put into the field of a new message
  have holds : holder.WellTyped holderStore.catalog maxNesting := by
    have builds := sound.builds_of_table held rfl
    have inside : Inside holderStore.catalog maxNesting labelSet := (typed 98).wellTyped sound set
    have fits : FieldCodec.FitsOne (Inside holderStore.catalog maxNesting)
        ⟨1, .message, .explicit, some setType⟩ (.message labelSet) := ⟨rfl, rfl, by simp, inside⟩
    exact wellTyped_iff.2
      ⟨_, rfl, (typed_newMessage builds).putField builds List.mem_cons_self fits⟩
  have full : holder.Throughout NoEmptyList :=
    noEmptyList_of_values rfl rfl (Value.throughout_message.2 noEmptyList_labelSet)
  obtain ⟨⟨bytes, encoded, decoded⟩, inside⟩ := decode_encode_set reachable_holderStore set own rfl
    (typed 99) noEmptyList_labelSet
  obtain ⟨bytes', encoded', decoded'⟩ := inside holder held own' holds full 0 rfl
  have known : (labelSet.encode.run holderStore).1.2 =
      .ok [11, 16, 5, 26, 4, 162, 6, 1, 120, 12, 24, 9] := by decide
  have known' : (holder.encode.run holderStore).1.2 =
      .ok [10, 12, 11, 16, 5, 26, 4, 162, 6, 1, 120, 12, 24, 9] := by decide
  rw [known] at encoded
  rw [known'] at encoded'
  cases encoded
  cases encoded'
  have reads : ((setType.decode [11, 16, 5, 26, 4, 162, 6, 1, 120, 12, 24, 9]).run
      (labelSet.encode.run holderStore).2).1 = .ok labelSet := rfl
  -- the set is what it holds
  have same : labelSet.content = labelSet := by
    have again := decoded (by decide)
    rw [reads] at again
    exact (Except.ok.inj again).symm
  refine ⟨known, reads, same, known', ?_⟩
  rw [same] at decoded'
  exact decoded' (by decide)

end MessageType

/-- The store in which another registry's extension was encoded under the name of the label, after
sets were registered there, too. -/
def mixedSetStore : Store :=
  ⟨[{ mixedStore.registry ⟨0⟩ with
    types := [nodeType, setType], extensions := [labelType, itemType],
    extensionNames := [labelType, itemType] }, mixedStore.registry ⟨1⟩]⟩

theorem reachable_mixedSetStore : mixedSetStore.Reachable := by
  have typed : (mixedStore.registry ⟨0⟩).register setType.descriptor .full =
      .ok (setType, { mixedStore.registry ⟨0⟩ with types := [nodeType, setType] }) := rfl
  have first := Store.Reachable.register reachable_mixedStore typed
  have extended : ((mixedStore.update { mixedStore.registry ⟨0⟩ with
      types := [nodeType, setType] }).registry ⟨0⟩).registerExtension itemType.descriptor =
        .ok (itemType, mixedSetStore.registry ⟨0⟩) := rfl
  exact .registerExtension first extended

namespace MessageType

open MessageOf

/-- In that store the set with a labelled node is well typed, and has no encoding. -/
theorem encode_labelSet_mixedSetStore :
    mixedSetStore.Reachable ∧ mixedSetStore.Holds setType ∧
      (mixedSetStore.registry ⟨0⟩).dropped = false ∧
      labelSet.WellTypedSet mixedSetStore.catalog maxNesting ∧ labelSet.Throughout NoEmptyList ∧
      (labelSet.encode.run mixedSetStore).1.2 =
        .error (.encode ⟨.wrongVariant .int32, [.field 5, .field 100]⟩) := by
  have sound := reachable_mixedSetStore.sound
  have node : mixedSetStore.Holds nodeType := List.mem_cons_self
  have set : mixedSetStore.Holds setType := List.mem_cons_of_mem _ (List.mem_singleton_self setType)
  have typed : labelSet.WellTypedSet mixedSetStore.catalog maxNesting :=
    wellTypedSet_labelSet sound node rfl rfl rfl rfl rfl rfl 99
  exact ⟨reachable_mixedSetStore, set, rfl, typed, noEmptyList_labelSet, rfl⟩

end MessageType

end ProtoWire
