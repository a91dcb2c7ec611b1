import ProtoWire.Proofs.Message.Framing
import ProtoWire.Proofs.Message.RoundTrip

/-!
# Unknown data

What a merge does not read it keeps. If merging an input succeeds then the input is a sequence of
complete records, and the unknown bytes grow by the records that the type does not recognise, as
they are and in their order (`MessageType.unknown_of_merge`).

Which records a type recognises is said without a reader, by the declared fields, the registered
extensions and, in message sets, the records inside an item. That the decoder decides alike needs
the extensions of the type to be coded by their own codecs (`Store.OwnCodecs`).
-/

set_option autoImplicit false

namespace ProtoWire

/-- A record that a message of the type recognises: that of a declared field or of a registered
extension whose codec accepts its wire type and, in a message set, an item that names a registered
extension and holds its message. -/
def Catalog.Recognises (catalog : Catalog) (type : MessageType) (record : Bytes) : Prop :=
  ∃ table, catalog.table type = .ok table ∧
    if type.descriptor.messageSet then
      ∃ number body, MessageOf.IsItem number body record ∧
        (catalog.extension? type number).isSome = true
    else
      ∃ number wire value, Tag.read record = .ok (number, wire, value) ∧
        (catalog.taker? table type number wire).isSome = true

section

variable {store : Store} {message : Message} {table : FieldTable} {record : Bytes} {depth : Nat}

/-- Items start with the start tag of their number. -/
theorem MessageOf.IsItem.exists_tag {number : Nat} {body : Bytes}
    (h : MessageOf.IsItem number body record) :
    ∃ value, Tag.read record = .ok (MessageOf.itemNumber, .startGroup, value) := by
  obtain ⟨start, records, stop, rfl, first, -⟩ := h
  exact ⟨_, Tag.read_append first _⟩

/-- The decoder takes the records that the type recognises. -/
theorem takes_eq_true_iff (sound : store.Sound) (held : store.Holds message.type)
    (own : store.OwnCodecs message.type)
    (place : message.extensions.isSome = message.type.storage.extensions)
    (found : store.catalog.table message.type = .ok table)
    (complete : RecordIn Eq table.isMessageSet depth record) :
    store.catalog.takes table table.isMessageSet depth message record = true ↔
      store.catalog.Recognises message.type record := by
  obtain ⟨number, wire, value, tag, read⟩ := complete
  have sets := (sound.builds_of_table held found).isMessageSet
  have recognises : store.catalog.Recognises message.type record ↔
      if message.type.descriptor.messageSet then
        ∃ number body, MessageOf.IsItem number body record ∧
          (store.catalog.extension? message.type number).isSome = true
      else
        ∃ number wire value, Tag.read record = .ok (number, wire, value) ∧
          (store.catalog.taker? table message.type number wire).isSome = true := by
    simp only [Catalog.Recognises, found, Except.ok.injEq, exists_eq_left']
  rw [recognises, ← sets, Catalog.takes, tag]
  cases isSet : table.isMessageSet with
  | false =>
      simp only [Bool.false_eq_true, if_false, Except.ok.injEq, Prod.mk.injEq]
      rw [MessageOf.place?_eq_taker? own place, Option.isSome_map]
      constructor
      · exact fun taken => ⟨number, wire, value, ⟨rfl, rfl, rfl⟩, taken⟩
      · rintro ⟨_, _, _, ⟨rfl, rfl, rfl⟩, taken⟩
        exact taken
  | true =>
      rw [isSet] at read
      by_cases isItem : number = MessageOf.itemNumber ∧ wire = .startGroup
      · obtain ⟨rfl, rfl⟩ := isItem
        rw [if_pos ⟨rfl, rfl, rfl⟩] at read
        obtain ⟨item, reads⟩ := read
        -- what the decoder reads of the item is what its records say
        simp only [if_true, MessageOf.isItem_iff tag reads, reads]
        cases item with
        | none => simp
        | some item =>
            obtain ⟨named, body⟩ := item
            simp
      · have other : ∀ named body, ¬ MessageOf.IsItem named body record := by
          intro named body item
          obtain ⟨_, tag'⟩ := item.exists_tag
          rw [tag, Except.ok.injEq, Prod.mk.injEq, Prod.mk.injEq] at tag'
          exact isItem ⟨tag'.1, tag'.2.1⟩
        simp only [if_true, other, false_and, exists_false, iff_false]
        simpa using fun number wire => absurd ⟨number, wire⟩ isItem

theorem RecordIn.complete {inSet : Bool} (h : RecordIn Eq inSet depth record) :
    Complete record := by
  obtain ⟨number, wire, value, tag, read⟩ := h
  split at read
  · next isItem =>
      obtain ⟨-, rfl, rfl⟩ := isItem
      obtain ⟨item, reads⟩ := read
      obtain ⟨whole, _, same, -, complete⟩ :=
        (MessageOf.completes_of_readItem reads).exists_record tag
      rw [List.append_nil] at same
      exact ⟨depth + 1, same ▸ complete⟩
  · exact ⟨depth, read⟩

end

namespace MessageType

open MessageOf

open scoped Classical in
/-- If merging an input into a message with a place for unknown bytes succeeds then the input is a
sequence of complete records, in this one way, and the unknown bytes are those of before and the
records that the type does not recognise. -/
theorem unknown_of_merge {store later : Store} (reachable : store.Reachable) {type : MessageType}
    (held : store.Holds type) (own : store.OwnCodecs type) {message after : Message}
    (same : message.type = type) (place : message.extensions.isSome = type.storage.extensions)
    {before input : Bytes} (unknown : message.unknown = some before)
    (merged : (type.merge message input).run store = ((after, none), later)) :
    ∃ records : List Bytes, input = records.flatten ∧ (∀ record ∈ records, Complete record) ∧
      (∀ others : List Bytes, input = others.flatten → (∀ record ∈ others, Complete record) →
        others = records) ∧
      after.unknown = some (before ++
        (records.filter fun record => ¬ store.catalog.Recognises type record).flatten) := by
  subst same
  have sound := reachable.sound
  obtain ⟨account, -⟩ := (ensures_merge_accounts sound (sound.frames_own held own) .refl input).run
  rw [merged] at account
  obtain ⟨table, records, found, flat, all, kept⟩ := account rfl
  have complete : ∀ record ∈ records, Complete record := fun record mem => (all record mem).complete
  refine ⟨records, flat, complete, ?_, ?_⟩
  · intro others flat' complete'
    refine (eq_of_flatten_append complete' complete startsNone_nil startsNone_nil ?_).1
    rw [List.append_nil, List.append_nil, ← flat, flat']
  · simp only at kept
    rw [kept, unknown, Option.map_some, untaken]
    congr 3
    apply List.filter_congr
    intro record mem
    have iff := takes_eq_true_iff sound held own place found (all record mem)
    by_cases taken : store.catalog.takes table table.isMessageSet maxNesting message record = true
    · simp [taken, iff.1 taken]
    · simp [taken, mt iff.2 taken]

open scoped Classical in
/-- A node takes its weight and its label. A field that it does not declare, and records of its
field and of its extension with other wire types, one of them a group, are kept. -/
theorem unknown_of_merge_node :
    ∃ after later, (nodeType.merge richNode
        [8, 7, 24, 5, 10, 1, 0, 163, 6, 8, 1, 164, 6, 162, 6, 1, 121]).run nodeStore =
          ((after, none), later) ∧
      after.unknown = some ([24, 9] ++ [24, 5] ++ [10, 1, 0] ++ [163, 6, 8, 1, 164, 6]) ∧
      ∃ records : List Bytes,
        records = [[8, 7], [24, 5], [10, 1, 0], [163, 6, 8, 1, 164, 6], [162, 6, 1, 121]] ∧
          after.unknown = some ([24, 9] ++ (records.filter fun record =>
            ¬ nodeStore.catalog.Recognises nodeType record).flatten) := by
  have held : nodeStore.Holds nodeType := List.mem_singleton_self nodeType
  have merged : (nodeType.merge richNode
      [8, 7, 24, 5, 10, 1, 0, 163, 6, 8, 1, 164, 6, 162, 6, 1, 121]).run nodeStore =
        ((_, none), _) := rfl
  obtain ⟨records, -, -, unique, kept⟩ := unknown_of_merge reachable_nodeStore held
    ownCodecs_nodeStore rfl rfl rfl merged
  have complete : ∀ record ∈ ([[8, 7], [24, 5], [10, 1, 0], [163, 6, 8, 1, 164, 6],
      [162, 6, 1, 121]] : List Bytes), Complete record := by
    simp only [List.forall_mem_cons]
    refine ⟨?_, ?_, ?_, ?_, ?_, by simp⟩
    · exact .intro 0 (isRecord_iff.2 ⟨1, .varint, [7], by cbv, by cbv⟩)
    · exact .intro 0 (isRecord_iff.2 ⟨3, .varint, [5], by cbv, by cbv⟩)
    · exact .intro 0 (isRecord_iff.2 ⟨1, .lengthDelimited, [1, 0], by cbv, by cbv⟩)
    · exact .intro 1 (isRecord_iff.2 ⟨100, .startGroup, [8, 1, 164, 6], by cbv, by cbv⟩)
    · exact .intro 0 (isRecord_iff.2 ⟨100, .lengthDelimited, [1, 121], by cbv, by cbv⟩)
  exact ⟨_, _, merged, rfl, records, (unique _ rfl complete).symm, kept⟩

/-- After another registry's extension was encoded under the name of the label, a record that is
no text is not kept although nodes do not recognise it: it is read as the other extension. -/
theorem unknown_lost_mixedStore :
    mixedStore.Reachable ∧ mixedStore.Holds nodeType ∧ (mixedStore.registry ⟨0⟩).dropped = false ∧
      Complete [160, 6, 5] ∧ ¬ mixedStore.catalog.Recognises nodeType [160, 6, 5] ∧
      ∃ after later, (nodeType.merge nodeType.newMessage [160, 6, 5]).run mixedStore =
          ((after, none), later) ∧
        nodeType.newMessage.unknown = some [] ∧ after.unknown = some [] := by
  have held : mixedStore.Holds nodeType := List.mem_singleton_self nodeType
  have read : Tag.read [160, 6, 5] = .ok (100, .varint, [5]) := by cbv
  have complete : Complete [160, 6, 5] :=
    .intro 0 (isRecord_iff.2 ⟨100, .varint, [5], read, by cbv⟩)
  refine ⟨reachable_mixedStore, held, rfl, complete, ?_, _, _, rfl, rfl, rfl⟩
  rintro ⟨table, found, recognised⟩
  cases found
  rw [if_neg (by decide)] at recognised
  obtain ⟨_, _, _, tag, taken⟩ := recognised
  rw [read] at tag
  cases tag
  exact absurd taken (by decide)

end MessageType

end ProtoWire
