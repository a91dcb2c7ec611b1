import ProtoWire.Proofs.Message.Records

/-!
# Merges that fail

A merge that fails has merged the records in front of the one that fails, and that one disturbs at
most the value under its own number: a singular scalar stays as it is there, too, and a list keeps
its items (`Catalog.Spared`, `MessageType.merge_of_failed`). What a nested message has taken before
it failed stays in it.

An extension is read by the codec that is kept under its name. If that is the codec of another
registry's extension, a record that fails may take the value of a singular scalar
(`MessageType.label_lost_mixedListStore`).
-/

set_option autoImplicit false

namespace ProtoWire

open Coding (Yields Ensures yields_pure ensures_pure)

/-! ## Values -/

/-- What a record that fails leaves of the value that it would have been read into. A singular
scalar stays as it is. A list keeps its items, and may have more behind them; in a message set an
extension has one message whatever its cardinality. -/
structure FieldCodec.Spares (inSet : Bool) (codec : FieldCodec) (before after : Option Value) :
    Prop where
  scalar : codec.kind.isMessage = false → codec.arrangement.isRepeated = false → after = before
  list : inSet = false → codec.arrangement.isRepeated = true →
    after = before ∨
      ∃ items, after = some (.list items) ∧ (before.map Value.items).getD [] <+: items
  single : inSet = true → after = before ∨ ∃ inner, after = some (.message inner)

namespace FieldCodec

variable {store later : Store} {inside : Option Merger} {codec : FieldCodec} {wire : WireType}
  {before after : Option Value} {bytes : Bytes} {error : Malformed} {inSet : Bool}

theorem Spares.refl (inSet : Bool) (codec : FieldCodec) (value : Option Value) :
    codec.Spares inSet value value :=
  ⟨fun _ _ => rfl, fun _ _ => .inl rfl, fun _ => .inl rfl⟩

theorem spares_of_readScalar (fails : codec.readScalar wire before bytes = (after, .error error)) :
    codec.Spares false before after := by
  rw [readScalar] at fails
  cases repeated : codec.arrangement.isRepeated with
  | true =>
      obtain ⟨values, items, -⟩ :=
        readItems_eq codec wire ((before.map Value.items).getD []) bytes
      simp only [repeated, if_true, items, Prod.mk.injEq] at fails
      refine ⟨by simp [repeated], fun _ _ => .inr ⟨_, fails.1.symm, ?_⟩, by simp⟩
      exact List.prefix_append _ _
  | false =>
      simp only [repeated, Bool.false_eq_true, if_false] at fails
      cases taken : codec.kind.read bytes with
      | error fault =>
          rw [taken] at fails
          cases fails
          exact .refl false codec before
      | ok split =>
          rw [taken] at fails
          cases fails

/-- A value that cannot be read spares what was there before. -/
theorem spares_of_run_read
    (fails : (codec.read inside wire before bytes).run store = ((after, .error error), later)) :
    codec.Spares false before after := by
  rw [read] at fails
  cases nested : codec.kind.isMessage with
  | false =>
      simp only [nested, Bool.not_false, if_true] at fails
      exact spares_of_readScalar (congrArg Prod.fst fails)
  | true =>
      simp only [nested, Bool.not_true, Bool.false_eq_true, if_false] at fails
      refine ⟨by simp [nested], fun _ repeated => ?_, by simp⟩
      cases value : codec.valueType with
      | none =>
          rw [value] at fails
          cases fails
          exact .inl rfl
      | some type =>
          simp only [value, repeated, if_true] at fails
          have left := congrArg (fun result => result.1.1) fails
          exact .inr ⟨_, left.symm, List.prefix_append _ _⟩

end FieldCodec

/-! ## Messages -/

/-- The messages hold the same but for the value under the number, which is spared. -/
structure Catalog.Spared (catalog : Catalog) (table : FieldTable) (number : Option Nat)
    (before after : Message) : Prop where
  type : after.type = before.type
  cache : after.cache = before.cache
  unknown : after.unknown = before.unknown
  field : ∀ other, number ≠ some other → after.get? other = before.get? other
  extension : ∀ other, number ≠ some other → after.extension? other = before.extension? other
  fieldValue : ∀ entry ∈ table.entries,
    entry.codec.Spares table.isMessageSet (before.get? entry.number) (after.get? entry.number)
  extensionValue : ∀ type, catalog.extension? before.type type.number = some type →
    type.codec.Spares table.isMessageSet
      ((before.extension? type.number).map AttachedOf.value)
      ((after.extension? type.number).map AttachedOf.value)

/-- The number that a record goes under: that of its tag, or for an item of a message set that of
its extension. -/
def MessageType.recordNumber? (type : MessageType) (bytes : Bytes) : Option Nat :=
  match Tag.read bytes with
  | .error _ => none
  | .ok (number, wire, value) =>
      if type.descriptor.messageSet ∧ number = MessageOf.itemNumber ∧ wire = .startGroup then
        match MessageOf.readItem maxNesting value with
        | .ok (some (named, _), _) => some named
        | _ => none
      else some number

namespace Catalog

variable {store : Store} {catalog : Catalog} {table : FieldTable} {message : Message}

theorem Spared.refl (catalog : Catalog) (table : FieldTable) (number : Option Nat)
    (message : Message) : catalog.Spared table number message message :=
  ⟨rfl, rfl, rfl, fun _ _ => rfl, fun _ _ => rfl, fun _ _ => .refl _ _ _, fun _ _ => .refl _ _ _⟩

/-- Other fields do not see what is put into a slot. -/
theorem spared_putSlot {registry : Registry} (builds : registry.Builds message.type table)
    {entry : FieldEntry} (mem : entry ∈ table.entries) {slot : Option Value}
    (spares : entry.codec.Spares table.isMessageSet (message.slot? entry.position) slot) :
    catalog.Spared table (some entry.number) message (message.putSlot entry.position slot) := by
  have type : (message.putSlot entry.position slot).type = message.type := rfl
  have apart : ∀ other, some entry.number ≠ some other →
      (message.putSlot entry.position slot).get? other = message.get? other := by
    intro other ne
    rw [MessageOf.get?, MessageOf.get?, type]
    cases found : message.type.descriptor.position? other with
    | none => rfl
    | some position =>
        rw [Option.bind_some, Option.bind_some]
        apply MessageOf.slot?_putSlot_of_ne
        rintro rfl
        -- the field at the position has one number
        obtain ⟨field, declared, rfl⟩ := Registry.getElem?_of_position? found
        obtain ⟨field', valueType, declared', -, eq⟩ := builds.field_of_mem mem
        rw [MessageType.fields, declared, Option.some.injEq] at declared'
        rw [eq, Registry.number_entry, declared'] at ne
        exact ne rfl
  refine ⟨type, rfl, rfl, apart, fun _ _ => rfl, ?_, fun _ _ => .refl _ _ _⟩
  intro other listed
  by_cases same : other.number = entry.number
  · have listed' := builds.entry?_eq_some_iff.2 ⟨listed, same⟩
    rw [builds.entry?_eq_some_iff.2 ⟨mem, rfl⟩, Option.some.injEq] at listed'
    subst listed'
    have kept : registry.Builds (message.putSlot entry.position slot).type table := builds
    rw [builds.get?_of_mem mem, kept.get?_of_mem mem, MessageOf.slot?_putSlot]
    split
    · exact spares
    · exact .refl _ _ _
  · rw [apart other.number (by simpa using Ne.symm same)]
    exact .refl _ _ _

/-- Other extensions do not see what is attached. -/
theorem spared_attach {type : ExtensionType}
    (registered : catalog.extension? message.type type.number = some type) {value : Value}
    (spares : type.codec.Spares table.isMessageSet
      ((message.extension? type.number).map AttachedOf.value) (some value)) :
    catalog.Spared table (some type.number) message (message.attach ⟨type, value⟩) := by
  cases room : message.extensions with
  | none =>
      have same : message.attach ⟨type, value⟩ = message := by
        rw [MessageOf.attach, room, Option.map_none, ← room]
      rw [same]
      exact .refl _ _ _ _
  | some entries =>
      have place : message.extensions.isSome = true := by rw [room, Option.isSome_some]
      refine ⟨rfl, rfl, rfl, fun _ _ => rfl, ?_, fun _ _ => .refl _ _ _, ?_⟩
      · intro other ne
        rw [MessageOf.extension?_attach message _ place, if_neg (by simpa using Ne.symm ne)]
      · intro other registered'
        rw [MessageOf.extension?_attach message _ place]
        split
        · next same =>
            -- one extension is registered under the number
            rw [same, registered, Option.some.injEq] at registered'
            subst registered'
            exact spares
        · exact .refl _ _ _

end Catalog

/-- A place that could not be read leaves all else as it is. -/
theorem Catalog.spared_leave {store : Store} (sound : store.Sound) {message : Message}
    (own : store.OwnCodecs message.type) (held : store.Holds message.type)
    {table : FieldTable} (found : store.catalog.table message.type = .ok table) {number : Nat}
    {wire : WireType} {place : Place}
    (placed : store.catalog.place? table message number wire = some place) {slot : Option Value}
    (spares : place.codec.Spares table.isMessageSet (place.held? message) slot)
    (error : Malformed) :
    store.catalog.Spared table (some number) message (place.leave message slot (some error)) := by
  have builds := sound.builds_of_table held found
  cases place with
  | field entry =>
      obtain ⟨declared, -⟩ := Catalog.of_place?_field placed
      obtain ⟨mem, rfl⟩ := builds.entry?_eq_some_iff.1 declared
      exact spared_putSlot builds mem spares
  | extension type codec =>
      obtain ⟨-, registered, rfl, -⟩ := Catalog.of_place?_extension placed
      obtain ⟨-, -, rfl⟩ := Store.mem_extensions_of_extension? registered
      rw [own.codec registered] at spares ⊢
      cases slot with
      | none => exact .refl _ _ _ _
      | some value => exact spared_attach registered spares

namespace MessageOf

variable {store : Store} {table : FieldTable} {message left : Message} {bytes : Bytes}
  {error : Malformed}

theorem mergeUnknown_failed {depth number : Nat} {wire : WireType} {rest : Bytes}
    (fails : (mergeUnknown depth message bytes number wire rest).2 = .failed error) :
    (mergeUnknown depth message bytes number wire rest).1 = message := by
  rw [mergeUnknown] at fails ⊢
  split at fails
  · rfl
  · cases fails

section

variable (sound : store.Sound) (own : store.OwnCodecs message.type)
  (held : store.Holds message.type) (found : store.catalog.table message.type = .ok table)

include sound own held found

/-- A record that fails in an ordinary message. -/
theorem spared_of_mergeRecord (regular : table.isMessageSet = false)
    (fails : Yields store (mergeRecord (insideAt maxNesting) maxNesting table none message bytes)
      (left, .failed error)) :
    store.catalog.Spared table (message.type.recordNumber? bytes) message left := by
  have builds := sound.builds_of_table held found
  cases tag : Tag.read bytes with
  | error fault =>
      rw [mergeRecord, tag] at fails
      cases (yields_pure _).unique fails
      exact .refl _ _ _ _
  | ok taken =>
      obtain ⟨number, wire, value⟩ := taken
      have named : message.type.recordNumber? bytes = some number := by
        rw [MessageType.recordNumber?, tag]
        simp [← builds.isMessageSet, regular]
      rw [named]
      by_cases stop : wire = .endGroup
      · subst stop
        rw [mergeRecord, tag] at fails
        simp only [reduceCtorEq, if_false] at fails
        cases (yields_pure _).unique fails
        exact .refl _ _ _ _
      · have placed : Ensures store (mergePlaced (insideAt maxNesting) maxNesting
            (store.catalog.place? table message number wire) message bytes number wire value)
            fun result => result.2 = .failed error →
              store.catalog.Spared table (some number) message result.1 := by
          cases placed : store.catalog.place? table message number wire with
          | none =>
              refine ensures_pure fun failed => ?_
              rw [mergeUnknown_failed failed]
              exact .refl _ _ _ _
          | some place =>
              have framed := sound.frames_own held own
              obtain ⟨ends, accepts, values⟩ := framed.of_place? sound .refl found placed
              obtain ⟨⟨slot, outcome⟩, read, -⟩ := FieldCodec.ensures_read_completes
                (fun fewer _ => frames_mergeAt sound framed fewer) ends accepts values
                (place.held? message)
              refine (yields_mergePlace read).ensures fun failed => ?_
              cases outcome with
              | ok rest => simp at failed
              | error error =>
                  have spares := FieldCodec.spares_of_run_read (Prod.ext read.run rfl)
                  rw [← regular] at spares
                  exact Catalog.spared_leave sound own held found placed spares error
        have step : Ensures store
            (mergeRecord (insideAt maxNesting) maxNesting table none message bytes) _ :=
          ensures_mergeRecord_placed sound held tag stop placed
        obtain ⟨result, yields, spared⟩ := step
        cases yields.unique fails
        exact spared rfl

omit found in
/-- An item disturbs at most the value of its extension. -/
theorem ensures_mergeItem_spared (isSet : table.isMessageSet = true) {number : Nat}
    {type : ExtensionType}
    (registered : store.catalog.extension? message.type number = some type) (body : Bytes) :
    Ensures store (mergeItem (insideAt maxNesting) type message body) fun result =>
      store.catalog.Spared table (some number) message result.1 := by
  obtain ⟨declared, -, rfl⟩ := Store.mem_extensions_of_extension? registered
  have framed := sound.frames_own held own
  apply (ensures_mergeItem_attaches framed (fun fewer _ => frames_mergeAt sound framed fewer) .refl
    registered body).mono
  rintro ⟨after, failure⟩ (rfl | ⟨nested, inner, rfl⟩)
  · exact .refl _ _ _ _
  · refine Catalog.spared_attach registered ⟨fun scalar => ?_, ?_, fun _ => .inr ⟨inner, rfl⟩⟩
    -- items hold messages
    · have value := (sound.legal_codec ⟨_, declared⟩).value
      rw [scalar] at value
      exact absurd (nested.symm.trans value) (by decide)
    · simp [isSet]

/-- A record that fails in a message set. -/
theorem spared_of_mergeSetRecord (isSet : table.isMessageSet = true)
    (fails : Yields store (mergeSetRecord (insideAt maxNesting) maxNesting message bytes)
      (left, .failed error)) :
    store.catalog.Spared table (message.type.recordNumber? bytes) message left := by
  have builds := sound.builds_of_table held found
  have messageSet : message.type.descriptor.messageSet = true := by
    rw [← builds.isMessageSet, isSet]
  have step : Ensures store (mergeSetRecord (insideAt maxNesting) maxNesting message bytes)
      fun result => result.2 = .failed error →
        store.catalog.Spared table (message.type.recordNumber? bytes) message result.1 := by
    cases tag : Tag.read bytes with
    | error fault =>
        rw [mergeSetRecord, tag]
        exact ensures_pure fun _ => .refl _ _ _ _
    | ok taken =>
        obtain ⟨number, wire, value⟩ := taken
        by_cases isItem : number = itemNumber ∧ wire = .startGroup
        · obtain ⟨rfl, rfl⟩ := isItem
          rw [mergeSetRecord_item tag]
          cases item : readItem maxNesting value with
          | error fault => exact ensures_pure fun _ => .refl _ _ _ _
          | ok taken =>
              obtain ⟨_ | ⟨named, body⟩, rest⟩ := taken
              · exact ensures_pure (by simp)
              · have number : message.type.recordNumber? bytes = some named := by
                  rw [MessageType.recordNumber?, tag]
                  simp [messageSet, item]
                rw [number]
                apply (Coding.yields_findExtension sound message.type named).bind_ensures
                cases registered : store.catalog.extension? message.type named with
                | none => exact ensures_pure (by simp)
                | some type =>
                    apply (ensures_mergeItem_spared sound own held isSet registered body).bind
                    rintro ⟨after, failure⟩ spared
                    cases failure <;> exact ensures_pure fun _ => spared
        · rw [mergeSetRecord_other tag isItem]
          refine ensures_pure fun failed => ?_
          rw [mergeUnknown_failed failed]
          exact .refl _ _ _ _
  obtain ⟨result, yields, spared⟩ := step
  cases yields.unique fails
  exact spared rfl

/-- A record that fails disturbs at most the value under its number. -/
theorem spared_of_readRecord
    (fails : Yields store (readRecord table message bytes) (left, .failed error)) :
    store.catalog.Spared table (message.type.recordNumber? bytes) message left := by
  rw [readRecord] at fails
  cases isSet : table.isMessageSet with
  | false =>
      rw [if_neg (by simp [isSet])] at fails
      exact spared_of_mergeRecord sound own held found isSet fails
  | true =>
      rw [if_pos isSet] at fails
      exact spared_of_mergeSetRecord sound own held found isSet fails

end

end MessageOf

namespace MessageType

open MessageOf

variable {store later : Store} {type : MessageType} {message left : Message} {bytes : Bytes}
  {error : Malformed}

/-- A merge that fails on malformed input has merged the longest front of complete records that can
be merged, and the record behind it disturbs at most the value under its number. -/
theorem merge_of_failed (reachable : store.Reachable) (held : store.Holds type)
    (own : store.OwnCodecs type)
    (run : (type.merge message bytes).run store = ((left, some (.decode error)), later)) :
    ∃ (table : FieldTable) (records : List Bytes) (rest : Bytes) (middle : Message),
      store.catalog.table type = .ok table ∧ bytes = records.flatten ++ rest ∧
        (∀ record ∈ records, Complete record) ∧
        ((type.merge message records.flatten).run store).1 = (middle, none) ∧
        (∀ more, more ≠ [] → more <+: rest →
          ((type.merge message (records.flatten ++ more)).run store).1.2 ≠ none) ∧
        store.catalog.Spared table (type.recordNumber? rest) middle left := by
  have sound := reachable.sound
  by_cases same : message.type = type
  · subst same
    have framed := sound.frames_own held own
    obtain ⟨reads, -⟩ := (ensures_merge_reads sound framed .refl bytes).run
    rw [run] at reads
    obtain ⟨_, built⟩ |
      ⟨table, outcome, found, ⟨records, middle, rest, rfl, reads, stops⟩, fails⟩ := reads
    · cases built
    cases outcome with
    | ok rest => cases fails
    | error error =>
        have complete := fun record mem => (reads.records record mem).complete
        have merged := yields_merge_of_readsAll sound held found reads
        refine ⟨table, records, rest, middle, found, rfl, complete, merged.run, ?_, ?_⟩
        -- if more could be merged then the record that fails could be read
        · rintro more nonempty ⟨tail, rfl⟩ succeeds
          obtain ⟨all, -⟩ :=
            (ensures_merge_readsAll sound framed .refl (records.flatten ++ more)).run
          obtain ⟨table', others, found', flat, reads'⟩ := all succeeds
          rw [found, Except.ok.injEq] at found'
          subst found'
          obtain ⟨back, rfl, rfl⟩ := exists_append_of_flatten complete
            (fun record mem => (reads'.records record mem).complete) flat
          obtain ⟨middle', first, second⟩ := Store.readsAll_append_iff.1 reads'
          have again := (yields_merge_of_readsAll sound held found first).unique merged
          obtain rfl : middle' = middle := (Prod.mk.inj again).1
          cases second with
          | nil => exact nonempty rfl
          | @cons _ _ record back change _ confines _ =>
              have read := (advances_readRecord middle').yields_append
                (confines.yields middle' ⟨rfl, rfl⟩ (.of_same (.refl middle')))
                (back.flatten ++ tail)
              rw [List.flatten_cons, List.append_assoc] at stops
              cases read.unique stops
        · have alike : message.Alike middle := ⟨reads.alike.type, reads.alike.extensions⟩
          rw [← alike.type] at held own found ⊢
          exact spared_of_readRecord sound own held found stops
  -- a message of another type is not merged into
  · rw [merge, if_pos same] at run
    cases run

end MessageType

/-- A list of numbers that bears the name of the label. -/
def numbersType : ExtensionType :=
  ⟨⟨"a.label", "a.Node",
    { FieldDescriptor.plain "numbers" 101 .int32 with cardinality := .repeated, packed := true }⟩,
    none⟩

namespace MessageType

open MessageOf

/-- The label of a node is no text, and the weight in front of it stays in the node. -/
theorem merge_of_failed_node :
    ∃ left error later,
      (nodeType.merge nodeType.newMessage [8, 7, 162, 6, 1, 255]).run nodeStore =
          ((left, some (.decode error)), later) ∧
        left.get? 1 = some (.int32 7) ∧
        ∃ (table : FieldTable) (records : List Bytes) (rest : Bytes) (middle : Message),
          [8, 7, 162, 6, 1, 255] = records.flatten ++ rest ∧
          ((nodeType.merge nodeType.newMessage records.flatten).run nodeStore).1 = (middle, none) ∧
          nodeStore.catalog.Spared table (nodeType.recordNumber? rest) middle left := by
  have held : nodeStore.Holds nodeType := List.mem_singleton_self nodeType
  have fails : (nodeType.merge nodeType.newMessage [8, 7, 162, 6, 1, 255]).run nodeStore =
      ((_, some (.decode _)), _) := rfl
  obtain ⟨table, records, rest, middle, -, flat, -, merged, -, spared⟩ :=
    merge_of_failed reachable_nodeStore held ownCodecs_nodeStore fails
  exact ⟨_, _, _, fails, rfl, table, records, rest, middle, flat, merged, spared⟩

/-- After a list was encoded under the name of the label, a label is lost when a record of its
number cannot be merged. -/
theorem label_lost_mixedListStore :
    (mixedWith numbersType).Reachable ∧ (mixedWith numbersType).Holds nodeType ∧
      ((mixedWith numbersType).registry ⟨0⟩).dropped = false ∧
      (nodeType.newMessage.attach ⟨labelType, .string "x"⟩).WellTyped
        (mixedWith numbersType).catalog maxNesting ∧
      (mixedWith numbersType).catalog.extension? nodeType 100 = some labelType ∧
      nodeType.recordNumber? [162, 6, 1, 128] = some 100 ∧
      ∃ left error later,
        (nodeType.merge (nodeType.newMessage.attach ⟨labelType, .string "x"⟩)
            [162, 6, 1, 128]).run (mixedWith numbersType) =
          ((left, some (.decode error)), later) ∧
        left.extension? 100 = some ⟨labelType, .list []⟩ := by
  have reachable : (mixedWith numbersType).Reachable := reachable_mixedWith numbersType rfl
  have held : (mixedWith numbersType).Holds nodeType := List.mem_singleton_self nodeType
  have builds := reachable.sound.builds_of_table held rfl
  have typed : (nodeType.newMessage.attach ⟨labelType, .string "x"⟩).WellTyped
      (mixedWith numbersType).catalog maxNesting :=
    wellTyped_iff.2 ⟨_, rfl, (typed_newMessage builds).attach rfl ⟨rfl, rfl, rfl, rfl⟩⟩
  exact ⟨reachable, held, rfl, typed, rfl, by cbv, _, _, _, rfl, rfl⟩

end MessageType

end ProtoWire
