import ProtoWire.Proofs.Message.Merging
import ProtoWire.Proofs.Message.Preservation

/-!
# Decoded messages

Whatever the input, a message that is decoded from it is well typed (`ensures_decode`): each
record that is merged without failure keeps the message well typed. Types are left out of which
some groups hold message sets, since a message set has no form of its own inside a group.
-/

set_option autoImplicit false

namespace ProtoWire

open Coding (Yields Ensures yields_pure ensures_pure)

/-! ## Nested messages -/

/-- Groups of the field hold no message sets. -/
def FieldCodec.PlainGroups (codec : FieldCodec) : Prop :=
  codec.kind = .group → ∀ type, codec.valueType = some type → type.descriptor.messageSet = false

/-- Merging without failure into a message of these types that is new, or of which the assertion
holds, leaves a message of which it holds. -/
def Merger.Keeps (store : Store) (types : MessageType → Prop) (assertion : Message → Prop)
    (merge : Merger) : Prop :=
  ∀ group (target : Message) bytes, types target.type →
    (group.isSome = true → target.type.descriptor.messageSet = false) →
    assertion target ∨ target = target.type.newMessage →
    Ensures store (merge group target bytes) fun result =>
      ∀ rest, result.2 = .ok rest → result.1.type = target.type ∧ assertion result.1

theorem Merger.Keeps.mono {store : Store} {types fewer : MessageType → Prop}
    {assertion : Message → Prop} {merge : Merger} (keeps : merge.Keeps store types assertion)
    (imp : ∀ type, fewer type → types type) : merge.Keeps store fewer assertion :=
  fun group target bytes known => keeps group target bytes (imp _ known)

namespace FieldCodec

section

variable {store : Store} {types : MessageType → Prop} {inside : Option Merger}
  {assertion : Message → Prop} {codec : FieldCodec} {wire : WireType} {bytes : Bytes}

theorem ensures_readNested
    (keeps : ∀ merge, inside = some merge → merge.Keeps store types assertion)
    (plain : codec.PlainGroups) (accepts : codec.accepts wire = true)
    {target : Message} (known : types target.type)
    (type : codec.valueType = some target.type)
    (start : assertion target ∨ target = target.type.newMessage) :
    Ensures store (codec.readNested inside wire target bytes) fun result =>
      ∀ rest, result.2 = .ok rest → result.1.type = target.type ∧ assertion result.1 := by
  cases inside with
  | none => exact ensures_pure (by simp)
  | some merge =>
      rw [readNested]
      by_cases group : wire = .startGroup
      · rw [if_pos group]
        -- only group fields accept a start tag
        have kind : codec.kind = .group := by
          subst group
          cases kind : codec.kind <;> simp [FieldCodec.accepts, kind, Kind.wireType] at accepts ⊢
        exact keeps merge rfl (some codec.number) target bytes known
          (fun _ => plain kind target.type type) start
      · rw [if_neg group]
        cases taken : Payload.readDelimited bytes with
        | error fault => exact ensures_pure (by simp)
        | ok split =>
            obtain ⟨body, rest⟩ := split
            apply (keeps merge rfl none target body known (by simp) start).bind
            rintro ⟨after, outcome⟩ h
            apply ensures_pure
            intro rest' eq
            cases outcome with
            | error error => simp [Except.map] at eq
            | ok rest'' => exact h rest'' rfl

theorem isSome_payload?_of_readPacked {kind : Kind} {position limit : Nat} {values : List Value}
    {failure : Option Malformed} (h : readPacked kind position limit bytes = (values, failure)) :
    ∀ value ∈ values, (kind.payload? value).isSome = true := by
  induction limit generalizing bytes position values failure with
  | zero =>
      -- the limit is the number of bytes, and each value takes some
      have none : values = [] := by cases bytes <;> simp [readPacked] at h <;> exact h.1
      simp [none]
  | succ limit ih =>
      cases bytes with
      | nil =>
          rw [readPacked] at h
          cases h
          simp
      | cons byte bytes =>
          rw [readPacked] at h
          cases taken : kind.read (byte :: bytes) with
          | error fault =>
              simp only [taken] at h
              cases h
              simp
          | ok split =>
              obtain ⟨value, rest⟩ := split
              simp only [taken] at h
              cases h
              intro other mem
              rcases List.mem_cons.1 mem with rfl | later
              · exact Kind.isSome_payload?_of_read taken
              · exact ih rfl other later

theorem fitsOne_of_payload? {value : Value} (h : (codec.kind.payload? value).isSome = true) :
    codec.FitsOne assertion value := by
  cases value with
  | message inner => cases kind : codec.kind <;> simp [kind, Kind.payload?] at h
  | _ => exact h

/-- The items that a repeated field holds fit it. -/
theorem fitsOne_of_mem_items (repeated : codec.arrangement.isRepeated = true)
    {slot : Option Value} (fits : ∀ value, slot = some value → codec.Fits assertion value) :
    ∀ item ∈ (slot.map Value.items).getD [], codec.FitsOne assertion item := by
  cases slot with
  | none => simp
  | some value =>
      obtain ⟨items, rfl, each⟩ := (fits_iff_items repeated).1 (fits value rfl)
      exact each

/-- The items that are read are added to those that were there. -/
theorem fitsOne_readItems {items : List Value}
    (each : ∀ item ∈ items, codec.FitsOne assertion item) {rest : Bytes}
    (h : (codec.readItems wire items bytes).2 = .ok rest) :
    ∀ item ∈ (codec.readItems wire items bytes).1, codec.FitsOne assertion item := by
  rw [readItems] at h ⊢
  split
  · next packed =>
      rw [if_pos packed] at h
      cases taken : Payload.readDelimited bytes with
      | error fault => simp [taken] at h
      | ok split =>
          simp only [taken] at h ⊢
          cases read : readPacked codec.kind items.length split.1.length split.1 with
          | mk values failure =>
              simp only [read] at h ⊢
              cases failure with
              | some error => simp at h
              | none =>
                  intro item mem
                  rcases List.mem_append.1 mem with before | added
                  · exact each item before
                  · exact fitsOne_of_payload? (isSome_payload?_of_readPacked read item added)
  · next single =>
      rw [if_neg single] at h
      cases taken : codec.kind.read bytes with
      | error fault => simp [taken] at h
      | ok split =>
          simp only
          intro item mem
          rcases List.mem_append.1 mem with before | added
          · exact each item before
          · rw [List.mem_singleton] at added
            exact added ▸ fitsOne_of_payload? (Kind.isSome_payload?_of_read taken)

/-- What is read of scalars are values of the kind. -/
theorem fits_readScalar {slot : Option Value}
    (fits : ∀ value, slot = some value → codec.Fits assertion value) {rest : Bytes}
    (h : (codec.readScalar wire slot bytes).2 = .ok rest) :
    ∃ value, (codec.readScalar wire slot bytes).1 = some value ∧ codec.Fits assertion value := by
  rw [readScalar] at h ⊢
  cases repeated : codec.arrangement.isRepeated with
  | true =>
      simp only [repeated, if_true] at h ⊢
      exact ⟨_, rfl, (fits_iff_items repeated).2
        ⟨_, rfl, fitsOne_readItems (fitsOne_of_mem_items repeated fits) h⟩⟩
  | false =>
      simp only [repeated, Bool.false_eq_true, if_false] at h ⊢
      cases taken : codec.kind.read bytes with
      | error fault => simp [taken] at h
      | ok split =>
          refine ⟨split.1, rfl, ?_⟩
          rw [fits_iff_fitsOne repeated]
          exact fitsOne_of_payload? (Kind.isSome_payload?_of_read taken)

/-- A message that is merged into is the one that is there, or new. -/
theorem startingMessage_cases {slot : Option Value}
    (holds : ∀ inner, slot = some (.message inner) → assertion inner) (type : MessageType) :
    assertion (startingMessage type slot) ∨
      startingMessage type slot = (startingMessage type slot).type.newMessage := by
  simp only [startingMessage]
  split
  · split
    · exact .inl (holds _ rfl)
    · exact .inr rfl
  · exact .inr rfl

/-- What is read without failure into a place fits it. -/
theorem ensures_read (plain : codec.PlainGroups)
    (keeps : ∀ merge, inside = some merge → merge.Keeps store types assertion)
    (known : ∀ type, codec.valueType = some type → types type)
    (accepts : codec.accepts wire = true) {slot : Option Value}
    (fits : ∀ value, slot = some value → codec.Fits assertion value) :
    Ensures store (codec.read inside wire slot bytes) fun result =>
      ∀ rest, result.2 = .ok rest →
        ∃ value, result.1 = some value ∧ codec.Fits assertion value := by
  rw [read]
  cases nested : codec.kind.isMessage with
  | false =>
      rw [Bool.not_false, if_pos rfl]
      exact ensures_pure fun rest h => fits_readScalar fits h
  | true =>
      rw [Bool.not_true, if_neg Bool.false_ne_true]
      cases value : codec.valueType with
      | none => exact ensures_pure (by simp)
      | some type =>
          have known := known type value
          -- a message of the type that the field names fits it
          have fitsOne : ∀ after : Message, after.type = type → assertion after →
              codec.FitsOne assertion (.message after) := by
            intro after type' holds
            exact ⟨nested, type' ▸ value, fun group => plain group _ (type' ▸ value), holds⟩
          cases repeated : codec.arrangement.isRepeated with
          | true =>
              simp only [if_true]
              -- an item of a repeated field is read into a new message
              refine (ensures_readNested keeps plain accepts known value
                (.inr rfl)).bind ?_
              rintro ⟨after, outcome⟩ h
              apply ensures_pure
              intro rest eq
              cases outcome with
              | error error => simp [Except.mapError] at eq
              | ok rest' =>
                  obtain ⟨type', holds⟩ := h rest' rfl
                  refine ⟨_, rfl, (fits_iff_items repeated).2 ⟨_, rfl, fun item mem => ?_⟩⟩
                  rcases List.mem_append.1 mem with before | added
                  · exact fitsOne_of_mem_items repeated fits item before
                  · rw [List.mem_singleton] at added
                    exact added ▸ fitsOne after type' holds
          | false =>
              simp only [Bool.false_eq_true, if_false]
              -- a single one is read into what is there
              have holds : ∀ inner, slot = some (.message inner) → assertion inner := by
                intro inner eq
                exact ((fits_iff_fitsOne repeated).1 (fits _ eq)).2.2.2
              refine (ensures_readNested keeps plain accepts (by simpa using known)
                (by simpa using value)
                (startingMessage_cases holds type)).bind ?_
              rintro ⟨after, outcome⟩ h
              apply ensures_pure
              intro rest eq
              obtain ⟨type', holds⟩ := h rest eq
              refine ⟨_, rfl, ?_⟩
              rw [fits_iff_fitsOne repeated]
              exact fitsOne after (by simpa using type') holds

end

end FieldCodec

/-! ## Records -/

/-- Whatever groups reading a message of the type comes across, they hold no message sets. -/
structure Store.PlainGroups (store : Store) (type : MessageType) : Prop where
  field : ∀ owner, Relation.ReflTransGen store.Opens type owner → ∀ table,
    store.catalog.table owner = .ok table → ∀ entry ∈ table.entries, entry.codec.PlainGroups
  extension : ∀ owner, Relation.ReflTransGen store.Opens type owner → ∀ number extension,
    store.catalog.extension? owner number = some extension → extension.codec.PlainGroups

theorem Store.PlainGroups.opened {store : Store} {type other : MessageType}
    (plain : store.PlainGroups type) (path : Relation.ReflTransGen store.Opens type other) :
    store.PlainGroups other :=
  ⟨fun owner path' => plain.field owner (path.trans path'),
    fun owner path' => plain.extension owner (path.trans path')⟩

namespace MessageOf

/-- The record has failed, or the message that it left is good. -/
def FailsOrKeeps (good : Message → Prop) (result : Message × Step) : Prop :=
  (∃ error, result.2 = .failed error) ∨ good result.1

/-- If each record leaves a good message then all records do. -/
theorem ensures_mergeRecords {store : Store} {step : Message → Bytes → Coding (Message × Step)}
    {good : Message → Prop}
    (each : ∀ message bytes, good message →
      Ensures store (step message bytes) (FailsOrKeeps good))
    {atEnd : Except Malformed Bytes} {limit : Nat} {message : Message} {bytes : Bytes}
    (start : good message) :
    Ensures store (mergeRecords step atEnd limit message bytes) fun result =>
      ∀ rest, result.2 = .ok rest → good result.1 := by
  induction limit generalizing message bytes with
  | zero => cases bytes <;> exact ensures_pure fun _ _ => start
  | succ limit ih =>
      cases bytes with
      | nil => exact ensures_pure fun _ _ => start
      | cons byte bytes =>
          rw [mergeRecords]
          apply (each message (byte :: bytes) start).bind
          rintro ⟨after, outcome⟩ kept
          cases outcome with
          | failed error => exact ensures_pure (by simp)
          | ended rest =>
              rcases kept with ⟨error, failed⟩ | good'
              · simp at failed
              · exact ensures_pure fun _ _ => good'
          | next rest =>
              rcases kept with ⟨error, failed⟩ | good'
              · simp at failed
              · exact ih good'

section

variable {store : Store} {type : MessageType} {table : FieldTable} {inside : Option Merger}
  {assertion : Message → Prop} {depth : Nat} {message : Message} {wire : WireType}
  {bytes rest : Bytes} {number : Nat}

/-- A message of a type that fits it. -/
def TypedAs (store : Store) (type : MessageType) (table : FieldTable) (assertion : Message → Prop)
    (depth : Nat) (message : Message) : Prop :=
  message.type = type ∧ message.Typed store.catalog table assertion depth

/-- The bytes of a record that is skipped are a complete record. -/
theorem skipValue_before {tail : Bytes} (tag : Tag.read bytes = .ok (number, wire, rest))
    (skips : skipValue depth number wire rest = .ok tail) :
    ∃ value, Tag.read (bytes.before tail) = .ok (number, wire, value) ∧
      skipValue depth number wire value = .ok [] := by
  obtain ⟨head, -, rfl, reads⟩ := Tag.append_of_read tag
  obtain ⟨value, rfl, skips'⟩ := append_of_skipValue depth _ _ _ _ skips
  rw [← List.append_assoc, Bytes.before_append]
  have all := skips' []
  rw [List.append_nil] at all
  exact ⟨value, reads value, all⟩

/-- Passing over a record that the type keeps. -/
theorem keeps_mergeUnknown (typed : TypedAs store type table assertion depth message)
    (tag : Tag.read bytes = .ok (number, wire, rest))
    (kept : ∀ record value, Tag.read record = .ok (number, wire, value) →
      skipValue depth number wire value = .ok [] →
      store.catalog.KeepsRecord table type depth record) :
    FailsOrKeeps (TypedAs store type table assertion depth)
      (mergeUnknown depth message bytes number wire rest) := by
  rw [mergeUnknown]
  cases skips : skipValue depth number wire rest with
  | error error => exact .inl ⟨error, rfl⟩
  | ok tail =>
      obtain ⟨value, tag', skips'⟩ := skipValue_before tag skips
      obtain ⟨rfl, typed⟩ := typed
      exact .inr ⟨rfl, typed.keepUnknown (kept _ value tag' skips')⟩

/-- The bytes of an item are a complete record. -/
theorem readItem_before {item : Option (Nat × Bytes)} {tail : Bytes}
    (tag : Tag.read bytes = .ok (number, wire, rest))
    (reads : readItem depth rest = .ok (item, tail)) :
    ∃ value, Tag.read (bytes.before tail) = .ok (number, wire, value) ∧
      readItem depth value = .ok (item, []) := by
  obtain ⟨head, -, rfl, again⟩ := Tag.append_of_read tag
  obtain ⟨value, rfl, reads'⟩ := append_of_readItem reads
  rw [← List.append_assoc, Bytes.before_append]
  have all := reads' []
  rw [List.append_nil] at all
  exact ⟨value, again value, all⟩

section

variable (sound : store.Sound) (held : store.Holds type)
  (found : store.catalog.table type = .ok table)
  (keeps : ∀ merge, inside = some merge → merge.Keeps store (store.Opens type) assertion)
  (typed : TypedAs store type table assertion depth message)

include sound held found keeps typed

theorem ensures_mergeField (plain : store.PlainGroups type) {entry : FieldEntry}
    (mem : entry ∈ table.entries) (accepts : entry.codec.accepts wire = true) :
    Ensures store (mergeField inside entry message wire bytes)
      (FailsOrKeeps (TypedAs store type table assertion depth)) := by
  obtain ⟨rfl, typed⟩ := typed
  have builds := sound.builds_of_table held found
  rw [mergeField]
  refine (FieldCodec.ensures_read (plain.field _ .refl table found entry mem) keeps
    (fun valueType value => .inl (builds.links_of_mem mem value)) accepts
    (fun value slot => typed.fits entry mem value slot)).bind ?_
  rintro ⟨slot, outcome⟩ h
  cases outcome with
  | error error => exact ensures_pure (.inl ⟨_, rfl⟩)
  | ok rest =>
      obtain ⟨value, eq, fits⟩ := h rest rfl
      simp only at eq
      subst eq
      refine ensures_pure (.inr ⟨type_putField message entry.position value, ?_⟩)
      exact typed.putField builds mem fits

omit sound in
theorem ensures_mergeExtension (plain : store.PlainGroups type)
    (regular : table.isMessageSet = false) {extension : ExtensionType}
    (known : store.catalog.extension? type extension.number = some extension)
    (takes : type.descriptor.isExtensionNumber extension.number = true)
    (undeclared : table.entry? extension.number = none)
    (storage : type.storage.extensions = true) (accepts : extension.codec.accepts wire = true) :
    Ensures store (mergeExtension inside extension.codec extension message wire bytes)
      (FailsOrKeeps (TypedAs store type table assertion depth)) := by
  obtain ⟨rfl, typed⟩ := typed
  have place : message.extensions.isSome = true := typed.extensionPlace.trans storage
  -- what bears the number before is of the extension that is registered under it
  have fits : ∀ value, (message.extension? extension.number).map AttachedOf.value = some value →
      extension.codec.Fits assertion value := by
    intro value eq
    obtain ⟨entry, held', rfl⟩ := Option.map_eq_some_iff.1 eq
    obtain ⟨known', fits⟩ := typed.of_extension? held'
    rw [known] at known'
    cases known'
    rw [regular, if_neg Bool.false_ne_true] at fits
    exact fits.2.2
  rw [mergeExtension]
  refine (FieldCodec.ensures_read (plain.extension _ .refl _ extension known) keeps
    (fun valueType value => .inr ⟨_, extension, known, value⟩) accepts fits).bind ?_
  rintro ⟨slot, outcome⟩ h
  cases outcome with
  | error error => exact ensures_pure (.inl ⟨_, rfl⟩)
  | ok rest =>
      obtain ⟨value, eq, fits⟩ := h rest rfl
      simp only at eq
      subst eq
      refine ensures_pure (.inr ⟨rfl, typed.attach place ⟨known, ?_⟩⟩)
      rw [regular, if_neg Bool.false_ne_true]
      exact ⟨takes, undeclared, fits⟩

/-- A record that is no end tag fails or leaves a message that fits its type. -/
theorem ensures_mergeRecord_keeps (own : store.OwnCodecs type)
    (plain : store.PlainGroups type) (regular : table.isMessageSet = false)
    (group : Option Nat) (bytes : Bytes) :
    Ensures store (mergeRecord inside depth table group message bytes)
      (FailsOrKeeps (TypedAs store type table assertion depth)) := by
  cases tag : Tag.read bytes with
  | error fault =>
      rw [mergeRecord, tag]
      exact ensures_pure (.inl ⟨_, rfl⟩)
  | ok taken =>
      obtain ⟨number, wire, rest⟩ := taken
      by_cases ends : wire = .endGroup
      · subst ends
        rw [mergeRecord, tag]
        simp only
        split
        · exact ensures_pure (.inr typed)
        · exact ensures_pure (.inl ⟨_, rfl⟩)
      · have same := typed.1
        -- the field or the extension that takes the record, or none, decides
        apply ensures_mergeRecord sound (same ▸ held) (same ▸ own) typed.2.extensionPlace tag ends
        rw [same]
        cases taken : store.catalog.taker? table type number wire with
        | none =>
            refine ensures_pure (keeps_mergeUnknown typed tag fun record value tag' skips => ?_)
            refine ⟨number, wire, value, tag', ?_⟩
            rw [regular, if_neg Bool.false_ne_true]
            exact ⟨skips, taken⟩
        | some taker =>
            cases taker with
            | field entry =>
                obtain ⟨declared, accepts⟩ := Catalog.of_taker?_field taken
                have mem := ((sound.builds_of_table held found).entry?_eq_some_iff.1 declared).1
                exact ensures_mergeField sound held found keeps typed plain mem accepts
            | extension extension =>
                obtain ⟨undeclared, storage, takes, known, accepts⟩ :=
                  Catalog.of_taker?_extension taken
                obtain ⟨-, -, rfl⟩ := Store.mem_extensions_of_extension? known
                exact ensures_mergeExtension held found keeps typed plain regular known takes
                  undeclared storage accepts

omit sound held found in
theorem ensures_mergeItem (isSet : table.isMessageSet = true) {extension : ExtensionType}
    (known : store.catalog.extension? type extension.number = some extension)
    (storage : type.storage.extensions = true) (body : Bytes) :
    Ensures store (mergeItem inside extension message body) fun result =>
      result.2 = none → TypedAs store type table assertion depth result.1 := by
  obtain ⟨rfl, typed⟩ := typed
  have place : message.extensions.isSome = true := typed.extensionPlace.trans storage
  rw [mergeItem]
  cases value : extension.valueType with
  | none => exact ensures_pure (by simp)
  | some valueType =>
      have opens : store.Opens message.type valueType := .inr ⟨_, extension, known, value⟩
      cases inside with
      | none => exact ensures_pure (by simp)
      | some merge =>
          -- an item is merged into the message that bears its number
          have holds : ∀ inner, (message.extension? extension.number).map AttachedOf.value =
              some (.message inner) → assertion inner := by
            intro inner eq
            obtain ⟨entry, held', eq⟩ := Option.map_eq_some_iff.1 eq
            obtain ⟨-, fits⟩ := typed.of_extension? held'
            rw [if_pos isSet, eq] at fits
            obtain ⟨_, ⟨⟩, -, holds⟩ := fits
            exact holds
          refine (keeps merge rfl none _ body (by simpa using opens) (by simp)
            (FieldCodec.startingMessage_cases holds valueType)).bind ?_
          rintro ⟨inner, outcome⟩ h
          cases outcome with
          | error error => exact ensures_pure (by simp)
          | ok rest =>
              obtain ⟨type, holds⟩ := h rest rfl
              refine ensures_pure fun _ => ⟨rfl, typed.attach place ⟨known, ?_⟩⟩
              rw [if_pos isSet]
              exact ⟨inner, rfl, by simpa [value] using type.symm, holds⟩

/-- A record of a message set fails or leaves a message that fits its type. -/
theorem ensures_mergeSetRecord_keeps (isSet : table.isMessageSet = true) (bytes : Bytes) :
    Ensures store (mergeSetRecord inside depth message bytes)
      (FailsOrKeeps (TypedAs store type table assertion depth)) := by
  obtain ⟨storage, -, -⟩ := (sound.builds_of_table held found).shape_of_messageSet isSet
  cases tag : Tag.read bytes with
  | error fault =>
      rw [mergeSetRecord, tag]
      exact ensures_pure (.inl ⟨_, rfl⟩)
  | ok taken =>
      obtain ⟨number, wire, rest⟩ := taken
      by_cases isItem : number = itemNumber ∧ wire = .startGroup
      · obtain ⟨rfl, rfl⟩ := isItem
        rw [mergeSetRecord_item tag]
        cases reads : readItem depth rest with
        | error error => exact ensures_pure (.inl ⟨error, rfl⟩)
        | ok taken =>
            obtain ⟨item, tail⟩ := taken
            obtain ⟨value, tag', reads'⟩ := readItem_before tag reads
            -- an item that names no extension is kept whole
            have kept : (∀ found body, item = some (found, body) →
                  store.catalog.extension? type found = none) →
                TypedAs store type table assertion depth
                  (message.keepUnknown (bytes.before tail)) := by
              intro unknown
              obtain ⟨rfl, typed⟩ := typed
              refine ⟨rfl, typed.keepUnknown ⟨itemNumber, .startGroup, value, tag', ?_⟩⟩
              rw [if_pos isSet, if_pos ⟨rfl, rfl⟩]
              exact ⟨item, reads', unknown⟩
            cases item with
            | none => exact ensures_pure (.inr (kept (by simp)))
            | some item =>
                obtain ⟨number, body⟩ := item
                apply (Coding.yields_findExtension sound message.type number).bind_ensures
                rw [typed.1]
                cases known : store.catalog.extension? type number with
                | none =>
                    refine ensures_pure (.inr (kept ?_))
                    rintro found body ⟨⟩
                    exact known
                | some extension =>
                    obtain ⟨-, -, rfl⟩ := Store.mem_extensions_of_extension? known
                    apply (ensures_mergeItem keeps typed isSet known storage body).bind
                    rintro ⟨after, failure⟩ h
                    cases failure with
                    | none => exact ensures_pure (.inr (h rfl))
                    | some error => exact ensures_pure (.inl ⟨error, rfl⟩)
      · rw [mergeSetRecord_other tag isItem]
        refine ensures_pure (keeps_mergeUnknown typed tag fun record value tag' skips => ?_)
        refine ⟨number, wire, value, tag', ?_⟩
        rw [if_pos isSet, if_neg isItem]
        exact skips

/-- Merging without failure leaves a message that fits its type. -/
theorem ensures_mergeBody_keeps (own : store.OwnCodecs type)
    (plain : store.PlainGroups type) {group : Option Nat}
    (framed : group.isSome = true → type.descriptor.messageSet = false) (bytes : Bytes) :
    Ensures store (mergeBody inside depth table group message bytes) fun result =>
      ∀ rest, result.2 = .ok rest → TypedAs store type table assertion depth result.1 := by
  have builds := sound.builds_of_table held found
  have start : TypedAs store type table assertion depth message.clearCachedSize :=
    ⟨typed.1, typed.2.clearCachedSize⟩
  simp only [mergeBody]
  cases group with
  | none =>
      cases isSet : table.isMessageSet with
      | true =>
          rw [if_pos rfl]
          exact ensures_mergeRecords (fun message bytes typed =>
            ensures_mergeSetRecord_keeps sound held found keeps typed isSet bytes) start
      | false =>
          rw [if_neg Bool.false_ne_true]
          exact ensures_mergeRecords (fun message bytes typed =>
            ensures_mergeRecord_keeps sound held found keeps typed own plain isSet none bytes) start
  | some number =>
      have regular : table.isMessageSet = false := by
        rw [builds.isMessageSet]
        exact framed rfl
      exact ensures_mergeRecords (fun message bytes typed => ensures_mergeRecord_keeps sound held
        found keeps typed own plain regular (some number) bytes) start

end

/-- Merging for some levels keeps messages well typed for as many. -/
theorem keeps_mergeAt (sound : store.Sound) (held : store.Holds type) (own : store.OwnCodecs type)
    (plain : store.PlainGroups type) (depth : Nat) :
    (mergeAt depth).Keeps store (Relation.ReflTransGen store.Opens type)
      (WellTyped store.catalog depth) := by
  -- one level, if the levels inside keep messages well typed
  have key : ∀ depth, (∀ merge, insideAt depth = some merge →
        merge.Keeps store (Relation.ReflTransGen store.Opens type) (Inside store.catalog depth)) →
      (mergeAt depth).Keeps store (Relation.ReflTransGen store.Opens type)
        (WellTyped store.catalog depth) := by
    intro depth keeps group target bytes path framed start
    have held' := (sound.home_of_opened held path).1
    rw [mergeAt_eq, mergeInner]
    apply (Coding.yields_table sound held').bind_ensures
    cases found : store.catalog.table target.type with
    | error error => exact ensures_pure (by simp)
    | ok table =>
        -- what is merged into fits its type, be it new or not
        have typed : TypedAs store target.type table (Inside store.catalog depth) depth target := by
          rcases start with wellTyped | new
          · obtain ⟨table', found', typed⟩ := wellTyped_iff.1 wellTyped
            rw [found] at found'
            cases found'
            exact ⟨rfl, typed⟩
          · refine ⟨rfl, ?_⟩
            rw [new]
            exact typed_newMessage (sound.builds_of_table held' found)
        have inner : ∀ merge, insideAt depth = some merge →
            merge.Keeps store (store.Opens target.type) (Inside store.catalog depth) :=
          fun merge eq => (keeps merge eq).mono fun _ opens => path.tail opens
        apply (ensures_mergeBody_keeps sound held' found inner typed (own.opened path)
          (plain.opened path) framed bytes).mono
        intro result kept rest eq
        obtain ⟨type, typed⟩ := kept rest eq
        exact ⟨type, wellTyped_iff.2 ⟨table, type ▸ found, typed⟩⟩
  induction depth with
  | zero => exact key 0 (by simp [insideAt])
  | succ depth ih =>
      apply key (depth + 1)
      intro merge eq
      cases eq
      exact ih

end

end MessageOf

namespace MessageType

open MessageOf

/-- What is decoded is well typed. -/
theorem ensures_decode {store : Store} (sound : store.Sound) {type : MessageType}
    (held : store.Holds type) (own : store.OwnCodecs type)
    (plain : store.PlainGroups type) (input : Bytes) :
    Ensures store (type.decode input) fun outcome => ∀ message, outcome = .ok message →
      message.type = type ∧ message.WellTyped store.catalog maxNesting := by
  have merged : Ensures store (type.merge type.newMessage input) fun result =>
      result.2 = none → result.1.type = type ∧ result.1.WellTyped store.catalog maxNesting := by
    rw [merge, if_neg (not_not_intro type.type_newMessage)]
    apply (Coding.yields_table sound held).bind_ensures
    cases found : store.catalog.table type with
    | error error => exact ensures_pure (by simp)
    | ok table =>
        have keeps : ∀ merge, some (mergeAt (maxNesting - 1)) = some merge →
            merge.Keeps store (store.Opens type) (Inside store.catalog maxNesting) := by
          rintro merge ⟨⟩
          exact (keeps_mergeAt sound held own plain (maxNesting - 1)).mono fun _ => .single
        have start : TypedAs store type table (Inside store.catalog maxNesting) maxNesting
            type.newMessage := ⟨rfl, typed_newMessage (sound.builds_of_table held found)⟩
        refine (ensures_mergeBody_keeps sound held found keeps start own plain (by simp)
          input).bind ?_
        rintro ⟨after, outcome⟩ kept
        cases outcome with
        | error error => exact ensures_pure (by simp)
        | ok rest =>
            obtain ⟨same, typed⟩ := kept rest rfl
            exact ensures_pure fun _ => ⟨same, wellTyped_iff.2 ⟨table, same ▸ found, typed⟩⟩
  rw [decode]
  apply merged.bind
  rintro ⟨after, failure⟩ h
  cases failure with
  | some failure => exact ensures_pure (by simp)
  | none =>
      apply ensures_pure
      rintro message ⟨⟩
      exact h rfl

end MessageType

end ProtoWire
