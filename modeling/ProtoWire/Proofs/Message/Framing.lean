import ProtoWire.Proofs.Message.Effect
import ProtoWire.Proofs.Wire.Grammar

/-!
# Records that merging takes

A field, an extension and an item each read on from their tag by themselves, and the next record
is read where they stop. They all stop where the record ends: what a merge takes is a sequence of
complete records, and each of them is either read into its place or kept whole among the unknown
bytes (`MessageOf.ensures_mergeBody_accounts`). The statements are about the catalog of a store, so
that they also say what happens if an extension is coded by the codec of another one.
-/

set_option autoImplicit false

namespace ProtoWire

open Coding (Yields Ensures yields_pure ensures_pure)

/-! ## Types and their codecs -/

/-- Among messages of these types, groups of a number end with tags that may end them, and values
are of these types again. -/
structure Store.Frames (store : Store) (closes : Nat → Nat → Prop) (types : MessageType → Prop) :
    Prop where
  same : ∀ number, closes number number
  held : ∀ type, types type → store.Holds type
  field : ∀ type, types type → ∀ table, store.catalog.table type = .ok table →
    ∀ entry ∈ table.entries, ∀ valueType, entry.codec.valueType = some valueType →
      types valueType
  codec : ∀ type, types type → ∀ number extension,
    store.catalog.extension? type number = some extension →
      closes number (store.catalog.codec type extension).number ∧
        ∀ valueType, (store.catalog.codec type extension).valueType = some valueType →
          types valueType
  value : ∀ type, types type → ∀ number extension,
    store.catalog.extension? type number = some extension →
      ∀ valueType, extension.valueType = some valueType → types valueType

theorem Store.Frames.of_eq {store : Store} {closes : Nat → Nat → Prop}
    {types : MessageType → Prop} (framed : store.Frames closes types) (number ender : Nat)
    (same : number = ender) : closes number ender :=
  same ▸ framed.same number

/-- The codec of a place accepts the records of the place, which may end with its tag, and holds
values of these types. -/
theorem Store.Frames.of_place? {store : Store} {closes : Nat → Nat → Prop}
    {types : MessageType → Prop} (framed : store.Frames closes types) (sound : store.Sound)
    {message : Message} (known : types message.type) {table : FieldTable}
    (found : store.catalog.table message.type = .ok table) {number : Nat} {wire : WireType}
    {place : Place} (placed : store.catalog.place? table message number wire = some place) :
    closes number place.codec.number ∧ place.codec.accepts wire = true ∧
      ∀ valueType, place.codec.valueType = some valueType → types valueType := by
  have held := framed.held _ known
  cases place with
  | field entry =>
      obtain ⟨declared, accepts⟩ := Catalog.of_place?_field placed
      obtain ⟨mem, rfl⟩ := (sound.builds_of_table held found).entry?_eq_some_iff.1 declared
      exact ⟨framed.same _, accepts, framed.field _ known table found entry mem⟩
  | extension type codec =>
      obtain ⟨-, registered, rfl, accepts⟩ := Catalog.of_place?_extension placed
      obtain ⟨ends, values⟩ := framed.codec _ known _ type registered
      exact ⟨ends, accepts, values⟩

/-- If extensions are coded by their own codecs then groups end with their own numbers, in messages
of the type and in those that reading them comes across. -/
theorem Store.Sound.frames_own {store : Store} (sound : store.Sound) {type : MessageType}
    (held : store.Holds type) (own : store.OwnCodecs type) :
    store.Frames Eq (Relation.ReflTransGen store.Opens type) := by
  refine ⟨fun _ => rfl, fun _ path => (sound.home_of_opened held path).1, ?_, ?_, ?_⟩
  · intro owner path table found entry mem valueType eq
    have builds := sound.builds_of_table (sound.home_of_opened held path).1 found
    exact path.tail (.inl (builds.links_of_mem mem eq))
  · intro owner path number extension found
    obtain ⟨-, -, rfl⟩ := mem_extensions_of_extension? found
    rw [(own.opened path).codec found]
    exact ⟨rfl, fun valueType eq => path.tail (.inr ⟨_, extension, found, eq⟩)⟩
  · exact fun owner path number extension found valueType eq =>
      path.tail (.inr ⟨number, extension, found, eq⟩)

/-- Whatever codecs are kept, groups end with some end tag. -/
theorem Store.Sound.frames_any {store : Store} (sound : store.Sound) :
    store.Frames (fun _ _ => True) store.Holds := by
  refine ⟨fun _ => trivial, fun _ held => held, ?_, ?_, ?_⟩
  · intro type held table found entry mem valueType eq
    exact sound.holds_of_mem ((sound.builds_of_table held found).mem_types_of_mem mem eq)
  · intro type _ number extension found
    have declared := (mem_extensions_of_extension? found).1
    refine ⟨trivial, fun valueType eq => ?_⟩
    have coded : store.catalog.codec type extension =
        (store.registry type.registry).codecOf extension := rfl
    rw [coded, Registry.codecOf] at eq
    cases kept : (store.registry type.registry).codecs.lookup extension.fullName with
    | none =>
        rw [kept] at eq
        exact sound.holds_value ⟨_, declared⟩ eq
    | some codec =>
        -- the codec that is kept is that of some registered extension
        obtain ⟨home, other, declared', -, rfl⟩ := sound.codecs _ _ _ kept
        rw [kept] at eq
        exact sound.holds_value ⟨home, declared'⟩ eq
  · exact fun type _ number extension found valueType =>
      sound.holds_value (knows_of_extension? found).1

/-! ## Values -/

namespace FieldCodec

section

variable {closes : Nat → Nat → Prop} {codec : FieldCodec} {wire : WireType} {depth number : Nat}
  {bytes rest : Bytes}

theorem accepts_iff :
    codec.accepts wire = true ↔ wire = codec.kind.wireType ∨
      codec.arrangement.isRepeated = true ∧ codec.kind.isPackable = true ∧
        wire = .lengthDelimited := by
  simp [accepts, and_assoc]

theorem completes_of_readKind {kind : Kind} {value : Value}
    (h : kind.read bytes = .ok (value, rest)) :
    Completes closes depth number kind.wireType bytes rest := by
  rw [Kind.read] at h
  split at h
  · simp at h
  · next taken =>
      split at h <;> cases h
      exact completes_of_read taken

theorem completes_of_readItems (accepts : codec.accepts wire = true) {items : List Value}
    (h : (codec.readItems wire items bytes).2 = .ok rest) :
    Completes closes depth number wire bytes rest := by
  rw [readItems] at h
  split at h
  · next packed =>
      -- all values are in the body of one record
      obtain ⟨rfl, -⟩ := packed
      cases taken : Payload.readDelimited bytes with
      | error fault => simp [taken] at h
      | ok split =>
          obtain ⟨body, after⟩ := split
          have ends : after = rest := by
            simp only [taken] at h
            split at h <;> simp at h
            exact h
          exact ends ▸ completes_of_readDelimited taken
  · next single =>
      have kind : wire = codec.kind.wireType := by
        rw [accepts_iff] at accepts
        rcases accepts with kind | ⟨-, packable, delimited⟩
        · exact kind
        · exact absurd ⟨delimited, packable⟩ single
      subst kind
      cases taken : codec.kind.read bytes with
      | error fault => simp [taken] at h
      | ok split =>
          obtain ⟨value, after⟩ := split
          simp only [taken, Except.ok.injEq] at h
          exact h ▸ completes_of_readKind taken

theorem completes_of_readScalar (accepts : codec.accepts wire = true) {slot : Option Value}
    (h : (codec.readScalar wire slot bytes).2 = .ok rest) :
    Completes closes depth number wire bytes rest := by
  rw [readScalar] at h
  split at h
  · exact completes_of_readItems accepts h
  · next single =>
      have kind : wire = codec.kind.wireType := by
        rw [accepts_iff] at accepts
        rcases accepts with kind | ⟨repeated, -⟩
        · exact kind
        · exact absurd repeated single
      subst kind
      cases taken : codec.kind.read bytes with
      | error fault => simp [taken] at h
      | ok split =>
          obtain ⟨value, after⟩ := split
          simp only [taken, Except.ok.injEq] at h
          exact h ▸ completes_of_readKind taken

end

end FieldCodec

/-- Merging up to the end tag of a group takes complete records and the end tag. -/
def Merger.Frames (store : Store) (closes : Nat → Nat → Prop) (types : MessageType → Prop)
    (depth : Nat) (merge : Merger) : Prop :=
  ∀ group (target : Message) bytes, types target.type →
    Ensures store (merge group target bytes) fun result =>
      ∀ rest number, result.2 = .ok rest → group = some number →
        ∃ (records : List Bytes) (stop : Bytes), bytes = records.flatten ++ stop ++ rest ∧
          (∀ record ∈ records, IsRecord closes depth record) ∧
          Tag.read stop = .ok (number, .endGroup, [])

section

variable {store : Store} {closes : Nat → Nat → Prop} {types : MessageType → Prop} {depth : Nat}
  {wire : WireType} {bytes : Bytes}

namespace FieldCodec

variable {codec : FieldCodec} {number : Nat}

theorem ensures_readNested_completes
    (frames : ∀ fewer, depth = fewer + 1 →
      Merger.Frames store closes types fewer (MessageOf.mergeAt fewer))
    (ends : closes number codec.number) (nested : codec.kind.isMessage = true)
    (accepts : codec.accepts wire = true) {target : Message} (known : types target.type) :
    Ensures store (codec.readNested (MessageOf.insideAt depth) wire target bytes) fun result =>
      ∀ rest, result.2 = .ok rest → Completes closes depth number wire bytes rest := by
  cases depth with
  | zero => exact ensures_pure (by simp)
  | succ fewer =>
      rw [MessageOf.insideAt, readNested]
      by_cases group : wire = .startGroup
      · subst group
        rw [if_pos rfl]
        apply (frames fewer rfl (some codec.number) target bytes known).mono
        intro result framed rest eq
        obtain ⟨records, stop, rfl, all, last⟩ := framed rest codec.number eq rfl
        exact completes_of_group all last ends
      · rw [if_neg group]
        -- messages that are no groups are delimited
        have delimited : wire = .lengthDelimited := by
          rw [accepts_iff] at accepts
          rcases accepts with rfl | ⟨-, -, eq⟩
          · cases kind : codec.kind <;> simp [kind, Kind.isMessage, Kind.wireType] at nested group ⊢
          · exact eq
        subst delimited
        cases taken : Payload.readDelimited bytes with
        | error fault => exact ensures_pure (by simp)
        | ok split =>
            obtain ⟨body, after⟩ := split
            apply (frames fewer rfl none target body known).bind
            rintro ⟨inner, outcome⟩ -
            apply ensures_pure
            intro rest eq
            cases outcome with
            | error error => simp [Except.map] at eq
            | ok _ =>
                simp only [Except.map, Except.ok.injEq] at eq
                exact eq ▸ completes_of_readDelimited taken

/-- A value ends where its record ends. -/
theorem ensures_read_completes
    (frames : ∀ fewer, depth = fewer + 1 →
      Merger.Frames store closes types fewer (MessageOf.mergeAt fewer))
    (ends : closes number codec.number) (accepts : codec.accepts wire = true)
    (known : ∀ valueType, codec.valueType = some valueType → types valueType)
    (slot : Option Value) :
    Ensures store (codec.read (MessageOf.insideAt depth) wire slot bytes) fun result =>
      ∀ rest, result.2 = .ok rest → Completes closes depth number wire bytes rest := by
  rw [read]
  cases nested : codec.kind.isMessage with
  | false =>
      rw [Bool.not_false, if_pos rfl]
      exact ensures_pure fun rest h => completes_of_readScalar accepts h
  | true =>
      rw [Bool.not_true, if_neg Bool.false_ne_true]
      cases value : codec.valueType with
      | none => exact ensures_pure (by simp)
      | some type =>
          have known' := known type value
          cases repeated : codec.arrangement.isRepeated with
          | true =>
              simp only [if_true]
              have new : types type.newMessage.type := known'
              refine (ensures_readNested_completes frames ends nested accepts new).bind ?_
              rintro ⟨inner, outcome⟩ completes
              apply ensures_pure
              intro rest eq
              cases outcome with
              | error error => simp [Except.mapError] at eq
              | ok after => exact completes rest eq
          | false =>
              simp only [Bool.false_eq_true, if_false]
              refine (ensures_readNested_completes frames ends nested accepts
                (by simpa using known')).bind ?_
              rintro ⟨inner, outcome⟩ completes
              exact ensures_pure completes

end FieldCodec

/-! ## Records -/

/-- Whether a record is read into a place of the message. In a message set this is so for the
items of its extensions. -/
def Catalog.takes (catalog : Catalog) (table : FieldTable) (inSet : Bool) (depth : Nat)
    (message : Message) (record : Bytes) : Bool :=
  match Tag.read record with
  | .error _ => false
  | .ok (number, wire, value) =>
      if inSet then
        number == MessageOf.itemNumber && wire == .startGroup &&
          match MessageOf.readItem depth value with
          | .ok (some (named, _), _) => (catalog.extension? message.type named).isSome
          | _ => false
      else (catalog.place? table message number wire).isSome

/-- A complete record. In a message set, items are records that read as items, with `depth` groups
open inside them at most. -/
def RecordIn (closes : Nat → Nat → Prop) (inSet : Bool) (depth : Nat) (record : Bytes) : Prop :=
  ∃ number wire value, Tag.read record = .ok (number, wire, value) ∧
    if inSet = true ∧ number = MessageOf.itemNumber ∧ wire = .startGroup then
      ∃ item, MessageOf.readItem depth value = .ok (item, [])
    else IsRecord closes depth record

theorem RecordIn.ne_nil {inSet : Bool} {record : Bytes} (h : RecordIn closes inSet depth record) :
    record ≠ [] := by
  obtain ⟨_, _, _, tag, -⟩ := h
  exact Tag.ne_nil_of_read tag

namespace MessageOf

/-- The messages are of one type and have the same places for what their fields do not hold. -/
structure Alike (message after : Message) : Prop where
  type : after.type = message.type
  extensions : after.extensions.isSome = message.extensions.isSome

theorem Alike.trans {message middle after : Message} (first : message.Alike middle)
    (second : middle.Alike after) : message.Alike after :=
  ⟨second.type.trans first.type, second.extensions.trans first.extensions⟩

/-- The bytes of the records that are not taken. -/
def untaken (takes : Bytes → Bool) (records : List Bytes) : Bytes :=
  (records.filter fun record => !takes record).flatten

theorem untaken_cons (takes : Bytes → Bool) (record : Bytes) (records : List Bytes) :
    untaken takes (record :: records) = untaken takes [record] ++ untaken takes records := by
  cases taken : takes record <;> simp [untaken, taken]

/-- A step that goes on has taken a complete record, and has kept it whole unless it was read into
its place. A step that ends has taken the end tag. -/
def Accounts (shape : Bytes → Prop) (takes : Bytes → Bool) (group : Option Nat) (message : Message)
    (bytes : Bytes) (result : Message × Step) : Prop :=
  match result.2 with
  | .next rest => ∃ record, bytes = record ++ rest ∧ shape record ∧ message.Alike result.1 ∧
      result.1.unknown = message.unknown.map (· ++ untaken takes [record])
  | .ended rest => ∃ number stop, group = some number ∧ bytes = stop ++ rest ∧
      Tag.read stop = .ok (number, .endGroup, []) ∧ result.1 = message
  | .failed _ => True

/-- What a run takes and keeps, given what each record does. -/
theorem ensures_mergeRecords_accounts {step : Message → Bytes → Coding (Message × Step)}
    {shape : Bytes → Prop} {takes : Bytes → Bool} {group : Option Nat} {origin : Message}
    (nonempty : ∀ record, shape record → record ≠ [])
    (each : ∀ message bytes, origin.Alike message →
      Ensures store (step message bytes) (Accounts shape takes group message bytes))
    {atEnd : Except Malformed Bytes} {limit : Nat} {message : Message}
    (enough : bytes.length ≤ limit) (alike : origin.Alike message) :
    Ensures store (mergeRecords step atEnd limit message bytes) fun result =>
      ∀ rest, result.2 = .ok rest → ∃ records : List Bytes, (∀ record ∈ records, shape record) ∧
        origin.Alike result.1 ∧
        result.1.unknown = message.unknown.map (· ++ untaken takes records) ∧
        (bytes = records.flatten ∧ atEnd = .ok rest ∨
          ∃ number stop, group = some number ∧ bytes = records.flatten ++ stop ++ rest ∧
            Tag.read stop = .ok (number, .endGroup, [])) := by
  induction limit generalizing message bytes with
  | zero =>
      obtain rfl : bytes = [] := List.eq_nil_of_length_eq_zero (by omega)
      refine ensures_pure fun rest eq => ⟨[], by simp, alike, ?_, .inl ⟨rfl, eq⟩⟩
      simp [untaken]
  | succ limit ih =>
      cases bytes with
      | nil =>
          refine ensures_pure fun rest eq => ⟨[], by simp, alike, ?_, .inl ⟨rfl, eq⟩⟩
          simp [untaken]
      | cons byte bytes =>
          rw [mergeRecords]
          apply (each message (byte :: bytes) alike).bind
          rintro ⟨middle, outcome⟩ account
          cases outcome with
          | failed error => exact ensures_pure (by simp)
          | ended after =>
              obtain ⟨number, stop, open', same, last, rfl⟩ := account
              apply ensures_pure
              rintro rest ⟨⟩
              refine ⟨[], by simp, alike, by simp [untaken], .inr ?_⟩
              exact ⟨number, stop, open', by simpa using same, last⟩
          | next after =>
              obtain ⟨record, same, complete, alike', kept⟩ := account
              -- a record is not empty, so less of the input is left
              have long := List.length_pos_iff.2 (nonempty record complete)
              have shorter : after.length ≤ limit := by
                have length := congrArg List.length same
                simp only [List.length_cons, List.length_append] at length enough
                omega
              apply (ih shorter (alike.trans alike')).mono
              intro result later rest eq
              obtain ⟨records, all, alike'', kept', ends⟩ := later rest eq
              refine ⟨record :: records, ?_, alike'', ?_, ?_⟩
              · rintro other (_ | ⟨_, mem⟩)
                · exact complete
                · exact all other mem
              · rw [kept', untaken_cons takes record records]
                simp only at kept
                rw [kept]
                cases message.unknown <;> simp
              · rw [same, List.flatten_cons]
                rcases ends with ⟨rfl, last⟩ | ⟨number, stop, open', rfl, last⟩
                · exact .inl ⟨rfl, last⟩
                · exact .inr ⟨number, stop, open', by simp, last⟩

variable {shape : Bytes → Prop} {takes : Bytes → Bool} {table : FieldTable} {group : Option Nat}
  {message : Message} {rest : Bytes} {number : Nat}

theorem untaken_of_taken {record : Bytes} (taken : takes record = true) :
    untaken takes [record] = [] := by
  simp [untaken, taken]

theorem untaken_of_untaken {record : Bytes} (left : takes record = false) :
    untaken takes [record] = record := by
  simp [untaken, left]

/-- Passing over a record that no place takes. -/
theorem accounts_mergeUnknown (tag : Tag.read bytes = .ok (number, wire, rest))
    (complete : ∀ record value, Tag.read record = .ok (number, wire, value) →
      IsRecord Eq depth record → shape record)
    (left : ∀ record value, Tag.read record = .ok (number, wire, value) → takes record = false) :
    Accounts shape takes group message bytes
      (mergeUnknown depth message bytes number wire rest) := by
  rw [mergeUnknown]
  cases skips : skipValue depth number wire rest with
  | error error => exact trivial
  | ok tail =>
      obtain ⟨record, value, rfl, tag', record'⟩ := (completes_of_skipValue skips).exists_record tag
      refine ⟨record, rfl, complete record value tag' record', ⟨rfl, rfl⟩, ?_⟩
      simp only [untaken_of_untaken (left record value tag'), Bytes.before_append]
      rfl

section

variable (sound : store.Sound) (framed : store.Frames closes types)
  (frames : ∀ fewer, depth = fewer + 1 →
    Merger.Frames store closes types fewer (mergeAt fewer))
  (known : types message.type)

include sound framed frames known

/-- A record that is read into a place ends where the value in the place ends. -/
theorem ensures_mergePlace_accounts (found : store.catalog.table message.type = .ok table)
    {place : Place} (placed : store.catalog.place? table message number wire = some place)
    (tag : Tag.read bytes = .ok (number, wire, rest))
    (complete : ∀ record value, Tag.read record = .ok (number, wire, value) →
      IsRecord closes depth record → shape record)
    (taken : ∀ record value, Tag.read record = .ok (number, wire, value) → takes record = true) :
    Ensures store (mergePlace (insideAt depth) place message wire rest)
      (Accounts shape takes group message bytes) := by
  obtain ⟨ends, accepts, values⟩ := framed.of_place? sound known found placed
  rw [mergePlace]
  refine (FieldCodec.ensures_read_completes frames ends accepts values _).bind ?_
  rintro ⟨slot, outcome⟩ completes
  cases outcome with
  | error error => exact ensures_pure trivial
  | ok tail =>
      obtain ⟨record, value, same, tag', record'⟩ := (completes tail rfl).exists_record tag
      refine ensures_pure ⟨record, same, complete record value tag' record', ⟨?_, ?_⟩, ?_⟩
      · exact place.type_leave message slot none
      · exact place.isSome_extensions_leave message slot none
      · rw [untaken_of_taken (taken record value tag')]
        simp only [List.append_nil, Option.map_id']
        exact place.unknown_leave message slot none

/-- What one record leads to in a message that is no message set. -/
theorem ensures_mergeRecord_accounts (found : store.catalog.table message.type = .ok table)
    (bytes : Bytes) :
    Ensures store (mergeRecord (insideAt depth) depth table group message bytes)
      (Accounts (RecordIn closes false depth) (store.catalog.takes table false depth message) group
        message bytes) := by
  have held := framed.held _ known
  cases tag : Tag.read bytes with
  | error fault =>
      rw [mergeRecord, tag]
      exact ensures_pure trivial
  | ok taken =>
      obtain ⟨number, wire, rest⟩ := taken
      by_cases stop : wire = .endGroup
      · subst stop
        rw [mergeRecord, tag]
        simp only
        split
        · next here =>
            obtain ⟨stop, -, same, reads⟩ := Tag.append_of_read tag
            have alone := reads []
            rw [List.append_nil] at alone
            exact ensures_pure ⟨number, stop, here, same, alone, rfl⟩
        · exact ensures_pure trivial
      · apply ensures_mergeRecord_placed sound held tag stop
        cases placed : store.catalog.place? table message number wire with
        | none =>
            refine ensures_pure (accounts_mergeUnknown tag ?_ ?_)
            · intro record value tag' complete
              refine ⟨number, wire, value, tag', ?_⟩
              rw [if_neg (by simp)]
              exact complete.mono (Nat.le_refl _) framed.of_eq
            · intro record value tag'
              simp [Catalog.takes, tag', placed]
        | some place =>
            apply ensures_mergePlace_accounts sound framed frames known found placed tag
            · intro record value tag' complete
              refine ⟨number, wire, value, tag', ?_⟩
              rwa [if_neg (by simp)]
            · intro record value tag'
              simp [Catalog.takes, tag', placed]

omit sound in
/-- Merging an item attaches a message to the extension, if it is one for messages. -/
theorem ensures_mergeItem_attaches {named : Nat} {extension : ExtensionType}
    (registered : store.catalog.extension? message.type named = some extension) (body : Bytes) :
    Ensures store (mergeItem (insideAt depth) extension message body) fun result =>
      result.1 = message ∨ extension.valueType.isSome = true ∧
        ∃ inner, result.1 = message.attach ⟨extension, .message inner⟩ := by
  rw [mergeItem]
  cases value : extension.valueType with
  | none => exact ensures_pure (.inl rfl)
  | some valueType =>
      have inner := framed.value _ known _ extension registered valueType value
      cases depth with
      | zero => exact ensures_pure (.inr ⟨rfl, _, rfl⟩)
      | succ fewer =>
          apply (frames fewer rfl none _ body (by simpa using inner)).bind
          rintro ⟨after, outcome⟩ -
          cases outcome <;> exact ensures_pure (.inr ⟨rfl, after, rfl⟩)

omit sound in
/-- Merging an item reads nothing outside the body of the item. -/
theorem ensures_mergeItem_alike {named : Nat} {extension : ExtensionType}
    (registered : store.catalog.extension? message.type named = some extension) (body : Bytes) :
    Ensures store (mergeItem (insideAt depth) extension message body) fun result =>
      message.Alike result.1 ∧ result.1.unknown = message.unknown := by
  apply (ensures_mergeItem_attaches framed frames known registered body).mono
  rintro ⟨after, failure⟩ (rfl | ⟨-, inner, rfl⟩)
  · exact ⟨⟨rfl, rfl⟩, rfl⟩
  · exact ⟨⟨rfl, by simp [attach]⟩, rfl⟩

/-- What one record leads to in a message set. -/
theorem ensures_mergeSetRecord_accounts (bytes : Bytes) :
    Ensures store (mergeSetRecord (insideAt depth) depth message bytes)
      (Accounts (RecordIn closes true depth) (store.catalog.takes table true depth message) group
        message bytes) := by
  cases tag : Tag.read bytes with
  | error fault =>
      rw [mergeSetRecord, tag]
      exact ensures_pure trivial
  | ok taken =>
      obtain ⟨number, wire, rest⟩ := taken
      by_cases isItem : number = itemNumber ∧ wire = .startGroup
      · obtain ⟨rfl, rfl⟩ := isItem
        rw [mergeSetRecord_item tag]
        cases reads : readItem depth rest with
        | error error => exact ensures_pure trivial
        | ok taken =>
            obtain ⟨item, tail⟩ := taken
            obtain ⟨record, value, rfl, tag', -⟩ :=
              (completes_of_readItem reads).exists_record tag
            -- the record is read alone as it is read in front of what follows it
            have reads' : readItem depth value = .ok (item, []) := by
              obtain ⟨front, same, alone⟩ := append_of_readItem reads
              have value' := Tag.read_append tag' tail
              rw [tag] at value'
              simp only [Except.ok.injEq, Prod.mk.injEq, true_and] at value'
              rw [value'] at same
              obtain rfl := List.append_cancel_right same
              have alone' := alone []
              rwa [List.append_nil] at alone'
            have shape : RecordIn closes true depth record := by
              refine ⟨_, _, value, tag', ?_⟩
              rw [if_pos ⟨rfl, rfl, rfl⟩]
              exact ⟨item, reads'⟩
            -- an item that names no extension is kept whole
            have kept : store.catalog.takes table true depth message record = false →
                Accounts (RecordIn closes true depth)
                  (store.catalog.takes table true depth message) group message (record ++ tail)
                  (message.keepUnknown ((record ++ tail).before tail), .next tail) := by
              intro left
              refine ⟨record, rfl, shape, ⟨rfl, rfl⟩, ?_⟩
              rw [untaken_of_untaken left, Bytes.before_append]
              rfl
            cases item with
            | none => exact ensures_pure (kept (by simp [Catalog.takes, tag', reads']))
            | some item =>
                obtain ⟨number, body⟩ := item
                apply (Coding.yields_findExtension sound message.type number).bind_ensures
                cases registered : store.catalog.extension? message.type number with
                | none =>
                    exact ensures_pure (kept (by simp [Catalog.takes, tag', reads', registered]))
                | some extension =>
                    have taken : store.catalog.takes table true depth message record = true := by
                      simp [Catalog.takes, tag', reads', registered]
                    apply (ensures_mergeItem_alike framed frames known registered body).bind
                    rintro ⟨after, failure⟩ ⟨alike, same⟩
                    cases failure with
                    | some error => exact ensures_pure trivial
                    | none =>
                        refine ensures_pure ⟨record, rfl, shape, alike, ?_⟩
                        rw [untaken_of_taken taken]
                        simpa using same
      · rw [mergeSetRecord_other tag isItem]
        refine ensures_pure (accounts_mergeUnknown tag ?_ ?_)
        · intro record value tag' complete
          refine ⟨number, wire, value, tag', ?_⟩
          rw [if_neg fun is => isItem is.2]
          exact complete.mono (Nat.le_refl _) framed.of_eq
        · intro record value tag'
          rw [Catalog.takes, tag']
          simpa using fun number wire => absurd ⟨number, wire⟩ isItem

end

/-! ## Messages -/

/-- What is taken depends on the type of the message and its place for extensions only. -/
theorem takes_congr {after : Message} (alike : message.Alike after) (inSet : Bool) :
    store.catalog.takes table inSet depth after =
      store.catalog.takes table inSet depth message := by
  funext record
  simp only [Catalog.takes, Catalog.place?, alike.type, alike.extensions]

/-- What merging takes and keeps. A message set has its own form unless it is framed as a group. -/
theorem ensures_mergeBody_accounts (sound : store.Sound) (framed : store.Frames closes types)
    (frames : ∀ fewer, depth = fewer + 1 →
      Merger.Frames store closes types fewer (mergeAt fewer))
    (known : types message.type) (found : store.catalog.table message.type = .ok table)
    (group : Option Nat) (bytes : Bytes) :
    Ensures store (mergeBody (insideAt depth) depth table group message bytes) fun result =>
      ∀ rest, result.2 = .ok rest → ∃ records : List Bytes,
        (∀ record ∈ records, RecordIn closes (group.isNone && table.isMessageSet) depth record) ∧
        result.1.unknown = message.unknown.map (· ++ untaken (store.catalog.takes table
          (group.isNone && table.isMessageSet) depth message) records) ∧
        (group = none ∧ bytes = records.flatten ∨
          ∃ number stop, group = some number ∧ bytes = records.flatten ++ stop ++ rest ∧
            Tag.read stop = .ok (number, .endGroup, [])) := by
  have start : message.Alike message.clearCachedSize := ⟨rfl, rfl⟩
  have regular : ∀ middle bytes, message.Alike middle →
      Ensures store (mergeRecord (insideAt depth) depth table group middle bytes)
        (Accounts (RecordIn closes false depth) (store.catalog.takes table false depth message)
          group middle bytes) := by
    intro middle bytes alike
    rw [← takes_congr alike]
    exact ensures_mergeRecord_accounts sound framed frames (alike.type ▸ known)
      (alike.type ▸ found) bytes
  simp only [mergeBody]
  cases group with
  | some number =>
      have nonempty : ∀ record, RecordIn closes false depth record → record ≠ [] :=
        fun _ => RecordIn.ne_nil
      apply (ensures_mergeRecords_accounts nonempty regular (Nat.le_refl _) start).mono
      intro result account rest eq
      obtain ⟨records, all, -, unknown, ends⟩ := account rest eq
      refine ⟨records, all, unknown, .inr ?_⟩
      -- the input does not end inside a group
      rcases ends with ⟨-, cutOff⟩ | ends
      · simp at cutOff
      · exact ends
  | none =>
      -- whether the message is a message set decides how each record is read, and nothing else
      have each : ∀ middle bytes, message.Alike middle →
          Ensures store
            ((if table.isMessageSet then mergeSetRecord (insideAt depth) depth
              else mergeRecord (insideAt depth) depth table none) middle bytes)
            (Accounts (RecordIn closes table.isMessageSet depth)
              (store.catalog.takes table table.isMessageSet depth message) none middle bytes) := by
        intro middle bytes alike
        cases table.isMessageSet with
        | false => exact regular middle bytes alike
        | true =>
            rw [if_pos rfl, ← takes_congr alike]
            exact ensures_mergeSetRecord_accounts sound framed frames (alike.type ▸ known) bytes
      have nonempty : ∀ record, RecordIn closes table.isMessageSet depth record → record ≠ [] :=
        fun _ => RecordIn.ne_nil
      apply (ensures_mergeRecords_accounts nonempty each (Nat.le_refl _) start).mono
      intro result account rest eq
      obtain ⟨records, all, -, unknown, ends⟩ := account rest eq
      exact ⟨records, all, unknown, ends.imp (fun ends => ⟨rfl, ends.1⟩) id⟩

/-- Merging into a nested message up to an end tag takes complete records. -/
theorem frames_mergeAt (sound : store.Sound) (framed : store.Frames closes types) (depth : Nat) :
    Merger.Frames store closes types depth (mergeAt depth) := by
  -- one level, if the levels inside take complete records
  have key : ∀ depth, (∀ fewer, depth = fewer + 1 →
      Merger.Frames store closes types fewer (mergeAt fewer)) →
        Merger.Frames store closes types depth (mergeAt depth) := by
    intro depth frames group target bytes known
    rw [mergeAt_eq, mergeInner]
    apply (Coding.yields_table sound (framed.held _ known)).bind_ensures
    cases found : store.catalog.table target.type with
    | error error => exact ensures_pure (by simp)
    | ok table =>
        apply (ensures_mergeBody_accounts sound framed frames known found group bytes).mono
        rintro result account rest number eq rfl
        obtain ⟨records, all, -, ends⟩ := account rest eq
        rcases ends with ⟨none, -⟩ | ⟨_, stop, ⟨⟩, same, last⟩
        · simp at none
        · refine ⟨records, stop, same, fun record mem => ?_, last⟩
          obtain ⟨_, _, _, -, complete⟩ := all record mem
          rwa [if_neg (by simp)] at complete
  induction depth with
  | zero => exact key 0 (by simp)
  | succ depth ih =>
      apply key (depth + 1)
      rintro fewer ⟨⟩
      exact ih

end MessageOf

/-- What merging input into a message takes and keeps. -/
theorem MessageType.ensures_merge_accounts (sound : store.Sound)
    (framed : store.Frames closes types) {message : Message} (known : types message.type)
    (bytes : Bytes) :
    Ensures store (message.type.merge message bytes) fun result => result.2 = none →
      ∃ (table : FieldTable) (records : List Bytes), store.catalog.table message.type = .ok table ∧
        bytes = records.flatten ∧
        (∀ record ∈ records, RecordIn closes table.isMessageSet maxNesting record) ∧
        result.1.unknown = message.unknown.map (· ++ MessageOf.untaken (store.catalog.takes table
          table.isMessageSet maxNesting message) records) := by
  rw [merge, if_neg (not_not_intro rfl)]
  apply (Coding.yields_table sound (framed.held _ known)).bind_ensures
  cases found : store.catalog.table message.type with
  | error error => exact ensures_pure (by simp)
  | ok table =>
      have frames : ∀ fewer, maxNesting = fewer + 1 →
          Merger.Frames store closes types fewer (MessageOf.mergeAt fewer) :=
        fun fewer _ => MessageOf.frames_mergeAt sound framed fewer
      refine (MessageOf.ensures_mergeBody_accounts sound framed frames known found none
        bytes).bind ?_
      rintro ⟨after, outcome⟩ account
      cases outcome with
      | error error => exact ensures_pure (by simp)
      | ok rest =>
          obtain ⟨records, all, unknown, ends⟩ := account rest rfl
          rcases ends with ⟨-, same⟩ | ⟨_, _, ⟨⟩, -⟩
          exact ensures_pure fun _ => ⟨table, records, rfl, same, all, unknown⟩

end

end ProtoWire
