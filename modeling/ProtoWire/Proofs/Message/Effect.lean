import ProtoWire.Proofs.Message.Fronts
import ProtoWire.Proofs.Message.Throughout

/-!
# What merging can do to a message

Whatever the input, merging changes a message in few ways: it keeps a record among the unknown
bytes, it reads a record into a field or an extension, or it refuses one. The relation
`MessageOf.Merges` lists them, for merges that succeed and for merges that fail, and every merge
is one of its cases (`coupled_mergeBody`, `carriedOutBy_mergeAt`). A property that survives the
listed changes survives every merge.
-/

set_option autoImplicit false

namespace ProtoWire

open Coding (Advances Coupled TakesGroups coupled_pure)

/-! ## Values in places -/

namespace Place

/-- A value that was not there before is found in the place. -/
theorem mem_values_put {place : Place} {message : Message} {slot : Option Value} {value : Value}
    (h : value ∈ (place.put message slot).values) :
    value ∈ message.values ∨
      slot = some value ∧ place.held? (place.put message slot) = some value := by
  cases place with
  | field entry =>
      rcases MessageOf.mem_values_iff.1 h with ⟨other, held⟩ | attached
      · by_cases here : other = entry.position ∧ entry.position < message.slots.length
        · have stored := MessageOf.slot?_putSlot_self message here.2 slot
          rw [here.1] at held
          exact .inr ⟨stored.symm.trans held, held⟩
        · have before := MessageOf.slot?_putSlot message entry.position other slot
          rw [if_neg here] at before
          exact .inl (MessageOf.mem_values_of_slot? (before.symm.trans held))
      · exact .inl (MessageOf.mem_values_iff.2 (.inr attached))
  | extension type codec =>
      cases slot with
      | none => exact .inl h
      | some new =>
          rcases MessageOf.mem_values_iff.1 h with ⟨other, held⟩ | ⟨entry, mem, rfl⟩
          · exact .inl (MessageOf.mem_values_of_slot? held)
          · rcases MessageOf.mem_attached_attach mem with rfl | before
            · -- there is a place for extensions, since one is attached now
              have place : message.extensions.isSome = true := by
                cases place : message.extensions with
                | none => simp [put, MessageOf.attached, MessageOf.attach, place] at mem
                | some entries => rfl
              have found := MessageOf.extension?_attach message ⟨type, new⟩ place type.number
              rw [if_pos rfl] at found
              exact .inr ⟨rfl, congrArg (Option.map AttachedOf.value) found⟩
            · exact .inl (MessageOf.mem_values_of_attached before)

/-- Settling a field does not unset the field itself. -/
theorem held?_settle (place : Place) (message : Message) :
    place.held? (place.settle message) = place.held? message := by
  cases place with
  | field entry =>
      rw [held?, settle, MessageOf.slot?_clearSiblings, MessageType.areSiblings_self]
      rfl
  | extension => rfl

/-- The values that reading leaves are those of before, and the one that was read. -/
theorem mem_values_leave {place : Place} {message : Message} {slot : Option Value}
    {failure : Option Malformed} {value : Value}
    (h : value ∈ (place.leave message slot failure).values) :
    value ∈ message.values ∨
      slot = some value ∧ place.held? (place.leave message slot failure) = some value := by
  cases failure with
  | some error => exact mem_values_put h
  | none =>
      rw [leave, held?_settle]
      apply mem_values_put
      cases place with
      | field entry => exact MessageOf.mem_values_clearSiblings h
      | extension => exact h

theorem attached_leave_field (entry : FieldEntry) (message : Message) (slot : Option Value)
    (failure : Option Malformed) :
    (Place.leave (.field entry) message slot failure).attached = message.attached := by
  cases failure <;> simp [leave, settle, put, MessageOf.putSlot, MessageOf.attached]

/-- Reading an extension attaches it if there is anything to attach. -/
theorem leave_extension (type : ExtensionType) (codec : FieldCodec) (message : Message)
    (slot : Option Value) (failure : Option Malformed) :
    Place.leave (.extension type codec) message slot failure =
      match slot with
      | some value => message.attach ⟨type, value⟩
      | none => message := by
  cases failure <;> cases slot <;> rfl

/-- An extension that was not attached before is the one of the place. -/
theorem mem_attached_leave {place : Place} {message : Message} {slot : Option Value}
    {failure : Option Malformed} {entry : Attached}
    (h : entry ∈ (place.leave message slot failure).attached) :
    entry ∈ message.attached ∨ ∃ codec, place = .extension entry.type codec := by
  cases place with
  | field field =>
      rw [attached_leave_field] at h
      exact .inl h
  | extension type codec =>
      rw [leave_extension] at h
      cases slot with
      | none => exact .inl h
      | some value =>
          rcases MessageOf.mem_attached_attach h with rfl | before
          · exact .inr ⟨codec, rfl⟩
          · exact .inl before

theorem throughout_of_held? {P : Message → Prop} {place : Place} {message : Message} {value : Value}
    (h : message.Throughout P) (held : place.held? message = some value) : value.Throughout P := by
  cases place with
  | field entry => exact h.of_slot? held
  | extension type codec =>
      obtain ⟨entry, found, rfl⟩ := Option.map_eq_some_iff.1 held
      exact h.of_attached (List.mem_of_find?_eq_some found)

end Place

/-! ## Effects -/

/-- The error of an outcome, if it is a failure. -/
def failure? : Except Malformed Bytes → Option Malformed
  | .error error => some error
  | .ok _ => none

/-- The error of a step, if it is a failure. -/
def Step.failure? : Step → Option Malformed
  | .failed error => some error
  | _ => none

/-- A relation between a message that is merged into, the message that is left, and the error if
the merge failed. -/
abbrev Effect :=
  Message → Message → Option Malformed → Prop

/-- What reading one record leaves in a place, given what merging does to the messages in it. -/
inductive FieldCodec.Reads (nested : Effect) (codec : FieldCodec) (slot : Option Value) :
    Option Value → Option Malformed → Prop
  | scalar {value : Value} : codec.kind.isMessage = false → value.messages = [] →
      Reads nested codec slot (some value) none
  | refused {error : Malformed} : codec.kind.isMessage = false → error.fault.OfBytes →
      Reads nested codec slot slot (some error)
  | scalars {values : List Value} {failure : Option Malformed} :
      codec.arrangement.isRepeated = true → (∀ value ∈ values, value.messages = []) →
      (∀ error, failure = some error → error.fault.OfBytes) →
      Reads nested codec slot (some (.list ((slot.map Value.items).getD [] ++ values))) failure
  | single {type : MessageType} {inner : Message} {failure : Option Malformed} :
      codec.valueType = some type → nested (startingMessage type slot) inner failure →
      Reads nested codec slot (some (.message inner)) failure
  | item {type : MessageType} {inner : Message} {inside failure : Option Malformed} :
      codec.arrangement.isRepeated = true → codec.valueType = some type →
      nested type.newMessage inner inside →
      failure = inside.map (·.under (.index ((slot.map Value.items).getD []).length)) →
      Reads nested codec slot
        (some (.list ((slot.map Value.items).getD [] ++ [.message inner]))) failure

/-- A property holds throughout what was read if it held throughout what was there, and merging
into the messages inside keeps it. What is known of the message that was merged into may depend on
how the merge ended. -/
theorem FieldCodec.Reads.throughout {P : Message → Prop}
    {knows : Message → Option Malformed → Prop} {nested : Effect} {codec : FieldCodec}
    {slot result : Option Value} {failure : Option Malformed}
    (reads : codec.Reads nested slot result failure)
    (inside : ∀ message after failure, nested message after failure → message.Throughout P →
      knows after failure → after.Throughout P)
    (new : ∀ type : MessageType, P type.newMessage)
    (old : ∀ value, slot = some value → value.Throughout P)
    (single : ∀ inner, result = some (.message inner) → knows inner failure)
    (item : ∀ items inner inside, result = some (.list (items ++ [.message inner])) →
      failure = inside.map (·.under (.index items.length)) → knows inner inside) :
    ∀ value, result = some value → value.Throughout P := by
  have items : ∀ item ∈ (slot.map Value.items).getD [], item.Throughout P := by
    intro item mem
    cases slot with
    | none => simp at mem
    | some value => exact Value.throughout_items (old value rfl) mem
  intro value eq
  cases reads with
  | scalar _ plain =>
      cases eq
      exact Value.throughout_of_plain plain
  | refused => exact old value eq
  | scalars _ plain =>
      cases eq
      refine Value.throughout_list.2 fun item mem => ?_
      rcases List.mem_append.1 mem with before | added
      · exact items item before
      · exact Value.throughout_of_plain (plain item added)
  | single _ effect =>
      cases eq
      have start := MessageOf.throughout_startingMessage old new
      exact Value.throughout_message.2 (inside _ _ _ effect (start _) (single _ rfl))
  | @item type _ _ _ _ _ effect failed =>
      cases eq
      refine Value.throughout_list.2 fun other mem => ?_
      rcases List.mem_append.1 mem with before | added
      · exact items other before
      · rw [List.mem_singleton.1 added]
        have start := MessageOf.throughout_newMessage (new type)
        exact Value.throughout_message.2 (inside _ _ _ effect start (item _ _ _ rfl failed))

/-- The places that messages of a type have for records. The declared ranges limit the numbers of
extensions, except those of items that message sets are read from. -/
inductive Coupling.Offers (coupling : Coupling) (type : MessageType) : Place → Prop
  | field {registry : Registry} {table : FieldTable} {entry : FieldEntry} :
      registry.Builds type table → entry ∈ table.entries → Offers coupling type (.field entry)
  | extension {extension : ExtensionType} {codec : FieldCodec} :
      coupling.extensions type extension → extension.extendee = type.fullName →
      (type.descriptor.isExtensionNumber extension.number = true ∨
        type.descriptor.messageSet = true ∧ ∃ record body, coupling.reads record ∧
          MessageOf.IsItem extension.number body record) →
      type.descriptor.position? extension.number = none → codec.Legal →
      Offers coupling type (.extension extension codec)

/-- What merging can do to a message, given what it can do to the messages inside. -/
inductive MessageOf.Merges (coupling : Coupling) (nested : Effect) : Effect
  | refl (message : Message) : Merges coupling nested message message none
  | trans {message middle after : Message} {failure : Option Malformed} :
      Merges coupling nested message middle none → Merges coupling nested middle after failure →
      Merges coupling nested message after failure
  | clearCachedSize (message : Message) :
      Merges coupling nested message message.clearCachedSize none
  | keepUnknown (message : Message) (bytes : Bytes) :
      Merges coupling nested message (message.keepUnknown bytes) none
  /-- A record is not read at all, and the message stays as it is. -/
  | refuse (message : Message) {error : Malformed} :
      (error.fault.OfBytes ∨ coupling.mayLack) →
      Merges coupling nested message message (some error)
  | read {message : Message} {place : Place} {slot : Option Value} {failure : Option Malformed} :
      coupling.Offers message.type place →
      place.codec.Reads nested (place.held? message) slot failure →
      Merges coupling nested message (place.leave message slot failure)
        (failure.map (·.under (.field place.number)))

/-- New messages have the property, and no change that merging makes to a message itself takes the
property from it. -/
structure Coupling.Preserves (coupling : Coupling) (P : Message → Prop) : Prop where
  new : ∀ type : MessageType, P type.newMessage
  clearCachedSize : ∀ message : Message, P message → P message.clearCachedSize
  keepUnknown : ∀ (message : Message) (bytes : Bytes), P message → P (message.keepUnknown bytes)
  leave : ∀ (message : Message) (place : Place) (slot : Option Value) (failure : Option Malformed),
    coupling.Offers message.type place → P message → P (place.leave message slot failure)

/-- Merging attaches only extensions that may be asked for. -/
theorem Coupling.preserves_extensions (coupling : Coupling) :
    coupling.Preserves fun message =>
      ∀ entry ∈ message.attached, coupling.extensions message.type entry.type := by
  refine ⟨fun type => ?_, fun _ carried => carried, fun _ _ carried => carried, ?_⟩
  · rw [MessageType.attached_newMessage]
    simp
  · intro message place slot failure offered carried entry mem
    rw [Place.type_leave]
    rcases Place.mem_attached_leave mem with before | ⟨codec, rfl⟩
    · exact carried entry before
    · cases offered
      assumption

namespace MessageOf

variable {coupling : Coupling} {nested : Effect} {message after : Message}
  {failure : Option Malformed}

theorem Merges.type (h : Merges coupling nested message after failure) :
    after.type = message.type := by
  induction h with
  | trans _ _ ih ih' => exact ih'.trans ih
  | read => exact Place.type_leave _ _ _ _
  | _ => rfl

/-- A cache that was emptied before is not filled. -/
theorem Merges.cache (h : Merges coupling nested message after failure)
    (cleared : message.cache.clear = message.cache) : after.cache = message.cache := by
  induction h with
  | trans _ _ ih ih' =>
      have same := ih cleared
      rw [ih' (by rw [same, cleared]), same]
  | clearCachedSize => exact cleared
  | read => exact Place.cache_leave _ _ _ _
  | _ => rfl

/-- What the changes of single messages preserve holds throughout a message that was merged into,
if the merges inside keep it. -/
theorem Merges.throughout {P : Message → Prop} (preserves : coupling.Preserves P)
    (inside : ∀ message after failure, nested message after failure →
      message.Throughout P → after.Throughout P)
    (h : Merges coupling nested message after failure) (start : message.Throughout P) :
    after.Throughout P := by
  induction h with
  | refl | refuse => exact start
  | trans _ _ ih ih' => exact ih' (ih start)
  | clearCachedSize message =>
      exact start.change (preserves.clearCachedSize message start.here) fun _ mem => .inr mem
  | keepUnknown message bytes =>
      exact start.change (preserves.keepUnknown message bytes start.here) fun _ mem => .inr mem
  | @read message place slot failure offered reads =>
      apply start.change (preserves.leave message place slot failure offered start.here)
      intro value mem
      rcases Place.mem_values_leave mem with before | ⟨eq, -⟩
      · exact .inr before
      · left
        have nested' : ∀ message after failure, nested message after failure →
            message.Throughout P → True → after.Throughout P :=
          fun message after failure effect start _ => inside message after failure effect start
        exact reads.throughout nested' preserves.new
          (fun value held => Place.throughout_of_held? start held) (fun _ _ => trivial)
          (fun _ _ _ _ _ => trivial) value eq

end MessageOf

/-! ## Every merge is one of the cases -/

/-- The merger of nested messages, if there is one, has the given effect, and so has refusing to
read them. -/
structure Effect.CarriedOutBy (nested : Effect) (coupling : Coupling) (inside : Option Merger) :
    Prop where
  groups : TakesGroups inside
  refuse : ∀ message fault, fault.OfBytes → nested message message (some (.here fault))
  merge : ∀ merge, inside = some merge → ∀ group message bytes, coupling.types message.type →
    coupling.reads bytes →
      Coupled coupling.linked (merge group message bytes) (merge group message bytes) fun result =>
        nested message result.1 (failure? result.2)

namespace FieldCodec

variable {coupling : Coupling} {nested : Effect} {inside : Option Merger} {codec : FieldCodec}
  {wire : WireType} {bytes : Bytes}

theorem coupled_readNested (carried : nested.CarriedOutBy coupling inside) {message : Message}
    (type : coupling.types message.type) (input : coupling.reads bytes) :
    Coupled coupling.linked (codec.readNested inside wire message bytes)
      (codec.readNested inside wire message bytes) fun result =>
        nested message result.1 (failure? result.2) := by
  cases inside with
  | none => exact coupled_pure (carried.refuse message .tooDeep (by simp [InputFault.OfBytes]))
  | some merge =>
      rw [readNested]
      by_cases group : wire = .startGroup
      · rw [if_pos group]
        exact carried.merge merge rfl _ message bytes type input
      · rw [if_neg group]
        cases taken : Payload.readDelimited bytes with
        | error fault =>
            exact coupled_pure (carried.refuse message fault
              (Payload.ofBytes_of_readDelimited taken))
        | ok split =>
            obtain ⟨body, rest⟩ := split
            have part := coupling.reads_part _ _ input (Payload.infix_of_readDelimited taken)
            apply (carried.merge merge rfl none message body type part).bind
            rintro ⟨after, outcome⟩ effect
            apply coupled_pure
            cases outcome <;> exact effect

/-- The values that are added to those of a repeated field are scalars. -/
theorem readItems_eq (codec : FieldCodec) (wire : WireType) (items : List Value) (bytes : Bytes) :
    ∃ values, (codec.readItems wire items bytes).1 = items ++ values ∧
      (∀ value ∈ values, value.messages = []) ∧
      ∀ error, failure? (codec.readItems wire items bytes).2 = some error →
        error.fault.OfBytes := by
  rw [readItems]
  split
  · split
    · next taken =>
        refine ⟨[], by simp, by simp, ?_⟩
        rintro error ⟨⟩
        exact Payload.ofBytes_of_readDelimited taken
    · next body rest taken =>
        cases read : readPacked codec.kind items.length body.length body with
        | mk values failure =>
            have plain : ∀ value ∈ values, value.messages = [] := by
              intro value mem
              exact plain_of_payload? (isSome_payload?_of_readPacked read value mem)
            cases failure with
            | none => exact ⟨values, rfl, plain, by simp [failure?]⟩
            | some error =>
                refine ⟨values, rfl, plain, ?_⟩
                rintro _ ⟨⟩
                exact ofBytes_of_readPacked read
  · split
    · next taken =>
        refine ⟨[], by simp, by simp, ?_⟩
        rintro error ⟨⟩
        exact Kind.ofBytes_of_read taken
    · next value rest taken =>
        refine ⟨[value], rfl, ?_, by simp [failure?]⟩
        simpa using plain_of_payload? (Kind.isSome_payload?_of_read taken)

theorem reads_readScalar (scalar : codec.kind.isMessage = false) (slot : Option Value) :
    codec.Reads nested slot (codec.readScalar wire slot bytes).1
      (failure? (codec.readScalar wire slot bytes).2) := by
  rw [readScalar]
  split
  · next repeated =>
      obtain ⟨values, eq, plain, faults⟩ :=
        readItems_eq codec wire ((slot.map Value.items).getD []) bytes
      simp only [eq]
      exact .scalars repeated plain faults
  · split
    · next taken => exact .refused scalar (Kind.ofBytes_of_read taken)
    · next taken => exact .scalar scalar (plain_of_payload? (Kind.isSome_payload?_of_read taken))

theorem coupled_read (carried : nested.CarriedOutBy coupling inside) (legal : codec.Legal)
    (types : ∀ type, codec.valueType = some type → coupling.types type)
    (input : coupling.reads bytes) (slot : Option Value) :
    Coupled coupling.linked (codec.read inside wire slot bytes)
      (codec.read inside wire slot bytes) fun result =>
        codec.Reads nested slot result.1 (failure? result.2) := by
  rw [read]
  cases scalar : codec.kind.isMessage with
  | false =>
      rw [Bool.not_false, if_pos rfl]
      exact coupled_pure (reads_readScalar scalar slot)
  | true =>
      rw [Bool.not_true, if_neg Bool.false_ne_true]
      cases value : codec.valueType with
      | none =>
          -- a message field has a type for its values
          have some := legal.value
          simp [value, scalar] at some
      | some type =>
          have admitted := types type value
          cases repeated : codec.arrangement.isRepeated with
          | true =>
              simp only [if_true]
              have new : coupling.types type.newMessage.type := admitted
              apply (coupled_readNested carried new input).bind
              rintro ⟨inner, outcome⟩ effect
              apply coupled_pure
              cases outcome <;> exact .item repeated value effect rfl
          | false =>
              simp only [Bool.false_eq_true, if_false]
              have there : coupling.types (startingMessage type slot).type := by
                simpa using admitted
              apply (coupled_readNested carried there input).bind
              rintro ⟨inner, outcome⟩ effect
              exact coupled_pure (.single value effect)

end FieldCodec

namespace MessageOf

variable {coupling : Coupling} {nested : Effect} {inside : Option Merger} {depth : Nat}
  {table : FieldTable} {message : Message} {wire : WireType} {bytes rest : Bytes}

theorem coupled_mergePlace (carried : nested.CarriedOutBy coupling inside) {place : Place}
    (offered : coupling.Offers message.type place) (legal : place.codec.Legal)
    (types : ∀ type, place.codec.valueType = some type → coupling.types type)
    (input : coupling.reads rest) :
    Coupled coupling.linked (mergePlace inside place message wire rest)
      (mergePlace inside place message wire rest) fun result =>
        Merges coupling nested message result.1 result.2.failure? := by
  rw [mergePlace]
  apply (FieldCodec.coupled_read carried legal types input _).bind
  rintro ⟨slot, outcome⟩ reads
  cases outcome <;> exact coupled_pure (.read offered reads)

theorem merges_mergeUnknown (depth number : Nat) (message : Message) (bytes : Bytes)
    (wire : WireType) (rest : Bytes) :
    Merges coupling nested message (mergeUnknown depth message bytes number wire rest).1
      (mergeUnknown depth message bytes number wire rest).2.failure? := by
  rw [mergeUnknown]
  split
  · next skipped => exact .refuse message (.inl (ofBytes_of_skipValue skipped))
  · exact .keepUnknown message _

/-- What a run leaves of a message, given what each record does. -/
theorem coupled_mergeRecords {step : Message → Bytes → Coding (Message × Step)} {type : MessageType}
    (each : ∀ message bytes, message.type = type → coupling.reads bytes →
      Coupled coupling.linked (step message bytes) (step message bytes) fun result =>
        Merges coupling nested message result.1 result.2.failure?)
    (advances : ∀ message, Advances (step message)) {atEnd : Except Malformed Bytes}
    (ends : ∀ error, failure? atEnd = some error → error.fault.OfBytes) {limit : Nat}
    {message : Message} {bytes : Bytes} (same : message.type = type)
    (input : coupling.reads bytes) :
    Coupled coupling.linked (mergeRecords step atEnd limit message bytes)
      (mergeRecords step atEnd limit message bytes) fun result =>
        Merges coupling nested message result.1 (failure? result.2) := by
  have last : ∀ message : Message, Merges coupling nested message message (failure? atEnd) := by
    intro message
    cases atEnd with
    | ok rest => exact .refl message
    | error error => exact .refuse message (.inl (ends error rfl))
  induction limit generalizing message bytes with
  | zero => cases bytes <;> exact coupled_pure (last message)
  | succ limit ih =>
      cases bytes with
      | nil => exact coupled_pure (last message)
      | cons byte bytes =>
          rw [mergeRecords]
          -- the records that follow are part of the input
          have each' : Coupled coupling.linked (step message (byte :: bytes))
              (step message (byte :: bytes)) fun result =>
                Merges coupling nested message result.1 result.2.failure? ∧
                  ∀ rest, result.2.rest? = some rest → coupling.reads rest :=
            (each message (byte :: bytes) same input).and_run fun store rest left =>
              coupling.reads_part _ _ input ((advances message).suffix rfl left).isInfix
          apply each'.bind
          rintro ⟨middle, outcome⟩ ⟨effect, part⟩
          cases outcome with
          | failed error => exact coupled_pure effect
          | ended rest => exact coupled_pure effect
          | next rest =>
              exact (ih (effect.type.trans same) (part rest rfl)).mono
                fun _ later => .trans effect later

/-! ### Records -/

theorem coupled_extensionFor (lawful : coupling.LawfulReading) (type : coupling.types message.type)
    (number : Nat) :
    Coupled coupling.linked (extensionFor message number) (extensionFor message number)
      fun found => ∀ extension, found = some extension →
        coupling.extensions message.type extension ∧
          extension.extendee = message.type.fullName ∧ extension.number = number ∧
            message.type.descriptor.isExtensionNumber number = true := by
  rw [extensionFor]
  split
  · exact coupled_pure (by simp)
  · next offered =>
      rw [Bool.or_eq_true, not_or] at offered
      apply (lawful.find message.type number type).mono
      intro found known extension eq
      obtain ⟨admitted, extendee, same⟩ := known extension eq
      exact ⟨admitted, extendee, same, by simpa using offered.2⟩

theorem coupled_mergeRecord (lawful : coupling.LawfulReading)
    (carried : nested.CarriedOutBy coupling inside)
    {registry : Registry} (builds : registry.Builds message.type table)
    (types : ∀ entry ∈ table.entries, ∀ type, entry.codec.valueType = some type →
      coupling.types type)
    (type : coupling.types message.type) (group : Option Nat) (input : coupling.reads bytes) :
    Coupled coupling.linked (mergeRecord inside depth table group message bytes)
      (mergeRecord inside depth table group message bytes) fun result =>
        Merges coupling nested message result.1 result.2.failure? := by
  cases tag : Tag.read bytes with
  | error fault =>
      rw [mergeRecord, tag]
      exact coupled_pure (.refuse message (.inl (Tag.ofBytes_of_read tag)))
  | ok taken =>
      obtain ⟨number, wire, rest⟩ := taken
      have part : coupling.reads rest := by
        obtain ⟨head, -, rfl, -⟩ := Tag.append_of_read tag
        exact coupling.reads_part _ _ input (List.suffix_append head rest).isInfix
      by_cases stop : wire = .endGroup
      -- an end tag stops the merge, or is out of place
      · subst stop
        rw [mergeRecord, tag]
        simp only
        split
        · exact coupled_pure (.refl message)
        · refine coupled_pure (.refuse message (.inl ?_))
          simp [InputFault.OfBytes, Malformed.here, Malformed.under]
      · rw [mergeRecord_eq tag stop]
        cases declared : table.entry? number with
        | some entry =>
            obtain ⟨listed, -⟩ := builds.entry?_eq_some_iff.1 declared
            simp only
            split
            · have offered : coupling.Offers message.type (.field entry) := .field builds listed
              rw [mergeField_eq]
              exact coupled_mergePlace carried offered (builds.legal_of_mem listed)
                (types entry listed) part
            · exact coupled_pure (merges_mergeUnknown _ _ _ _ _ _)
        | none =>
            simp only
            apply (coupled_extensionFor lawful type number).bind
            rintro found known
            cases found with
            | none => exact coupled_pure (merges_mergeUnknown _ _ _ _ _ _)
            | some extension =>
                obtain ⟨admitted, extendee, rfl, inRange⟩ := known extension rfl
                apply (lawful.codec message.type extension type admitted).bind
                rintro codec ⟨legal, values⟩
                split
                · have offered : coupling.Offers message.type (.extension extension codec) :=
                    .extension admitted extendee (.inl inRange) (builds.position?_eq_none declared)
                      legal
                  rw [mergeExtension_eq]
                  exact coupled_mergePlace carried offered legal values part
                · exact coupled_pure (merges_mergeUnknown _ _ _ _ _ _)

/-- An item is read into its extension as a record of a field of one message would be. -/
theorem coupled_mergeItem (lawful : coupling.LawfulReading)
    (carried : nested.CarriedOutBy coupling inside) {extension : ExtensionType}
    (admitted : coupling.extensions message.type extension)
    (extendee : extension.extendee = message.type.fullName)
    (isSet : message.type.descriptor.messageSet = true)
    (undeclared : message.type.descriptor.position? extension.number = none)
    {record body : Bytes} (input : coupling.reads record) (part : body <:+: record)
    (item : IsItem extension.number body record) :
    Coupled coupling.linked (mergeItem inside extension message body)
      (mergeItem inside extension message body) fun result =>
        Merges coupling nested message result.1 result.2 := by
  obtain ⟨legal, values⟩ := lawful.own message.type extension admitted
  have offered : coupling.Offers message.type (.extension extension extension.codec) :=
    .extension admitted extendee (.inr ⟨isSet, record, body, input, item⟩) undeclared legal
  rw [mergeItem]
  cases value : extension.valueType with
  | none =>
      refine coupled_pure (.refuse message (.inl ?_))
      simp [InputFault.OfBytes, Malformed.here, Malformed.under]
  | some type =>
      cases inside with
      | none => exact coupled_pure (.read offered (.single value (carried.refuse _ .tooDeep
          (by simp [InputFault.OfBytes]))))
      | some merge =>
          simp only
          have part' := coupling.reads_part _ _ input part
          apply (carried.merge merge rfl none _ body (by simpa using values type value) part').bind
          rintro ⟨inner, outcome⟩ effect
          cases outcome <;> exact coupled_pure (.read offered (.single value effect))

theorem coupled_mergeSetRecord (lawful : coupling.LawfulReading)
    (carried : nested.CarriedOutBy coupling inside) (type : coupling.types message.type)
    (isSet : message.type.descriptor.messageSet = true) (fields : message.type.fields = [])
    (input : coupling.reads bytes) :
    Coupled coupling.linked (mergeSetRecord inside depth message bytes)
      (mergeSetRecord inside depth message bytes) fun result =>
        Merges coupling nested message result.1 result.2.failure? := by
  rw [mergeSetRecord]
  split
  · next tag => exact coupled_pure (.refuse message (.inl (Tag.ofBytes_of_read tag)))
  · next tag =>
    split
    · next item => exact coupled_pure (.refuse message (.inl (ofBytes_of_readItem item)))
    · exact coupled_pure (.keepUnknown message _)
    · next number body rest taken =>
        obtain ⟨record, inner, part, item⟩ := exists_isItem_of_readItem tag taken
        have input' := coupling.reads_part _ _ input inner
        apply (lawful.find message.type number type).bind
        rintro found known
        cases found with
        | none => exact coupled_pure (.keepUnknown message _)
        | some extension =>
            obtain ⟨admitted, extendee, rfl⟩ := known extension rfl
            -- a message set declares no fields
            have undeclared : message.type.descriptor.position? extension.number = none :=
              Registry.position?_eq_none_iff.2 fun field mem => by
                rw [MessageType.fields] at fields
                rw [fields] at mem
                simp at mem
            apply (coupled_mergeItem lawful carried admitted extendee isSet undeclared input' part
              item).bind
            rintro ⟨after, failure⟩ effect
            cases failure <;> exact coupled_pure effect
  · exact coupled_pure (merges_mergeUnknown _ _ _ _ _ _)

/-! ### Messages -/

/-- Merging records into a message empties its cache, and is one of the cases from there on,
whichever form the records have. -/
theorem coupled_mergeBody_emptied (lawful : coupling.LawfulReading)
    (carried : nested.CarriedOutBy coupling inside)
    {registry : Registry} (builds : registry.Builds message.type table)
    (types : ∀ entry ∈ table.entries, ∀ type, entry.codec.valueType = some type →
      coupling.types type)
    (type : coupling.types message.type) (group : Option Nat) (input : coupling.reads bytes) :
    Coupled coupling.linked (mergeBody inside depth table group message bytes)
      (mergeBody inside depth table group message bytes) fun result =>
        Merges coupling nested message.clearCachedSize result.1 (failure? result.2) := by
  have record : ∀ (group : Option Nat) (middle : Message) (bytes : Bytes),
      middle.type = message.type → coupling.reads bytes →
        Coupled coupling.linked (mergeRecord inside depth table group middle bytes)
          (mergeRecord inside depth table group middle bytes) fun result =>
            Merges coupling nested middle result.1 result.2.failure? := by
    intro group middle bytes same input
    rw [← same] at builds type
    exact coupled_mergeRecord lawful carried builds types type group input
  have toEnd : ∀ error, failure? (.ok []) = some error → error.fault.OfBytes := by
    simp [failure?]
  cases group with
  | some number =>
      have cutOff : ∀ error, failure? (.error ((Malformed.here .unterminatedGroup).under
          (.field number))) = some error → error.fault.OfBytes := by
        rintro error ⟨⟩
        simp [InputFault.OfBytes, Malformed.here, Malformed.under]
      have same : message.clearCachedSize.type = message.type := rfl
      exact coupled_mergeRecords (record (some number))
        (advances_mergeRecord carried.groups (some number)) cutOff same input
  | none =>
      simp only [mergeBody]
      cases isSet : table.isMessageSet with
      | false =>
          rw [if_neg Bool.false_ne_true]
          have same : message.clearCachedSize.type = message.type := rfl
          exact coupled_mergeRecords (record none) (advances_mergeRecord carried.groups none) toEnd
            same input
      | true =>
          rw [if_pos rfl]
          obtain ⟨-, -, fields⟩ := builds.shape_of_messageSet isSet
          rw [builds.isMessageSet] at isSet
          have item : ∀ (middle : Message) (bytes : Bytes), middle.type = message.type →
              coupling.reads bytes →
                Coupled coupling.linked (mergeSetRecord inside depth middle bytes)
                  (mergeSetRecord inside depth middle bytes) fun result =>
                    Merges coupling nested middle result.1 result.2.failure? := by
            intro middle bytes same input
            rw [← same] at type isSet fields
            exact coupled_mergeSetRecord lawful carried type isSet fields input
          have same : message.clearCachedSize.type = message.type := rfl
          exact coupled_mergeRecords item advances_mergeSetRecord toEnd same input

/-- Merging records into a message is one of the cases, whichever form the records have. -/
theorem coupled_mergeBody (lawful : coupling.LawfulReading)
    (carried : nested.CarriedOutBy coupling inside)
    {registry : Registry} (builds : registry.Builds message.type table)
    (types : ∀ entry ∈ table.entries, ∀ type, entry.codec.valueType = some type →
      coupling.types type)
    (type : coupling.types message.type) (group : Option Nat) (input : coupling.reads bytes) :
    Coupled coupling.linked (mergeBody inside depth table group message bytes)
      (mergeBody inside depth table group message bytes) fun result =>
        Merges coupling nested message result.1 (failure? result.2) :=
  (coupled_mergeBody_emptied lawful carried builds types type group input).mono
    fun _ later => .trans (.clearCachedSize message) later

/-- What merging can do to a message in which this many levels may still open. -/
def MergesWithin (coupling : Coupling) : Nat → Effect
  | 0 => Merges coupling fun message after failure =>
      after = message ∧ ∃ fault : InputFault, fault.OfBytes ∧ failure = some (.here fault)
  | depth + 1 => Merges coupling (MergesWithin coupling depth)

/-- What holds of merges that read nothing nested, and of merges whose nested messages it holds
of, holds of all merges. -/
theorem MergesWithin.induction {motive : Effect}
    (unread : ∀ message fault, fault.OfBytes → motive message message (some (.here fault)))
    (step : ∀ nested : Effect, (∀ message after failure, nested message after failure →
      motive message after failure) → ∀ message after failure,
        Merges coupling nested message after failure → motive message after failure)
    {depth : Nat} {message after : Message} {failure : Option Malformed}
    (h : MergesWithin coupling depth message after failure) : motive message after failure := by
  induction depth generalizing message after failure with
  | zero =>
      refine step _ ?_ _ _ _ h
      rintro message _ _ ⟨rfl, fault, ofBytes, rfl⟩
      exact unread _ fault ofBytes
  | succ depth ih => exact step _ (fun _ _ _ => ih) _ _ _ h

theorem MergesWithin.throughout {P : Message → Prop} (preserves : coupling.Preserves P)
    {depth : Nat} {after : Message} {failure : Option Malformed}
    (h : MergesWithin coupling depth message after failure) :
    message.Throughout P → after.Throughout P := by
  apply MergesWithin.induction _ _ h
  · exact fun _ _ _ start => start
  · intro nested inside message after failure merges
    exact merges.throughout preserves inside

theorem MergesWithin.bears {depth : Nat} {after : Message} {failure : Option Malformed}
    (h : MergesWithin coupling depth message after failure) :
    message.Bears coupling.extensions → after.Bears coupling.extensions :=
  h.throughout coupling.preserves_extensions

theorem coupled_mergeInner (lawful : coupling.LawfulReading)
    (carried : nested.CarriedOutBy coupling inside) (group : Option Nat)
    (type : coupling.types message.type) (input : coupling.reads bytes) :
    Coupled coupling.linked (mergeInner inside depth group message bytes)
      (mergeInner inside depth group message bytes) fun result =>
        Merges coupling nested message result.1 (failure? result.2) := by
  rw [mergeInner]
  apply (lawful.table message.type type).bind
  rintro result ⟨lacks, builds⟩
  cases result with
  | error error => exact coupled_pure (.refuse message (.inr (lacks error rfl)))
  | ok table =>
      obtain ⟨registry, builds, types⟩ := builds table rfl
      exact coupled_mergeBody lawful carried builds types type group input

/-- Every merge into a nested message is one of the cases. -/
theorem carriedOutBy_mergeAt (lawful : coupling.LawfulReading) (depth : Nat) :
    (MergesWithin coupling depth).CarriedOutBy coupling (some (mergeAt depth)) := by
  induction depth with
  | zero =>
      refine ⟨takesGroups_mergeAt 0,
        fun message fault ofBytes => .refuse message (.inl ofBytes), ?_⟩
      rintro _ ⟨⟩ group message bytes type input
      refine coupled_mergeInner lawful ⟨takesGroups_none, fun message fault ofBytes => ?_, by simp⟩
        group type input
      exact ⟨rfl, fault, ofBytes, rfl⟩
  | succ depth ih =>
      refine ⟨takesGroups_mergeAt (depth + 1),
        fun message fault ofBytes => .refuse message (.inl ofBytes), ?_⟩
      rintro _ ⟨⟩ group message bytes type input
      exact coupled_mergeInner lawful ih group type input

end MessageOf

/-- What merging can do to a message, and why it may fail: the table is missing, or the input is
malformed. -/
def MessageType.Merges (coupling : Coupling) (message after : Message) : Option Failure → Prop
  | none => MessageOf.MergesWithin coupling maxNesting message after none
  | some (.decode error) => MessageOf.MergesWithin coupling maxNesting message after (some error)
  | some (.build _) => after = message
  | some _ => False

namespace MessageType

variable {coupling : Coupling} {type : MessageType}

/-- Merging input into a message of a type is one of the cases. -/
theorem coupled_merge (lawful : coupling.LawfulReading) (admitted : coupling.types type)
    {message : Message} (same : message.type = type) {bytes : Bytes}
    (input : coupling.reads bytes) :
    Coupled coupling.linked (type.merge message bytes) (type.merge message bytes) fun result =>
      Merges coupling message result.1 result.2 := by
  subst same
  rw [merge, if_neg (not_not_intro rfl)]
  apply (lawful.table message.type admitted).bind
  rintro result ⟨-, builds⟩
  cases result with
  | error error => exact coupled_pure rfl
  | ok table =>
      obtain ⟨registry, builds, types⟩ := builds table rfl
      have carried := MessageOf.carriedOutBy_mergeAt lawful (maxNesting - 1)
      apply (MessageOf.coupled_mergeBody lawful carried builds types admitted none input).bind
      rintro ⟨after, outcome⟩ effect
      cases outcome <;> exact coupled_pure effect

/-- What a merge into any message leaves, in a store that operations lead to: the message as it was,
or what one of the cases leaves. An error of the input is that of the merge. -/
theorem merges_of_run {store later : Store} (reachable : store.Reachable) (held : store.Holds type)
    {message after : Message} {bytes : Bytes} {failure : Option Failure}
    (run : (type.merge message bytes).run store = ((after, failure), later)) :
    after = message ∨
      ∃ error, MessageOf.MergesWithin (store.reading bytes) maxNesting message after error ∧
        ∀ malformed, error = some malformed → failure = some (.decode malformed) := by
  by_cases same : message.type = type
  · have lawful := reachable.sound.lawful_reading bytes
    have whole : bytes <:+: bytes := List.infix_rfl
    obtain ⟨-, merges, -⟩ := coupled_merge lawful held same whole store store ⟨rfl, .refl⟩
    rw [run] at merges
    cases failure with
    | none => exact .inr ⟨none, merges, by simp⟩
    | some failure =>
        cases failure with
        | decode error => exact .inr ⟨some error, merges, by rintro _ ⟨⟩; rfl⟩
        | build error => exact .inl merges
        | encode | schema => exact absurd merges id
  -- a message of another type is not merged into
  · rw [merge, if_pos same] at run
    cases run
    exact .inl rfl

end MessageType

end ProtoWire
