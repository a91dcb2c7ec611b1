import ProtoWire.Proofs.Message.Marshaling
import ProtoWire.Proofs.Message.Throughout
import ProtoWire.Proofs.Registry.Coupling

/-!
# Coupled sizing and marshaling

Sizing and marshaling a message look up the tables of the types, and the codecs of the
extensions, that they come across in it. Under a lawful coupling they give the same sizes, the
same bytes and the same failures in linked stores (`coupled_size`, `coupled_marshal`,
`coupled_encode`), and leave a message of the same type and with extensions of the same kind.

A nested message without a table counts for nothing when it is sized. `measureOr` lets it count
for a given size, so that a size which does not depend on the given one is the size of a message
in which no table is missing.
-/

set_option autoImplicit false

namespace ProtoWire

open Coding (Coupled coupled_pure)

/-! ## Sizes for messages without a table -/

namespace MessageOf

/-- Takes the given size for that of a message whose table cannot be built. -/
def orSize (absent : Nat) (sized : Message × Except Unbuildable Nat) : Message × Nat :=
  (sized.1, sized.2.toOption.getD absent)

/-- The size of a nested message, and the given size if its table cannot be built. -/
def measureOr (absent : Nat) (trust : Bool) : Nat → Message → Coding (Message × Nat)
  | 0, message => orSize absent <$> measureWith (fun inner => return (inner, 0)) trust message
  | depth + 1, message =>
      orSize absent <$> measureWith (measureOr absent trust depth) trust message

/-- A nested message, where messages without a table count for the given size. -/
def writeOr (absent : Nat) (trust : Bool) : Nat → Message → Coding (Message × Output)
  | 0, message =>
      writeInner ⟨fun inner => return (inner, 0), fun inner => return (inner, .empty)⟩ message
  | depth + 1, message =>
      writeInner ⟨measureOr absent trust depth, writeOr absent trust depth⟩ message

/-- The size of a message, where nested messages without a table count for the given size. -/
def sizeOr (absent : Nat) (trust : Bool) (message : Message) :
    Coding (Message × Except Unbuildable Nat) :=
  measureWith (measureOr absent trust message.height) trust message

/-- Writes a message, leaving the messages inside it to the given writer. -/
def marshalBy (nested : NestedWriter) (message : Message) : Coding Marshaled := do
  match ← Coding.table message.type with
  | .error error => return ⟨message, [], some (.build error)⟩
  | .ok table =>
      let (message, output) ← writeBody nested table message
      return ⟨message, output.bytes, output.failure.map Failure.encode⟩

/-- Marshaling a message goes as deep as the message is high. -/
theorem marshal_eq_marshalBy (trust : Bool) (message : Message) :
    message.marshal trust =
      marshalBy ⟨measureAt trust message.height, marshalAt trust message.height⟩ message :=
  rfl

/-- Writes a message, where nested messages without a table count for the given size. -/
def marshalOr (absent : Nat) (trust : Bool) (message : Message) : Coding Marshaled :=
  marshalBy ⟨measureOr absent trust message.height, writeOr absent trust message.height⟩ message

theorem measureOr_zero (trust : Bool) (depth : Nat) :
    measureOr 0 trust depth = measureAt trust depth := by
  induction depth with
  | zero => rfl
  | succ depth ih =>
      funext message
      rw [measureOr, measureAt, ih]
      rfl

theorem writeOr_zero (trust : Bool) (depth : Nat) :
    writeOr 0 trust depth = marshalAt trust depth := by
  induction depth with
  | zero => rfl
  | succ depth ih =>
      funext message
      rw [writeOr, marshalAt, measureOr_zero, ih]

/-- Counted for nothing, messages without a table are sized as they are. -/
theorem sizeOr_zero (trust : Bool) (message : Message) :
    message.sizeOr 0 trust = message.size trust := by
  rw [sizeOr, size, measureOr_zero]

/-- The same of marshaling. -/
theorem marshalOr_zero (trust : Bool) (message : Message) :
    message.marshalOr 0 trust = message.marshal trust := by
  rw [marshalOr, marshal_eq_marshalBy, measureOr_zero, writeOr_zero]

end MessageOf

/-! ## What coding comes across -/

/-- The message that is left has the type of the one before, and extensions that may be asked
for. -/
structure Coupling.Passes (coupling : Coupling) (before after : Message) : Prop where
  type : after.type = before.type
  carries : after.Bears coupling.extensions

/-- The two ways of measuring a message are coupled. -/
def Coupling.Measures (coupling : Coupling) (measure measure' : Message → Coding (Message × Nat)) :
    Prop :=
  ∀ message, coupling.types message.type → message.Bears coupling.extensions →
    Coupled coupling.linked (measure message) (measure' message) fun sized =>
      coupling.Passes message sized.1

/-- The messages that the codec is for are of a type that may be asked for. -/
def Coupling.Allows (coupling : Coupling) (codec : FieldCodec) : Prop :=
  ∀ type, codec.valueType = some type → coupling.types type

variable {coupling : Coupling}

namespace FieldCodec

variable {codec : FieldCodec} {measure measure' : Message → Coding (Message × Nat)}

/-- Sizing a message in a value is coupled if measuring messages is. -/
theorem coupled_nestedSize (measures : coupling.Measures measure measure')
    (allowed : coupling.Allows codec) {value : Value} (carries : value.Bears coupling.extensions) :
    Coupled coupling.linked (codec.nestedSize measure value) (codec.nestedSize measure' value)
      fun sized => sized.1.Bears coupling.extensions := by
  rw [nestedSize, nestedSize]
  cases found : codec.instance? value with
  | none => exact coupled_pure carries
  | some inner =>
      obtain ⟨rfl, type⟩ := eq_message_of_instance? found
      apply (measures inner (allowed _ type) (Value.bears_message.1 carries)).bind
      rintro ⟨after, body⟩ passes
      simp only
      split <;> exact coupled_pure (Value.bears_message.2 passes.carries)

/-- Items are sized one after the other, each after those before it. -/
theorem coupled_sizeEach {size size' : Value → Coding (Value × Nat)} {items : List Value}
    (each : ∀ item ∈ items, Coupled coupling.linked (size item) (size' item) fun sized =>
      sized.1.Bears coupling.extensions) :
    Coupled coupling.linked (sizeEach size items) (sizeEach size' items) fun sized =>
      ∀ item ∈ sized.1, item.Bears coupling.extensions := by
  induction items with
  | nil => exact coupled_pure (by simp)
  | cons item items ih =>
      rw [sizeEach, sizeEach]
      apply (each item List.mem_cons_self).bind
      rintro ⟨after, first⟩ here
      apply (ih fun other mem => each other (List.mem_cons_of_mem _ mem)).bind
      rintro ⟨others, rest⟩ there
      exact coupled_pure (List.forall_mem_cons.2 ⟨here, there⟩)

/-- Sizing a value is coupled, and leaves a value with extensions of the same kind. -/
theorem coupled_size (measures : coupling.Measures measure measure')
    (allowed : coupling.Allows codec) {value : Value} (carries : value.Bears coupling.extensions) :
    Coupled coupling.linked (codec.size measure value) (codec.size measure' value) fun sized =>
      sized.1.Bears coupling.extensions := by
  simp only [size]
  cases message : codec.kind.isMessage with
  | false => exact coupled_pure carries
  | true =>
      cases repeated : codec.arrangement.isRepeated with
      | false => exact coupled_nestedSize measures allowed carries
      | true =>
          cases value with
          | list items =>
              have each := Value.bears_list.1 carries
              apply (coupled_sizeEach fun item mem =>
                coupled_nestedSize measures allowed (each item mem)).bind
              rintro ⟨items, total⟩ each
              exact coupled_pure (Value.bears_list.2 each)
          -- what is no list counts for nothing
          | _ => exact coupled_pure carries

end FieldCodec

namespace MessageOf

variable {measure measure' : Message → Coding (Message × Nat)} {message : Message}

/-! ## Sizing -/

/-- So is sizing the fields of a message. -/
theorem coupled_sizeFields (measures : coupling.Measures measure measure')
    {entries : List FieldEntry} (allowed : ∀ entry ∈ entries, coupling.Allows entry.codec)
    (carries : message.Bears coupling.extensions) :
    Coupled coupling.linked (sizeFields measure entries message)
      (sizeFields measure' entries message) fun sized => coupling.Passes message sized.1 := by
  induction entries generalizing message with
  | nil => exact coupled_pure ⟨rfl, carries⟩
  | cons entry entries ih =>
      rw [List.forall_mem_cons] at allowed
      rw [sizeFields, sizeFields]
      cases held : message.slot? entry.position with
      | none => exact ih allowed.2 carries
      | some value =>
          apply (FieldCodec.coupled_size measures allowed.1 (carries.of_slot? held)).bind
          rintro ⟨after, first⟩ value
          have put : (message.putSlot entry.position (some after)).Bears coupling.extensions :=
            carries.putSlot (by simpa using value)
          apply (ih allowed.2 put).bind
          rintro ⟨last, rest⟩ passes
          exact coupled_pure ⟨passes.type, passes.carries⟩

/-- Extensions are sized with the codecs that both stores give for them. -/
theorem coupled_sizeAttached (lawful : coupling.Lawful)
    (measures : coupling.Measures measure measure') {owner : MessageType}
    (admitted : coupling.types owner) {entries : List Attached}
    (carried : ∀ entry ∈ entries, entry.Borne coupling.extensions owner) :
    Coupled coupling.linked (sizeAttached measure owner entries)
      (sizeAttached measure' owner entries) fun sized =>
        ∀ entry ∈ sized.1, entry.Borne coupling.extensions owner := by
  induction entries with
  | nil => exact coupled_pure (by simp)
  | cons entry entries ih =>
      rw [List.forall_mem_cons] at carried
      rw [sizeAttached, sizeAttached]
      apply (lawful.codec owner entry.type admitted carried.1.type).bind
      rintro codec ⟨-, allowed⟩
      apply (FieldCodec.coupled_size measures allowed carried.1.value).bind
      rintro ⟨after, first⟩ value
      apply (ih carried.2).bind
      rintro ⟨others, rest⟩ there
      exact coupled_pure (List.forall_mem_cons.2 ⟨⟨carried.1.type, value⟩, there⟩)

/-- The message of an item is of the type that the extension declares. -/
theorem eq_message_of_itemMessage {entry : Attached} {inner : Message}
    (h : itemMessage entry = .ok inner) :
    entry.value = .message inner ∧ entry.type.valueType = some inner.type := by
  rw [itemMessage] at h
  split at h
  · next held =>
      split at h
      · next declared =>
          cases h
          exact ⟨held, declared⟩
      · cases h
  · cases h

/-- Items of a message set ask for a codec as well, and do not use it. -/
theorem coupled_sizeItems (lawful : coupling.Lawful) (measures : coupling.Measures measure measure')
    {owner : MessageType} (admitted : coupling.types owner) {entries : List Attached}
    (carried : ∀ entry ∈ entries, entry.Borne coupling.extensions owner) :
    Coupled coupling.linked (sizeItems measure owner entries)
      (sizeItems measure' owner entries) fun sized =>
        ∀ entry ∈ sized.1, entry.Borne coupling.extensions owner := by
  induction entries with
  | nil => exact coupled_pure (by simp)
  | cons entry entries ih =>
      rw [List.forall_mem_cons] at carried
      obtain ⟨here, others⟩ := carried
      rw [sizeItems, sizeItems]
      apply (lawful.codec owner entry.type admitted here.type).bind
      rintro codec -
      cases item : itemMessage entry with
      | error fault =>
          apply (ih others).bind
          rintro ⟨rest, total⟩ there
          exact coupled_pure (List.forall_mem_cons.2 ⟨here, there⟩)
      | ok inner =>
          obtain ⟨value, type⟩ := eq_message_of_itemMessage item
          have inside := here.value
          rw [value, Value.bears_message] at inside
          apply (measures inner ((lawful.own owner entry.type here.type).2 _ type) inside).bind
          rintro ⟨after, body⟩ passes
          apply (ih others).bind
          rintro ⟨rest, total⟩ there
          exact coupled_pure (List.forall_mem_cons.2
            ⟨⟨here.type, Value.bears_message.2 passes.carries⟩, there⟩)

/-- The entries of a message put in place of the ones it had. -/
theorem Bears.replace (carries : message.Bears coupling.extensions) {entries : List Attached}
    (carried : ∀ entry ∈ entries, entry.Borne coupling.extensions message.type) :
    Bears coupling.extensions
      { message with extensions := message.extensions.map fun _ => entries } := by
  refine Bears.of_borne carries rfl fun entry mem => ?_
  cases place : message.extensions with
  | none => simp [attached, place] at mem
  | some before => exact carried entry (by simpa [attached, place] using mem)

theorem Bears.storeSize (carries : message.Bears coupling.extensions) (size : Nat) :
    Bears coupling.extensions (message.storeSize size) :=
  Bears.of_borne carries rfl fun _ => carries.borne

/-- All parts of a message together. -/
theorem coupled_sizeBody (lawful : coupling.Lawful) (measures : coupling.Measures measure measure')
    {table : FieldTable} (allowed : ∀ entry ∈ table.writingOrder, coupling.Allows entry.codec)
    (admitted : coupling.types message.type) (carries : message.Bears coupling.extensions) :
    Coupled coupling.linked (sizeBody measure table message) (sizeBody measure' table message)
      fun sized => coupling.Passes message sized.1 := by
  have carried : ∀ entry ∈ message.attached, entry.Borne coupling.extensions message.type :=
    fun _ => carries.borne
  rw [sizeBody, sizeBody]
  cases table.isMessageSet with
  | true =>
      apply (coupled_sizeItems lawful measures admitted carried).bind
      rintro ⟨entries, items⟩ carried
      exact coupled_pure ⟨rfl, (carries.replace carried).storeSize _⟩
  | false =>
      apply (coupled_sizeAttached lawful measures admitted carried).bind
      rintro ⟨entries, extensions⟩ carried
      apply (coupled_sizeFields measures allowed (carries.replace carried)).bind
      rintro ⟨after, fields⟩ passes
      exact coupled_pure ⟨passes.type, passes.carries.storeSize _⟩

/-- Linked stores give the same table, whose fields hold messages that may be asked for. -/
theorem coupled_table (lawful : coupling.Lawful) {type : MessageType}
    (admitted : coupling.types type) :
    Coupled coupling.linked (Coding.table type) (Coding.table type) fun result =>
      (∀ error, result = .error error → coupling.mayLack) ∧
        ∀ table, result = .ok table →
          ∀ entry ∈ table.writingOrder, coupling.Allows entry.codec := by
  apply (lawful.table type admitted).mono
  rintro result ⟨lacks, builds⟩
  refine ⟨lacks, fun table eq entry mem => ?_⟩
  obtain ⟨registry, builds, types⟩ := builds table eq
  exact types entry (builds.perm_writingOrder.mem_iff.1 mem)

/-- Measuring a message is coupled, be its kept size trusted or not. -/
theorem coupled_measureWith (lawful : coupling.Lawful)
    (measures : coupling.Measures measure measure') (trust : Bool)
    (admitted : coupling.types message.type) (carries : message.Bears coupling.extensions) :
    Coupled coupling.linked (measureWith measure trust message) (measureWith measure' trust message)
      fun sized => coupling.Passes message sized.1 ∧
        ∀ error, sized.2 = .error error → coupling.mayLack := by
  rw [measureWith, measureWith]
  cases (if trust then message.cache.get? else none) with
  | some size => exact coupled_pure ⟨⟨rfl, carries⟩, by simp⟩
  | none =>
      apply (coupled_table lawful admitted).bind
      rintro result ⟨lacks, allowed⟩
      cases result with
      | error error => exact coupled_pure ⟨⟨rfl, carries⟩, fun _ _ => lacks error rfl⟩
      | ok table =>
          apply (coupled_sizeBody lawful measures (allowed table rfl) admitted carries).bind
          rintro ⟨after, size⟩ passes
          exact coupled_pure ⟨passes, by simp⟩

variable {absent absent' : Nat}

/-- What messages without a table count for plays no part unless tables may be missing. -/
theorem measures_measureOr (lawful : coupling.Lawful) (same : coupling.mayLack → absent = absent')
    (trust : Bool) (depth : Nat) :
    coupling.Measures (measureOr absent trust depth) (measureOr absent' trust depth) := by
  have counted : ∀ (message : Message) (sized : Message × Except Unbuildable Nat),
      coupling.Passes message sized.1 ∧ (∀ error, sized.2 = .error error → coupling.mayLack) →
        orSize absent sized = orSize absent' sized ∧
          coupling.Passes message (orSize absent sized).1 := by
    rintro message ⟨after, size⟩ ⟨passes, lacks⟩
    cases size with
    | ok size => exact ⟨rfl, passes⟩
    | error error => exact ⟨by rw [same (lacks error rfl)], passes⟩
  induction depth with
  | zero =>
      intro message admitted carries
      have measures : coupling.Measures (fun inner => return (inner, 0))
          (fun inner => return (inner, 0)) := fun _ _ carries => coupled_pure ⟨rfl, carries⟩
      exact (coupled_measureWith lawful measures trust admitted carries).map (counted message)
  | succ depth ih =>
      intro message admitted carries
      exact (coupled_measureWith lawful ih trust admitted carries).map (counted message)

/-- Sizes are the same in linked stores. -/
theorem coupled_size (lawful : coupling.Lawful) (same : coupling.mayLack → absent = absent')
    (trust : Bool) (admitted : coupling.types message.type)
    (carries : message.Bears coupling.extensions) :
    Coupled coupling.linked (message.sizeOr absent trust) (message.sizeOr absent' trust)
      fun sized => coupling.Passes message sized.1 ∧
        ∀ error, sized.2 = .error error → coupling.mayLack :=
  coupled_measureWith lawful (measures_measureOr lawful same trust message.height) trust admitted
    carries

end MessageOf

/-! ## Failures -/

/-- The fault lies in the value; it is not that of a missing table. -/
def ValueFault.OfValue (fault : ValueFault) : Prop :=
  fault ≠ .nestedTable

/-- If writing failed then because of a value, unless tables may be missing. -/
def Output.Explained (mayLack : Prop) (output : Output) : Prop :=
  ∀ error, output.failure = some error → error.fault.OfValue ∨ mayLack

namespace Output

variable {mayLack : Prop} {first second : Output}

@[simp]
theorem explained_ofBytes (bytes : Bytes) : (ofBytes bytes).Explained mayLack := by
  simp [Explained, ofBytes]

@[simp]
theorem explained_empty : empty.Explained mayLack := by
  simp [Explained, empty]

/-- An output that failed at a value is explained by the value, or by a missing table. -/
theorem explained_failHere {fault : ValueFault} (cause : fault.OfValue ∨ mayLack) :
    (failHere fault).Explained mayLack := by
  rintro _ ⟨⟩
  exact cause

theorem explained_refuse {fault : ValueFault} (cause : fault ≠ .nestedTable) :
    (failHere fault).Explained mayLack :=
  explained_failHere (.inl cause)

theorem Explained.under (h : first.Explained mayLack) (step : PathStep) :
    (first.under step).Explained mayLack := by
  intro error eq
  obtain ⟨inner, failed, rfl⟩ := Option.map_eq_some_iff.1 eq
  exact h inner failed

/-- The first output that failed decides, and it was explained. -/
theorem Explained.andThen (h : first.Explained mayLack) (h' : second.Explained mayLack) :
    (first.andThen second).Explained mayLack := by
  rw [Output.andThen]
  split
  · exact h
  · exact h'

end Output

namespace FieldCodec

variable {mayLack : Prop} (codec : FieldCodec)

/-- What stops a list of scalars is one of its values. -/
theorem ofValue_of_payloads {position : Nat} {values : List Value} {error : Unencodable}
    (h : codec.payloads position values = .error error) : error.fault.OfValue := by
  induction values generalizing position with
  | nil => cases h
  | cons value values ih =>
      simp only [payloads, payloadAt] at h
      split at h
      · next refused =>
          split at refused <;> cases refused
          cases h
          simp [ValueFault.OfValue, Unencodable.under, Unencodable.here]
      · split at h
        · next failed =>
            cases h
            exact ih failed
        · cases h

theorem explained_writeRecord (value : Value) : (codec.writeRecord value).Explained mayLack := by
  rw [writeRecord]
  split
  · exact Output.explained_ofBytes _
  · exact Output.explained_refuse (by simp)

theorem explained_writeRecords (position : Nat) (values : List Value) :
    (codec.writeRecords position values).Explained mayLack := by
  induction values generalizing position with
  | nil => exact Output.explained_empty
  | cons value values ih => exact ((codec.explained_writeRecord value).under _).andThen (ih _)

/-- No table is asked for where scalars are written. -/
theorem explained_writePacked (values : List Value) :
    (codec.writePacked values).Explained mayLack := by
  rw [writePacked]
  split
  · exact Output.explained_empty
  · split
    · next failed =>
        rintro _ ⟨⟩
        exact .inl (codec.ofValue_of_payloads failed)
    · exact Output.explained_ofBytes _

/-- Scalars need no tables. -/
theorem explained_writeScalar (value : Value) : (codec.writeScalar value).Explained mayLack := by
  cases arrangement : codec.arrangement with
  | implicit =>
      simp only [writeScalar, arrangement]
      split
      · split
        · exact Output.explained_empty
        · exact Output.explained_ofBytes _
      · exact Output.explained_refuse (by simp)
  | explicit =>
      simp only [writeScalar, arrangement]
      exact codec.explained_writeRecord value
  | packed =>
      simp only [writeScalar, arrangement]
      split
      · exact codec.explained_writePacked _
      · exact Output.explained_refuse (by simp)
  | expanded =>
      simp only [writeScalar, arrangement]
      split
      · exact codec.explained_writeRecords 0 _
      · exact Output.explained_refuse (by simp)

end FieldCodec

/-! ## Marshaling -/

/-- The two ways of measuring and writing a message are coupled. -/
structure Coupling.Writes (coupling : Coupling) (nested nested' : NestedWriter) : Prop where
  measure : coupling.Measures nested.measure nested'.measure
  write : ∀ message, coupling.types message.type → message.Bears coupling.extensions →
    Coupled coupling.linked (nested.write message) (nested'.write message) fun written =>
      coupling.Passes message written.1 ∧ written.2.Explained coupling.mayLack

namespace FieldCodec

variable {codec : FieldCodec} {nested nested' : NestedWriter}

/-- Writing a message in a value is coupled if writing messages is. A failure lies in the message,
in the value itself, or in a missing table. -/
theorem coupled_writeNested (writes : coupling.Writes nested nested')
    (allowed : coupling.Allows codec) {value : Value} (carries : value.Bears coupling.extensions) :
    Coupled coupling.linked (codec.writeNested nested value) (codec.writeNested nested' value)
      fun written => written.1.Bears coupling.extensions ∧
        written.2.Explained coupling.mayLack := by
  cases value with
  | message inner =>
      simp only [writeNested]
      by_cases declared : codec.valueType = some inner.type
      · have inside := Value.bears_message.1 carries
        simp only [declared, ne_eq, not_true_eq_false, if_false]
        by_cases group : codec.kind = .group
        · simp only [group, if_true]
          apply (writes.write inner (allowed _ declared) inside).bind
          rintro ⟨after, body⟩ ⟨passes, explained⟩
          exact coupled_pure ⟨Value.bears_message.2 passes.carries,
            ((Output.explained_ofBytes _).andThen explained).andThen (Output.explained_ofBytes _)⟩
        · simp only [group, if_false]
          apply (writes.measure inner (allowed _ declared) inside).bind
          rintro ⟨sized, size⟩ passes
          -- what is written is the message that measuring has left
          have same : sized.type = inner.type := passes.type
          have admitted : coupling.types sized.type := same ▸ allowed _ declared
          apply (writes.write sized admitted passes.carries).bind
          rintro ⟨after, body⟩ ⟨passes', explained⟩
          exact coupled_pure ⟨Value.bears_message.2 passes'.carries,
            (Output.explained_ofBytes _).andThen explained⟩
      · simp only [declared, ne_eq, not_false_eq_true, if_true]
        exact coupled_pure ⟨carries, Output.explained_refuse (by simp)⟩
  | _ => exact coupled_pure ⟨carries, Output.explained_refuse (by simp)⟩

/-- Items are written one after the other, up to the first that fails. -/
theorem coupled_writeEach {write write' : Value → Coding (Value × Output)} (position : Nat)
    {items : List Value}
    (each : ∀ item ∈ items, item.Bears coupling.extensions ∧
      Coupled coupling.linked (write item) (write' item) fun written =>
        written.1.Bears coupling.extensions ∧ written.2.Explained coupling.mayLack) :
    Coupled coupling.linked (writeEach write position items) (writeEach write' position items)
      fun written => (∀ item ∈ written.1, item.Bears coupling.extensions) ∧
        written.2.Explained coupling.mayLack := by
  induction items generalizing position with
  | nil => exact coupled_pure ⟨by simp, Output.explained_empty⟩
  | cons item items ih =>
      rw [List.forall_mem_cons] at each
      rw [writeEach, writeEach]
      apply each.1.2.bind
      rintro ⟨after, output⟩ ⟨carries, explained⟩
      simp only
      split
      -- after a failure the other items stay as they are
      · exact coupled_pure ⟨List.forall_mem_cons.2 ⟨carries, fun other mem => (each.2 other mem).1⟩,
          explained.under _⟩
      · apply (ih (position + 1) each.2).bind
        rintro ⟨others, rest⟩ ⟨all, explained'⟩
        exact coupled_pure ⟨List.forall_mem_cons.2 ⟨carries, all⟩,
          (explained.under _).andThen explained'⟩

/-- Writing a value is coupled, and its failures are explained. -/
theorem coupled_write (writes : coupling.Writes nested nested') (allowed : coupling.Allows codec)
    {value : Value} (carries : value.Bears coupling.extensions) :
    Coupled coupling.linked (codec.write nested value) (codec.write nested' value)
      fun written => written.1.Bears coupling.extensions ∧
        written.2.Explained coupling.mayLack := by
  simp only [write]
  cases message : codec.kind.isMessage with
  | false => exact coupled_pure ⟨carries, codec.explained_writeScalar value⟩
  | true =>
      cases repeated : codec.arrangement.isRepeated with
      | false => exact coupled_writeNested writes allowed carries
      | true =>
          cases value with
          | list items =>
              have each := Value.bears_list.1 carries
              apply (coupled_writeEach 0 fun item mem =>
                ⟨each item mem, coupled_writeNested writes allowed (each item mem)⟩).bind
              rintro ⟨items, output⟩ ⟨all, explained⟩
              exact coupled_pure ⟨Value.bears_list.2 all, explained⟩
          | _ =>
              exact coupled_pure ⟨carries,
                Output.explained_refuse (by simp)⟩

end FieldCodec

namespace MessageOf

variable {nested nested' : NestedWriter} {message : Message}

/-- So is writing the fields of a message. -/
theorem coupled_writeFields (writes : coupling.Writes nested nested')
    {entries : List FieldEntry} (allowed : ∀ entry ∈ entries, coupling.Allows entry.codec)
    (carries : message.Bears coupling.extensions) :
    Coupled coupling.linked (writeFields nested entries message)
      (writeFields nested' entries message) fun written =>
        coupling.Passes message written.1 ∧ written.2.Explained coupling.mayLack := by
  induction entries generalizing message with
  | nil => exact coupled_pure ⟨⟨rfl, carries⟩, Output.explained_empty⟩
  | cons entry entries ih =>
      rw [List.forall_mem_cons] at allowed
      rw [writeFields, writeFields]
      cases held : message.slot? entry.position with
      | none => exact ih allowed.2 carries
      | some value =>
          apply (FieldCodec.coupled_write writes allowed.1 (carries.of_slot? held)).bind
          rintro ⟨after, output⟩ ⟨value, explained⟩
          have put : (message.putSlot entry.position (some after)).Bears coupling.extensions :=
            carries.putSlot (by simpa using value)
          simp only
          split
          · exact coupled_pure ⟨⟨rfl, put⟩, explained.under _⟩
          · apply (ih allowed.2 put).bind
            rintro ⟨last, rest⟩ ⟨passes, explained'⟩
            exact coupled_pure ⟨⟨passes.type, passes.carries⟩,
              (explained.under _).andThen explained'⟩

/-- Extensions are written with the codecs that both stores give for them. -/
theorem coupled_writeAttached (lawful : coupling.Lawful) (writes : coupling.Writes nested nested')
    {owner : MessageType} (admitted : coupling.types owner) {entries : List Attached}
    (carried : ∀ entry ∈ entries, entry.Borne coupling.extensions owner) :
    Coupled coupling.linked (writeAttached nested owner entries)
      (writeAttached nested' owner entries) fun written =>
        (∀ entry ∈ written.1, entry.Borne coupling.extensions owner) ∧
          written.2.Explained coupling.mayLack := by
  induction entries with
  | nil => exact coupled_pure ⟨by simp, Output.explained_empty⟩
  | cons entry entries ih =>
      rw [List.forall_mem_cons] at carried
      rw [writeAttached, writeAttached]
      apply (lawful.codec owner entry.type admitted carried.1.type).bind
      rintro codec ⟨-, allowed⟩
      apply (FieldCodec.coupled_write writes allowed carried.1.value).bind
      rintro ⟨after, output⟩ ⟨value, explained⟩
      simp only
      split
      · exact coupled_pure ⟨List.forall_mem_cons.2 ⟨⟨carried.1.type, value⟩, carried.2⟩,
          explained.under _⟩
      · apply (ih carried.2).bind
        rintro ⟨others, rest⟩ ⟨there, explained'⟩
        exact coupled_pure ⟨List.forall_mem_cons.2 ⟨⟨carried.1.type, value⟩, there⟩,
          (explained.under _).andThen explained'⟩

/-- An extension that is no item is refused for its value, before any table is asked for. -/
theorem ne_nestedTable_of_itemMessage {entry : Attached} {fault : ValueFault}
    (h : itemMessage entry = .error fault) : fault ≠ .nestedTable := by
  rw [itemMessage] at h
  split at h
  · split at h <;> cases h
    simp
  · cases h
    simp

/-- An item of a message set is the message in it, with a frame around it. -/
theorem coupled_writeItem (lawful : coupling.Lawful) (writes : coupling.Writes nested nested')
    {owner : MessageType} {entry : Attached} (carried : entry.Borne coupling.extensions owner) :
    Coupled coupling.linked (writeItem nested entry) (writeItem nested' entry) fun written =>
      written.1.Borne coupling.extensions owner ∧ written.2.Explained coupling.mayLack := by
  rw [writeItem, writeItem]
  cases item : itemMessage entry with
  | error fault =>
      exact coupled_pure ⟨carried, Output.explained_refuse (ne_nestedTable_of_itemMessage item)⟩
  | ok inner =>
      obtain ⟨value, type⟩ := eq_message_of_itemMessage item
      have inside := carried.value
      rw [value, Value.bears_message] at inside
      have admitted := (lawful.own owner entry.type carried.type).2 _ type
      apply (lawful.table inner.type admitted).bind
      rintro result ⟨lacks, -⟩
      cases result with
      | error error =>
          exact coupled_pure ⟨carried, Output.explained_failHere (.inr (lacks error rfl))⟩
      | ok table =>
          apply (writes.measure inner admitted inside).bind
          rintro ⟨sized, size⟩ passes
          have same : sized.type = inner.type := passes.type
          apply (writes.write sized (same ▸ admitted) passes.carries).bind
          rintro ⟨after, body⟩ ⟨passes', explained⟩
          exact coupled_pure ⟨⟨carried.type, Value.bears_message.2 passes'.carries⟩,
            ((Output.explained_ofBytes _).andThen explained).andThen (Output.explained_ofBytes _)⟩

theorem coupled_writeItems (lawful : coupling.Lawful) (writes : coupling.Writes nested nested')
    {owner : MessageType} (admitted : coupling.types owner) {entries : List Attached}
    (carried : ∀ entry ∈ entries, entry.Borne coupling.extensions owner) :
    Coupled coupling.linked (writeItems nested owner entries)
      (writeItems nested' owner entries) fun written =>
        (∀ entry ∈ written.1, entry.Borne coupling.extensions owner) ∧
          written.2.Explained coupling.mayLack := by
  induction entries with
  | nil => exact coupled_pure ⟨by simp, Output.explained_empty⟩
  | cons entry entries ih =>
      rw [List.forall_mem_cons] at carried
      rw [writeItems, writeItems]
      apply (lawful.codec owner entry.type admitted carried.1.type).bind
      rintro codec -
      apply (coupled_writeItem lawful writes carried.1).bind
      rintro ⟨entry', output⟩ ⟨here, explained⟩
      simp only
      split
      · exact coupled_pure ⟨List.forall_mem_cons.2 ⟨here, carried.2⟩, explained.under _⟩
      · apply (ih carried.2).bind
        rintro ⟨others, rest⟩ ⟨there, explained'⟩
        exact coupled_pure ⟨List.forall_mem_cons.2 ⟨here, there⟩,
          (explained.under _).andThen explained'⟩

theorem Bears.refreshAttached (carries : message.Bears coupling.extensions)
    {visited : List Attached}
    (carried : ∀ entry ∈ visited, entry.Borne coupling.extensions message.type) :
    Bears coupling.extensions (message.refreshAttached visited) := by
  refine Bears.of_borne carries rfl fun entry mem => ?_
  cases place : message.extensions with
  | none => simp [attached, MessageOf.refreshAttached, place] at mem
  | some before =>
      simp only [attached, MessageOf.refreshAttached, place, Option.map_some, Option.getD_some,
        List.mem_map] at mem
      obtain ⟨old, listed, rfl⟩ := mem
      cases found : visited.find? fun other => other.type.number == old.type.number with
      | none =>
          rw [Option.getD_none]
          exact carries.borne (by simpa [attached, place] using listed)
      | some new =>
          rw [Option.getD_some]
          exact carried new (List.mem_of_find?_eq_some found)

/-- All parts of a message together. -/
theorem coupled_writeBody (lawful : coupling.Lawful) (writes : coupling.Writes nested nested')
    {table : FieldTable} (allowed : ∀ entry ∈ table.writingOrder, coupling.Allows entry.codec)
    (admitted : coupling.types message.type) (carries : message.Bears coupling.extensions) :
    Coupled coupling.linked (writeBody nested table message) (writeBody nested' table message)
      fun written => coupling.Passes message written.1 ∧
        written.2.Explained coupling.mayLack := by
  have carried : ∀ entry ∈ message.attachedByNumber, entry.Borne coupling.extensions message.type :=
    fun _ mem => carries.borne (mem_attachedByNumber.1 mem)
  rw [writeBody, writeBody]
  cases table.isMessageSet with
  | true =>
      apply (coupled_writeItems lawful writes admitted carried).bind
      rintro ⟨visited, items⟩ ⟨carried, explained⟩
      exact coupled_pure ⟨⟨rfl, carries.refreshAttached carried⟩,
        explained.andThen (Output.explained_ofBytes _)⟩
  | false =>
      apply (coupled_writeAttached lawful writes admitted carried).bind
      rintro ⟨visited, first⟩ ⟨carried, explained⟩
      have refreshed := carries.refreshAttached carried
      simp only
      split
      · exact coupled_pure ⟨⟨rfl, refreshed⟩, explained⟩
      · apply (coupled_writeFields writes allowed refreshed).bind
        rintro ⟨after, fields⟩ ⟨passes, explained'⟩
        exact coupled_pure ⟨⟨passes.type, passes.carries⟩,
          explained.andThen (explained'.andThen (Output.explained_ofBytes _))⟩

/-- A message inside another is written with its own table. -/
theorem coupled_writeInner (lawful : coupling.Lawful) (writes : coupling.Writes nested nested')
    (admitted : coupling.types message.type) (carries : message.Bears coupling.extensions) :
    Coupled coupling.linked (writeInner nested message) (writeInner nested' message)
      fun written => coupling.Passes message written.1 ∧
        written.2.Explained coupling.mayLack := by
  rw [writeInner, writeInner]
  apply (coupled_table lawful admitted).bind
  rintro result ⟨lacks, allowed⟩
  cases result with
  | error error =>
      exact coupled_pure ⟨⟨rfl, carries⟩, Output.explained_failHere (.inr (lacks error rfl))⟩
  | ok table => exact coupled_writeBody lawful writes (allowed table rfl) admitted carries

variable {absent absent' : Nat}

/-- By induction on the levels: what is coupled for the messages inside is coupled for messages that
hold them. -/
theorem writes_writeOr (lawful : coupling.Lawful) (same : coupling.mayLack → absent = absent')
    (trust : Bool) (depth : Nat) :
    coupling.Writes ⟨measureOr absent trust depth, writeOr absent trust depth⟩
      ⟨measureOr absent' trust depth, writeOr absent' trust depth⟩ := by
  induction depth with
  | zero =>
      refine ⟨measures_measureOr lawful same trust 0, fun message admitted carries => ?_⟩
      have nothing : coupling.Writes
          ⟨fun inner => return (inner, 0), fun inner => return (inner, .empty)⟩
          ⟨fun inner => return (inner, 0), fun inner => return (inner, .empty)⟩ :=
        ⟨fun _ _ carries => coupled_pure ⟨rfl, carries⟩,
          fun _ _ carries => coupled_pure ⟨⟨rfl, carries⟩, Output.explained_empty⟩⟩
      exact coupled_writeInner lawful nothing admitted carries
  | succ depth ih =>
      exact ⟨measures_measureOr lawful same trust (depth + 1),
        fun message admitted carries => coupled_writeInner lawful ih admitted carries⟩

/-- If marshaling fails then because of a value, or a table may be missing. -/
def Marshaled.Explained (mayLack : Prop) (marshaled : Marshaled) : Prop :=
  ∀ failure, marshaled.failure = some failure →
    (∃ error : Unencodable, failure = .encode error ∧ error.fault.OfValue) ∨ mayLack

/-- The bytes and the failure are the same in linked stores. -/
theorem coupled_marshal (lawful : coupling.Lawful) (same : coupling.mayLack → absent = absent')
    (trust : Bool) (admitted : coupling.types message.type)
    (carries : message.Bears coupling.extensions) :
    Coupled coupling.linked (message.marshalOr absent trust) (message.marshalOr absent' trust)
      (Marshaled.Explained coupling.mayLack) := by
  rw [marshalOr, marshalOr, marshalBy, marshalBy]
  apply (coupled_table lawful admitted).bind
  rintro result ⟨lacks, allowed⟩
  cases result with
  | error error => exact coupled_pure fun _ _ => .inr (lacks error rfl)
  | ok table =>
      have writes := writes_writeOr lawful same trust message.height
      apply (coupled_writeBody lawful writes (allowed table rfl) admitted carries).bind
      rintro ⟨after, output⟩ ⟨-, explained⟩
      refine coupled_pure fun failure eq => ?_
      obtain ⟨error, failed, rfl⟩ := Option.map_eq_some_iff.1 eq
      rcases explained error failed with cause | lacks
      · exact .inl ⟨error, rfl, cause⟩
      · exact .inr lacks

/-- The encoding is the same in linked stores. -/
theorem coupled_encode (lawful : coupling.Lawful) (admitted : coupling.types message.type)
    (carries : message.Bears coupling.extensions) :
    Coupled coupling.linked message.encode message.encode fun encoded =>
      ∀ failure, encoded.2 = .error failure →
        (∃ error : Unencodable, failure = .encode error ∧ error.fault.OfValue) ∨
          coupling.mayLack := by
  have sized : Coupled coupling.linked (message.sizeOr 0 false) (message.sizeOr 0 false)
      fun sized => coupling.Passes message sized.1 ∧
        ∀ error, sized.2 = .error error → coupling.mayLack :=
    coupled_size lawful (fun _ => rfl) false admitted carries
  rw [sizeOr_zero] at sized
  apply sized.bind
  rintro ⟨after, size⟩ ⟨passes, lacks⟩
  cases size with
  | error error => exact coupled_pure fun _ _ => .inr (lacks error rfl)
  | ok size =>
      have same : after.type = message.type := passes.type
      have marshaled : Coupled coupling.linked (after.marshalOr 0 true) (after.marshalOr 0 true)
          (Marshaled.Explained coupling.mayLack) :=
        coupled_marshal lawful (fun _ => rfl) true (same ▸ admitted) passes.carries
      rw [marshalOr_zero] at marshaled
      apply marshaled.bind
      intro written explained
      split
      · next failed =>
          refine coupled_pure fun failure eq => ?_
          cases eq
          exact explained _ failed
      · exact coupled_pure (by simp)

end MessageOf

end ProtoWire
