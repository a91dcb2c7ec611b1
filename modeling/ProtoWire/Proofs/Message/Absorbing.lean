import ProtoWire.Proofs.Message.Filling
import ProtoWire.Proofs.Message.Place

/-!
# Runs over records

Merging goes from record to record. A front of the input is absorbed if merging it leads to
another message, whatever follows it (`MessageOf.Absorbs`); fronts that are absorbed one after
the other are absorbed together (`Absorbs.append`). Records that were written for a field, for
an extension or for an item of a message set are absorbed into what they were written for, and
records that a type keeps as they are into the unknown bytes.
-/

set_option autoImplicit false

namespace ProtoWire

open Coding (Yields Ensures yields_pure ensures_pure)

/-- The place of what takes a record: a declared field, or an extension with its own codec. -/
def Taker.place : Taker → Place
  | .field entry => .field entry
  | .extension type => .extension type type.codec

namespace MessageOf

section

variable {store : Store} {step : Message → Bytes → Coding (Message × Step)}
  {message middle after : Message}

/-- Merging the bytes and whatever follows them leads to what merging the rest into the later
message leads to. -/
def Absorbs (store : Store) (step : Message → Bytes → Coding (Message × Step))
    (message : Message) (front : Bytes) (after : Message) : Prop :=
  ∀ atEnd rest result,
    (∀ limit, rest.length ≤ limit →
      Yields store (mergeRecords step atEnd limit after rest) result) →
    ∀ limit, (front ++ rest).length ≤ limit →
      Yields store (mergeRecords step atEnd limit message (front ++ rest)) result

theorem absorbs_nil (message : Message) : Absorbs store step message [] message :=
  fun _ _ _ h => h

theorem Absorbs.append {front back : Bytes} (h : Absorbs store step message front middle)
    (h' : Absorbs store step middle back after) :
    Absorbs store step message (front ++ back) after := by
  intro atEnd rest result last
  rw [List.append_assoc]
  exact h atEnd (back ++ rest) result (h' atEnd rest result last)

theorem absorbs_record {record : Bytes} (nonempty : record ≠ [])
    (h : ∀ rest, Yields store (step message (record ++ rest)) (after, .next rest)) :
    Absorbs store step message record after := by
  intro atEnd rest result last limit enough
  cases record with
  | nil => exact absurd rfl nonempty
  | cons byte record =>
      rw [List.cons_append, List.length_cons, List.length_append] at enough
      obtain ⟨fewer, rfl⟩ : ∃ fewer, limit = fewer + 1 := ⟨limit - 1, by omega⟩
      rw [List.cons_append, mergeRecords]
      exact (h rest).bind (last fewer (by omega))

/-- A list of things whose records are absorbed one by one. -/
theorem absorbs_foldl {α : Type} {good : Message → Prop} {piece : α → Piece}
    {change : Message → α → Message} {items : List α} {parts : List Bytes}
    (all : List.Forall₂ (fun item part => piece item = .ok part) items parts)
    (each : ∀ item ∈ items, ∀ part ∈ parts, piece item = .ok part → ∀ message, good message →
      Absorbs store step message part (change message item) ∧ good (change message item))
    (start : good message) :
    Absorbs store step message parts.flatten (items.foldl change message) ∧
      good (items.foldl change message) := by
  induction all generalizing message with
  | nil => exact ⟨absorbs_nil message, start⟩
  | @cons item part items parts eq all ih =>
      obtain ⟨first, good'⟩ := each item List.mem_cons_self part List.mem_cons_self eq message start
      obtain ⟨rest, last⟩ := ih (fun other mem part' mem' =>
        each other (List.mem_cons_of_mem _ mem) part' (List.mem_cons_of_mem _ mem')) good'
      exact ⟨first.append rest, last⟩

theorem Absorbs.toEnd {bytes : Bytes} (h : Absorbs store step message bytes after)
    (atEnd : Except Malformed Bytes) :
    Yields store (mergeRecords step atEnd bytes.length message bytes) (after, atEnd) := by
  -- nothing is left to merge
  have last : ∀ limit, ([] : Bytes).length ≤ limit →
      Yields store (mergeRecords step atEnd limit after []) (after, atEnd) := by
    intro limit _
    cases limit <;> exact yields_pure _
  have run := h atEnd [] _ last
  rw [List.append_nil] at run
  exact run _ (Nat.le_refl _)

theorem Absorbs.ended {bytes tag rest : Bytes} (h : Absorbs store step message bytes after)
    (nonempty : tag ≠ [])
    (stop : Yields store (step after (tag ++ rest)) (after, .ended rest))
    (atEnd : Except Malformed Bytes) :
    Yields store
      (mergeRecords step atEnd (bytes ++ (tag ++ rest)).length message (bytes ++ (tag ++ rest)))
      (after, .ok rest) := by
  refine h atEnd (tag ++ rest) _ (fun limit enough => ?_) _ (Nat.le_refl _)
  -- one more record, the end tag, is within the limit
  cases tag with
  | nil => exact absurd rfl nonempty
  | cons byte tag =>
      rw [List.cons_append, List.length_cons] at enough
      obtain ⟨fewer, rfl⟩ : ∃ fewer, limit = fewer + 1 := ⟨limit - 1, by omega⟩
      rw [List.cons_append, mergeRecords]
      exact stop.bind (yields_pure _)

end

/-! ## One record -/

/-- Merges a record of which it is known what takes it. -/
def mergeTaken (inside : Option Merger) (depth : Nat) (taker : Option Taker) (message : Message)
    (bytes : Bytes) (number : Nat) (wire : WireType) (rest : Bytes) : Coding (Message × Step) :=
  match taker with
  | some (.field entry) => mergeField inside entry message wire rest
  | some (.extension type) => mergeExtension inside type.codec type message wire rest
  | none => return mergeUnknown depth message bytes number wire rest

section

variable {store : Store} {inside : Option Merger} {depth : Nat} {table : FieldTable}
  {group : Option Nat} {message : Message} {bytes rest : Bytes} {number : Nat} {wire : WireType}

/-- What takes a record is its place, if extensions are coded by their own codecs. -/
theorem place?_eq_taker? (own : store.OwnCodecs message.type)
    (place : message.extensions.isSome = message.type.storage.extensions) :
    store.catalog.place? table message number wire =
      (store.catalog.taker? table message.type number wire).map Taker.place := by
  rw [Catalog.place?, Catalog.taker?, place]
  cases table.entry? number with
  | some entry =>
      simp only
      split <;> rfl
  | none =>
      simp only
      split
      · cases found : store.catalog.extension? message.type number with
        | none => rfl
        | some type =>
            -- the codec that is kept under the name has to be the extension's own
            simp only [own.codec found]
            split <;> rfl
      · rfl

/-- A record that starts with no end tag goes to what takes it. -/
theorem ensures_mergeRecord (sound : store.Sound) (held : store.Holds message.type)
    (own : store.OwnCodecs message.type)
    (place : message.extensions.isSome = message.type.storage.extensions)
    (tag : Tag.read bytes = .ok (number, wire, rest)) (starts : wire ≠ .endGroup)
    {goal : Message × Step → Prop}
    (h : Ensures store (mergeTaken inside depth
      (store.catalog.taker? table message.type number wire) message bytes number wire rest) goal) :
    Ensures store (mergeRecord inside depth table group message bytes) goal := by
  apply ensures_mergeRecord_placed sound held tag starts
  rw [place?_eq_taker? own place]
  cases taken : store.catalog.taker? table message.type number wire with
  | none =>
      rw [taken] at h
      exact h
  | some taker =>
      rw [taken] at h
      cases taker <;> exact h

theorem yields_mergeRecord (sound : store.Sound) (held : store.Holds message.type)
    (own : store.OwnCodecs message.type)
    (place : message.extensions.isSome = message.type.storage.extensions)
    (tag : Tag.read bytes = .ok (number, wire, rest)) (starts : wire ≠ .endGroup)
    {result : Message × Step}
    (h : Yields store (mergeTaken inside depth (store.catalog.taker? table message.type number wire)
      message bytes number wire rest) result) :
    Yields store (mergeRecord inside depth table group message bytes) result := by
  refine (ensures_mergeRecord sound held own place tag starts ?_).yields
  exact h.ensures rfl

/-! ## Records of fields and extensions -/

theorem ne_endGroup_of_accepts {codec : FieldCodec} (h : codec.accepts wire = true) :
    wire ≠ .endGroup := by
  rintro rfl
  cases kind : codec.kind <;> simp [FieldCodec.accepts, kind, Kind.wireType] at h

theorem ne_nil_of_tag (number : Nat) (wire : WireType) (payload : Bytes) :
    Tag.write number wire ++ payload ≠ [] := by
  simp [Tag.write, Varint.write_ne_nil]

theorem yields_mergePlace_fill {place : Place} {slot : Option Value} {value : Value}
    (held : place.held? message = slot)
    (h : Yields store (place.codec.read inside wire slot bytes) (some value, .ok rest)) :
    Yields store (mergePlace inside place message wire bytes)
      (place.fill message value, .next rest) := by
  rw [mergePlace, held, ← Place.settle_put_some]
  exact h.bind (yields_pure _)

/-- Records of a place are absorbed into it. -/
theorem absorbs_place (sound : store.Sound) (place : Place) {front : Bytes} {value : Value}
    {slot : Option Value} (legal : isFieldNumber place.codec.number = true)
    (fills : place.codec.Fills store inside slot front value)
    (type : store.Holds message.type)
    (opens : ∀ wire, place.codec.accepts wire = true →
      store.catalog.place? table message place.codec.number wire = some place)
    (room : place.Room message) (held : place.held? message = slot) :
    Absorbs store (mergeRecord inside depth table group) message front
      (place.fill message value) := by
  -- each record goes on with what the record before it left
  induction fills generalizing message with
  | @one slot wire payload value accepts reads =>
      apply absorbs_record (ne_nil_of_tag _ _ _)
      intro rest
      rw [List.append_assoc]
      have read : Yields store (mergePlace inside place message wire (payload ++ rest))
          (place.fill message value, .next rest) :=
        yields_mergePlace_fill held (reads rest)
      refine (ensures_mergeRecord_placed sound type (Tag.read_write legal wire _)
        (ne_endGroup_of_accepts accepts) ?_).yields
      rw [opens wire accepts]
      exact read.ensures rfl
  | @append slot front back middle value _ _ first second =>
      have rest : Absorbs store (mergeRecord inside depth table group)
          (place.fill message middle) back (place.fill (place.fill message middle) value) :=
        second (by simpa using type) (by simpa using opens) (room.fill middle)
          (room.held?_fill middle)
      rw [Place.fill_fill] at rest
      exact (first type opens room held).append rest

/-- Records of a declared field are absorbed into its slot, and unset its siblings. -/
theorem absorbs_field (sound : store.Sound) {entry : FieldEntry}
    (declared : table.entry? entry.number = some entry) (legal : entry.codec.Legal)
    {slot : Option Value} {front : Bytes} {value : Value}
    (fills : entry.codec.Fills store inside slot front value)
    (type : store.Holds message.type) (bound : entry.position < message.slots.length)
    (held : message.slot? entry.position = slot) :
    Absorbs store (mergeRecord inside depth table group) message front
      (message.putField entry.position value) := by
  have opens : ∀ wire, entry.codec.accepts wire = true →
      store.catalog.place? table message entry.codec.number wire = some (.field entry) := by
    intro wire accepts
    rw [Catalog.place?, ← FieldEntry.number, declared]
    exact if_pos accepts
  exact absorbs_place sound (.field entry) legal.number fills type opens bound held

/-- Records of an extension are absorbed into the attached value, if it is coded by its own
codec. -/
theorem absorbs_extension (sound : store.Sound) {extension : ExtensionType}
    (found : store.catalog.extension? message.type extension.number = some extension)
    (own : store.catalog.codec message.type extension = extension.codec)
    (takes : message.type.descriptor.isExtensionNumber extension.number = true)
    (undeclared : table.entry? extension.number = none)
    {slot : Option Value} {front : Bytes} {value : Value}
    (fills : extension.codec.Fills store inside slot front value)
    (type : store.Holds message.type) (place : message.extensions.isSome = true)
    (held : (message.extension? extension.number).map AttachedOf.value = slot) :
    Absorbs store (mergeRecord inside depth table group) message front
      (message.attach ⟨extension, value⟩) := by
  have legal := (sound.registry _).legal_codec (Store.mem_extensions_of_extension? found).1
  have number : extension.codec.number = extension.number := rfl
  have opens : ∀ wire, extension.codec.accepts wire = true →
      store.catalog.place? table message extension.codec.number wire =
        some (.extension extension extension.codec) := by
    intro wire accepts
    rw [Catalog.place?, number, undeclared]
    simp only [place, takes, Bool.and_self, if_true, found, own, accepts]
  exact absorbs_place sound (.extension extension extension.codec) legal.number fills type opens
    place held

/-! ## Records that are kept -/

theorem mergeUnknown_append {record value : Bytes}
    (skips : skipValue depth number wire (value ++ rest) = .ok rest) :
    mergeUnknown depth message (record ++ rest) number wire (value ++ rest) =
      (message.keepUnknown record, .next rest) := by
  simp only [mergeUnknown, skips, Bytes.before_append]

/-- A record that no field or extension takes is absorbed into the unknown bytes. -/
theorem absorbs_unknown (sound : store.Sound) (held : store.Holds message.type)
    (own : store.OwnCodecs message.type)
    (place : message.extensions.isSome = message.type.storage.extensions)
    (regular : table.isMessageSet = false) {record : Bytes}
    (keeps : store.catalog.KeepsRecord table message.type depth record) :
    Absorbs store (mergeRecord inside depth table group) message record
      (message.keepUnknown record) := by
  obtain ⟨number, wire, value, tag, kept⟩ := keeps
  rw [regular, if_neg Bool.false_ne_true] at kept
  obtain ⟨skips, untaken⟩ := kept
  apply absorbs_record (Tag.ne_nil_of_read tag)
  intro rest
  refine yields_mergeRecord sound held own place (Tag.read_append tag rest)
    (ne_endGroup_of_skipValue skips) ?_
  rw [untaken, mergeTaken, mergeUnknown_append (skipValue_append skips rest)]
  exact yields_pure _

/-! ## Items of message sets -/

theorem mergeSetRecord_item (tag : Tag.read bytes = .ok (itemNumber, .startGroup, rest)) :
    mergeSetRecord inside depth message bytes =
      match readItem depth rest with
      | .error error => return (message, .failed error)
      | .ok (none, rest) => return (message.keepUnknown (bytes.before rest), .next rest)
      | .ok (some (number, body), rest) => do
          match ← Coding.findExtension message.type number with
          | none => return (message.keepUnknown (bytes.before rest), .next rest)
          | some type =>
              let (message, failure) ← mergeItem inside type message body
              match failure with
              | some error => return (message, .failed error)
              | none => return (message, .next rest) := by
  rw [mergeSetRecord, tag]
  rfl

theorem mergeSetRecord_other (tag : Tag.read bytes = .ok (number, wire, rest))
    (other : ¬(number = itemNumber ∧ wire = .startGroup)) :
    mergeSetRecord inside depth message bytes =
      return mergeUnknown depth message bytes number wire rest := by
  rw [mergeSetRecord, tag]
  split
  · next eq => simp at eq
  · next eq =>
      simp only [Except.ok.injEq, Prod.mk.injEq] at eq
      exact absurd ⟨eq.1, eq.2.1⟩ other
  · next eq =>
      simp only [Except.ok.injEq, Prod.mk.injEq] at eq
      obtain ⟨rfl, rfl, rfl⟩ := eq
      rfl

/-- A record that is no item of a known extension is absorbed into the unknown bytes. -/
theorem absorbs_unknownInSet (sound : store.Sound) (isSet : table.isMessageSet = true)
    {record : Bytes} (keeps : store.catalog.KeepsRecord table message.type depth record) :
    Absorbs store (mergeSetRecord inside depth) message record (message.keepUnknown record) := by
  obtain ⟨number, wire, value, tag, kept⟩ := keeps
  rw [if_pos isSet] at kept
  apply absorbs_record (Tag.ne_nil_of_read tag)
  intro rest
  -- an item that is incomplete or names no extension, or a record that is no item
  split at kept
  · next isItem =>
      obtain ⟨rfl, rfl⟩ := isItem
      obtain ⟨item, reads, unknown⟩ := kept
      obtain ⟨front, rfl, reads'⟩ := append_of_readItem reads
      rw [List.append_nil] at tag
      rw [mergeSetRecord_item (Tag.read_append tag rest), reads' rest]
      cases item with
      | none =>
          simp only [Bytes.before_append]
          exact yields_pure _
      | some item =>
          simp only [Bytes.before_append]
          have asked := Coding.yields_findExtension sound message.type item.1
          rw [unknown item.1 item.2 rfl] at asked
          exact asked.bind (yields_pure _)
  · next other =>
      rw [mergeSetRecord_other (Tag.read_append tag rest) other,
        mergeUnknown_append (skipValue_append kept rest)]
      exact yields_pure _

/-- An item that was written is absorbed into the extension that it names. -/
theorem absorbs_item (sound : store.Sound) {merged : Message → Message → Message}
    {form : Message → Piece} {entry : Attached} {inner : Message} {body : Bytes}
    (found : store.catalog.extension? message.type entry.type.number = some entry.type)
    (value : entry.value = .message inner) (type : entry.type.valueType = some inner.type)
    (written : form inner = .ok body) (small : body.length < UInt64.size)
    (back : ReadsBack store inside form merged inner) (shaped : message.Shaped) :
    Absorbs store (mergeSetRecord inside depth) message
      (Tag.write itemNumber .startGroup ++
        (itemContent entry.type.number body ++ Tag.write itemNumber .endGroup))
      (message.attach (mergedAttached merged message entry)) := by
  have legal := (sound.registry _).legal_codec (Store.mem_extensions_of_extension? found).1
  -- the number is read modulo the word size, which legal numbers are below
  have number : entry.type.number < UInt32.size :=
    Nat.lt_of_le_of_lt (isFieldNumber_iff.1 legal.number).2 (by decide)
  obtain ⟨merge, rfl, leaves⟩ := back
  have start : (FieldCodec.startingMessage inner.type
      ((message.extension? entry.type.number).map AttachedOf.value)).Shaped :=
    FieldCodec.shaped_startingMessage _ fun _ held => shaped.of_extension? held
  obtain ⟨toEnd, -⟩ := leaves body written small _ start (by simp)
  apply absorbs_record (ne_nil_of_tag _ _ _)
  intro rest
  rw [List.append_assoc, mergeSetRecord_item (Tag.read_write (by decide) _ _),
    readItem_write number small rest]
  simp only
  have asked := Coding.yields_findExtension sound message.type entry.type.number
  rw [found] at asked
  apply asked.bind
  have merges : Yields store (mergeItem (some merge) entry.type message body)
      (message.attach (mergedAttached merged message entry), none) := by
    rw [mergeItem, type, mergedAttached, value, Value.mergeOver]
    exact toEnd.bind (yields_pure _)
  exact merges.bind (yields_pure _)

end

end MessageOf

end ProtoWire
