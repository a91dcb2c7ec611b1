import ProtoWire.Proofs.Message.Filling

/-!
# Canonical forms

The canonical form of a message has no empty lists, no sizes in its caches, and its extensions
in ascending order of number, at every depth (`MessageOf.canonical`). For a well-typed message
it is the field-wise merge into a new message (`overlay_newMessage`), and both have one wire
form (`wireForm_canonical`).
-/

set_option autoImplicit false

namespace ProtoWire

namespace Value

/-- A single value with the message in it changed. -/
def mapMessage (change : Message → Message) : Value → Value
  | .message inner => .message (change inner)
  | value => value

/-- The value with the messages in it changed. -/
def mapMessages (change : Message → Message) : Value → Value
  | .list items => .list (items.map (mapMessage change))
  | value => value.mapMessage change

variable {change change' : Message → Message}

theorem mapMessages_congr {value : Value}
    (same : ∀ inner ∈ value.messages, change inner = change' inner) :
    value.mapMessages change = value.mapMessages change' := by
  cases value with
  | message inner => simp only [mapMessages, mapMessage, same inner (by simp)]
  | list items =>
      simp only [mapMessages]
      congr 1
      apply List.map_congr_left
      intro item mem
      cases item with
      | message inner =>
          have inside : inner ∈ (list items).messages := mem_messages_of_mem_items mem (by simp)
          simp only [mapMessage, same inner inside]
      | _ => rfl
  | _ => rfl

/-- Adding items to nothing changes the messages in them. -/
theorem fresh_eq_mapMessage {merge : Message → Message → Message} {value : Value}
    (same : ∀ inner ∈ value.messages, merge inner.type.newMessage inner = change inner) :
    value.fresh merge = value.mapMessage change := by
  cases value with
  | message inner => rw [fresh, mapMessage, same inner (by simp)]
  | _ => rfl

/-- Merging a value into a place without messages and items changes the messages in it. -/
theorem mergeOver_eq_mapMessages {merge : Message → Message → Message} {value : Value}
    {old : Option Value}
    (plain : ∀ value, old = some value → value.messages = [] ∧ value.items = [])
    (same : ∀ inner ∈ value.messages, merge inner.type.newMessage inner = change inner) :
    value.mergeOver merge old = value.mapMessages change := by
  cases value with
  | message inner =>
      have start : FieldCodec.startingMessage inner.type old = inner.type.newMessage := by
        simp only [FieldCodec.startingMessage]
        split
        · have none := (plain _ rfl).1
          simp at none
        · rfl
      simp only [mergeOver, mapMessages, mapMessage, start, same inner (by simp)]
  | list items =>
      have none : (old.map Value.items).getD [] = [] := by
        cases old with
        | none => rfl
        | some value => exact (plain value rfl).2
      simp only [mergeOver, mapMessages, none, List.nil_append]
      congr 1
      refine List.map_congr_left fun item mem => fresh_eq_mapMessage fun inner inside => ?_
      exact same inner (mem_messages_of_mem_items mem inside)
  | _ => rfl

theorem mapMessages_of_payload? {kind : Kind} {value : Value} {payload : Payload}
    (h : kind.payload? value = some payload) :
    value.isEmptyList = false ∧ value.mapMessages change = value := by
  cases value with
  | message => cases kind <;> simp [Kind.payload?] at h
  | list => cases kind <;> simp [Kind.payload?] at h
  | _ => exact ⟨rfl, rfl⟩

end Value

namespace MessageOf

/-- The message without its empty lists and with no size in its cache, given how the messages in
it are changed. -/
def canonicalBody (change : Message → Message) (message : Message) : Message where
  type := message.type
  slots := message.slots.map fun slot =>
    (slot.filter fun value => !value.isEmptyList).map (Value.mapMessages change)
  cache := message.cache.clear
  unknown := message.unknown
  extensions := message.extensions.map fun _ =>
    message.writtenAttached.map fun entry => ⟨entry.type, entry.value.mapMessages change⟩

/-- The message without the empty lists in it, with no size in any cache and with extensions in
ascending order of number. -/
def canonical (message : Message) : Message :=
  canonicalBody (fun inner => if inner.height < message.height then canonical inner else inner)
    message
termination_by message.height

theorem canonicalBody_congr {change change' : Message → Message} {message : Message}
    (same : ∀ inner ∈ message.children, change inner = change' inner) :
    canonicalBody change message = canonicalBody change' message := by
  rw [canonicalBody, canonicalBody]
  congr 1
  · apply List.map_congr_left
    intro slot mem
    cases slot with
    | none => rfl
    | some value =>
        have held := mem_values_of_mem_slots mem
        rw [Option.filter_some]
        split
        · simp only [Option.map_some]
          rw [Value.mapMessages_congr fun inner deep => same inner (mem_children_of_mem held deep)]
        · rfl
  · congr 1
    funext _
    apply List.map_congr_left
    intro entry mem
    have held := mem_values_of_attached (mem_attached_of_written mem)
    rw [Value.mapMessages_congr fun inner deep => same inner (mem_children_of_mem held deep)]

/-- The messages inside a canonical form are canonical. -/
theorem canonical_eq (message : Message) : message.canonical = canonicalBody canonical message := by
  rw [canonical]
  apply canonicalBody_congr
  intro inner inside
  rw [if_pos (height_lt_of_mem inside)]

section

variable {store : Store} {message : Message} {table : FieldTable} {assertion : Message → Prop}
  {depth position : Nat}

/-- A field without presence is no member of a oneof. -/
theorem areSiblings_of_implicit {type : MessageType} {field : FieldDescriptor}
    (declared : type.fields[position]? = some field)
    (implicit : field.mayBeAbsent type.descriptor.generation = false) (other : Nat) :
    type.areSiblings position other = false := by
  -- members of oneofs have presence
  have alone : field.oneof = none := by
    rw [FieldDescriptor.mayBeAbsent, FieldDescriptor.hasPresence] at implicit
    cases oneof : field.oneof with
    | none => rfl
    | some index =>
        rw [oneof] at implicit
        cases field.isRepeated <;> simp at implicit
  rw [MessageType.areSiblings, MessageType.oneofAt, declared, Option.bind_some, alone]

theorem written?_of_slot? {field : FieldDescriptor} {value : Value}
    (declared : message.type.fields[position]? = some field)
    (slot : message.slot? position = some value) :
    message.written? position =
      if field.leavesOut message.type.descriptor.generation value then none else some value := by
  rw [written?, declared]
  simp only [slot, Option.filter_some, Bool.not_eq_true']
  cases field.leavesOut message.type.descriptor.generation value <;> rfl

/-- What the merge into a new message leaves in a slot. -/
theorem slot?_overlay_newMessage (sound : store.Sound) (held : store.Holds message.type)
    (found : store.catalog.table message.type = .ok table)
    (typed : message.Typed store.catalog table assertion depth)
    {merge : Message → Message → Message} {change : Message → Message}
    (same : ∀ inner ∈ message.children, merge inner.type.newMessage inner = change inner)
    {field : FieldDescriptor} (declared : message.type.fields[position]? = some field) :
    (match message.written? position with
      | some value => some (value.mergeOver merge (message.type.initialSlot field))
      | none =>
          if message.writesSibling position then none else message.type.initialSlot field) =
      ((message.slot? position).filter fun value => !value.isEmptyList).map
        (Value.mapMessages change) := by
  have builds := sound.builds_of_table held found
  obtain ⟨entry, mem, valueType, -, eq⟩ := builds.exists_entry declared
  have place : entry.position = position := by rw [eq]; rfl
  have absent : entry.mayBeAbsent = field.mayBeAbsent message.type.descriptor.generation := by
    rw [eq]
    rfl
  cases slot : message.slot? position with
  | none =>
      -- an empty slot is that of a field with presence, which is unset in a new message, too
      have written : message.written? position = none := by
        rw [written?, declared]
        simp only [slot, Option.filter_none]
      have unset : message.type.initialSlot field = none := by
        cases implicit : field.mayBeAbsent message.type.descriptor.generation with
        | true => exact message.type.initialSlot_of_mayBeAbsent implicit
        | false =>
            have present := typed.present entry mem (absent.trans implicit)
            simp [place, slot] at present
      simp [written, unset]
  | some value =>
      have fits := typed.fits entry mem value (place ▸ slot)
      rw [written?_of_slot? declared slot]
      cases left : field.leavesOut message.type.descriptor.generation value with
      | false =>
          rw [FieldDescriptor.leavesOut, Bool.or_eq_false_iff] at left
          have holds := mem_values_of_slot? slot
          -- a value that is written replaces the zero that was there, if any
          have merged : value.mergeOver merge (message.type.initialSlot field) =
              value.mapMessages change :=
            Value.mergeOver_eq_mapMessages (fun _ eq => message.type.plain_of_initialSlot eq)
              fun inner inside => same inner (mem_children_of_mem holds inside)
          simp [Option.filter_some, left.1, merged]
      | true =>
          rw [FieldDescriptor.leavesOut, Bool.or_eq_true] at left
          rcases left with empty | zero
          · rw [Value.isEmptyList_iff] at empty
            subst empty
            -- an empty list leaves the field unset
            have repeated : field.isRepeated = true := by
              rw [← Arrangement.isRepeated_ofField field
                (field.hasPresence message.type.descriptor.generation)]
              rw [eq] at fits
              exact fits.isRepeated_of_list
            have unset : message.type.initialSlot field = none :=
              message.type.initialSlot_of_mayBeAbsent
                (by simp [FieldDescriptor.mayBeAbsent, repeated])
            simp [unset, Option.filter_some, Value.isEmptyList]
          · rw [Bool.and_eq_true, Bool.not_eq_true'] at zero
            obtain ⟨implicit, zero⟩ := zero
            obtain ⟨payload, eq, zero⟩ := (Option.any_eq_true _ _).1 zero
            -- a zero without presence is what a new message holds already
            have alone : message.writesSibling position = false := by
              simp [writesSibling, areSiblings_of_implicit declared implicit]
            have initial : message.type.initialSlot field = some value := by
              rw [message.type.initialSlot_of_implicit implicit]
              exact (Kind.isZero_iff eq).1 zero
            have scalar : value.isEmptyList = false ∧ value.mapMessages change = value :=
              Value.mapMessages_of_payload? eq
            simp [alone, initial, Option.filter_some, scalar]

/-- The field-wise merge of a well-typed message into a new one is its canonical form. -/
theorem overlay_newMessage (sound : store.Sound) (held : store.Holds message.type)
    (h : message.WellTyped store.catalog depth) :
    overlay message.type.newMessage message = message.canonical := by
  induction message using MessageOf.induction generalizing depth with
  | step message ih =>
      obtain ⟨table, found, typed⟩ := wellTyped_iff.1 h
      have same : ∀ inner ∈ message.children,
          overlay inner.type.newMessage inner = inner.canonical := by
        intro inner mem
        obtain ⟨lower, -, wellTyped, held', -⟩ := h.of_mem sound held mem
        exact ih inner mem held' wellTyped
      rw [overlay_eq, canonical_eq]
      refine congr_slots ?_ rfl ?_ ?_ ?_
      -- the slots agree one by one, beyond the declared fields there are none
      · apply List.ext_getElem?
        intro position
        simp only [overlayBody, canonicalBody, MessageType.newMessage, List.getElem?_mapIdx,
          List.getElem?_map]
        cases declared : message.type.fields[position]? with
        | none =>
            have outside := List.getElem?_eq_none_iff.1 declared
            rw [← typed.slots] at outside
            simp [List.getElem?_eq_none outside]
        | some field =>
            have bound := (List.getElem?_eq_some_iff.1 declared).1
            rw [← typed.slots] at bound
            have slot : message.slots[position]? = some (message.slot? position) := by
              rw [slot?, List.getElem?_eq_getElem bound, Option.join_some]
            rw [slot, Option.map_some, Option.map_some, Option.map_some]
            exact congrArg some (slot?_overlay_newMessage sound held found typed same declared)
      · have empty : message.type.newMessage.cache.clear = message.type.newMessage.cache := by
          rw [MessageType.newMessage]
          cases message.type.storage.sizeCache <;> rfl
        exact empty.trans typed.cache.symm
      · have place := typed.unknownPlace
        simp only [overlayBody, canonicalBody, MessageType.newMessage, ← place]
        cases message.unknown <;> simp
      · have place := typed.extensionPlace
        have mapped : message.writtenAttached.map
              (mergedAttached overlay message.type.newMessage) =
            message.writtenAttached.map fun entry =>
              ⟨entry.type, entry.value.mapMessages canonical⟩ := by
          apply List.map_congr_left
          intro entry mem
          have holds := mem_values_of_attached (mem_attached_of_written mem)
          -- each extension is merged into nothing
          have nothing : message.type.newMessage.extension? entry.type.number = none := by
            simp [extension?]
          rw [mergedAttached, nothing, Value.mergeOver_eq_mapMessages (by simp)
            fun inner inside => same inner (mem_children_of_mem holds inside)]
        simp only [overlayBody, canonicalBody, mapped]
        rw [MessageType.newMessage]
        simp only [← place]
        cases message.extensions <;> simp

end

end MessageOf

/-! ## Wire forms -/

namespace FieldCodec

variable {codec : FieldCodec} {form : Message → Piece} {change : Message → Message}

theorem payload?_mapMessage (kind : Kind) (value : Value) :
    kind.payload? (value.mapMessage change) = kind.payload? value := by
  cases value with
  | message inner => rw [Value.mapMessage]; cases kind <;> rfl
  | _ => rfl

theorem writeScalar_mapMessages (value : Value) :
    codec.writeScalar (value.mapMessages change) = codec.writeScalar value := by
  cases value with
  | message inner =>
      simp only [Value.mapMessages, writeScalar, writeRecord, payload?_mapMessage]
      rw [Value.mapMessage]
  | list items =>
      have none : ∀ items : List Value, codec.kind.payload? (.list items) = none := by
        intro items
        cases codec.kind <;> rfl
      have same : ∀ value : Value, codec.kind.payload? (value.mapMessage change) =
          codec.kind.payload? value := payload?_mapMessage codec.kind
      simp only [Value.mapMessages, writeScalar, writeRecord, none, writePacked,
        List.isEmpty_map, codec.payloads_map same, codec.writeRecords_map same]
  | _ => rfl

theorem wireNested_mapMessage (types : ∀ inner, (change inner).type = inner.type)
    (value : Value) :
    codec.wireNested form (value.mapMessage change) =
      codec.wireNested (fun inner => form (change inner)) value := by
  cases value with
  | message inner => simp only [Value.mapMessage, wireNested, types]
  | _ => rfl

theorem wire_mapMessages (types : ∀ inner, (change inner).type = inner.type) (value : Value) :
    codec.wire form (value.mapMessages change) =
      codec.wire (fun inner => form (change inner)) value := by
  cases value with
  | message inner =>
      simp only [wire, writeScalar_mapMessages]
      simp only [Value.mapMessages, wireNested_mapMessage types]
      rw [Value.mapMessage]
  | list items =>
      simp only [wire, writeScalar_mapMessages]
      simp only [Value.mapMessages, codec.wireEach_map (wireNested_mapMessage types)]
      rfl
  | _ => rfl

/-- Nothing is written for a list without items. -/
theorem wire_nil {assertion : Message → Prop} {value : Value} (fits : codec.Fits assertion value)
    (empty : value.isEmptyList = true) : codec.wire form value = .ok [] := by
  obtain rfl := Value.isEmptyList_iff.1 empty
  obtain ⟨bytes, eq⟩ : ∃ bytes, codec.wire form (.list []) = .ok bytes :=
    exists_wire fits (by simp)
  rw [eq, wire_of_omits fits (by simp [omits, empty]) eq]

end FieldCodec

namespace MessageOf

variable {store : Store} {message : Message} {table : FieldTable} {assertion : Message → Prop}
  {depth : Nat} {form : Message → Piece} {change : Message → Message}

@[simp]
theorem type_canonical (message : Message) : message.canonical.type = message.type := by
  rw [canonical_eq]
  rfl

theorem slot?_canonicalBody (position : Nat) :
    (canonicalBody change message).slot? position =
      ((message.slot? position).filter fun value => !value.isEmptyList).map
        (Value.mapMessages change) := by
  rw [slot?, slot?, canonicalBody, List.getElem?_map]
  cases message.slots[position]? <;> rfl

theorem attachedByNumber_canonicalBody :
    (canonicalBody change message).attachedByNumber =
      message.writtenAttached.map fun entry => ⟨entry.type, entry.value.mapMessages change⟩ := by
  have attached' : (canonicalBody change message).attached =
      message.writtenAttached.map fun entry => ⟨entry.type, entry.value.mapMessages change⟩ := by
    rw [attached, canonicalBody]
    cases place : message.extensions with
    | some entries => rfl
    | none =>
        have nothing : message.writtenAttached = [] := by
          rw [writtenAttached, attachedByNumber, attached, place]
          rfl
        rw [nothing]
        rfl
  -- the written extensions are in order already
  have sorted : message.writtenAttached.Pairwise fun a b => a.type.number ≤ b.type.number :=
    (pairwise_sortBy_key (fun entry : Attached => entry.type.number) message.attached).filter _
  rw [attachedByNumber, attached']
  refine sortBy_of_pairwise (List.pairwise_map.2 (sorted.imp fun le => ?_))
  simpa using le

theorem wireItem_mapMessages (types : ∀ inner, (change inner).type = inner.type)
    (entry : Attached) :
    wireItem form ⟨entry.type, entry.value.mapMessages change⟩ =
      wireItem (fun inner => form (change inner)) entry := by
  obtain ⟨type, value⟩ := entry
  cases value with
  | message inner =>
      simp only [wireItem, itemMessage, Value.mapMessages, Value.mapMessage, types]
      by_cases declared : type.valueType = some inner.type <;>
        simp only [declared, if_true, if_false]
  | _ => rfl

/-- The extensions of a well-typed message are written as those of its canonical form. -/
theorem join_wireAttached_canonical (own : store.OwnCodecs message.type)
    (typed : message.Typed store.catalog table assertion depth)
    (regular : table.isMessageSet = false) (types : ∀ inner, (change inner).type = inner.type) :
    Piece.join ((canonicalBody change message).attachedByNumber.map
        (wireAttached form store.catalog message.type)) =
      Piece.join (message.attachedByNumber.map
        (wireAttached (fun inner => form (change inner)) store.catalog message.type)) := by
  have mapped : (wireAttached form store.catalog message.type ∘
        fun entry => ⟨entry.type, entry.value.mapMessages change⟩) =
      wireAttached (fun inner => form (change inner)) store.catalog message.type := by
    funext entry
    simp only [Function.comp, wireAttached, FieldCodec.wire_mapMessages types]
  rw [attachedByNumber_canonicalBody, List.map_map, mapped, writtenAttached]
  -- the extensions that are gone were not written
  apply Piece.join_map_filter
  intro entry mem empty
  rw [mem_attachedByNumber] at mem
  obtain ⟨found, fits⟩ := typed.attached entry mem
  rw [regular, if_neg Bool.false_ne_true] at fits
  rw [wireAttached, own.codec found, FieldCodec.wire_nil fits.2.2 (by simpa using empty),
    Piece.under_ok]

/-- The items of a well-typed message set are written as those of its canonical form. -/
theorem join_wireItem_canonical (typed : message.Typed store.catalog table assertion depth)
    (isSet : table.isMessageSet = true) (types : ∀ inner, (change inner).type = inner.type) :
    Piece.join ((canonicalBody change message).attachedByNumber.map fun entry =>
        (wireItem form entry).under (.field entry.type.number)) =
      Piece.join (message.attachedByNumber.map fun entry =>
        (wireItem (fun inner => form (change inner)) entry).under (.field entry.type.number)) := by
  have mapped : ((fun entry : Attached => (wireItem form entry).under (.field entry.type.number)) ∘
        fun entry => ⟨entry.type, entry.value.mapMessages change⟩) =
      fun entry => (wireItem (fun inner => form (change inner)) entry).under
        (.field entry.type.number) := by
    funext entry
    simp only [Function.comp, wireItem_mapMessages types]
  rw [attachedByNumber_canonicalBody, List.map_map, mapped, writtenAttached]
  -- items hold messages, so none of them is gone
  apply Piece.join_map_filter
  intro entry mem empty
  rw [mem_attachedByNumber] at mem
  obtain ⟨-, fits⟩ := typed.attached entry mem
  rw [if_pos isSet] at fits
  obtain ⟨inner, value, -⟩ := fits
  simp [value, Value.isEmptyList] at empty

theorem wireSlot_canonical (typed : message.Typed store.catalog table assertion depth)
    (types : ∀ inner, (change inner).type = inner.type) {entry : FieldEntry}
    (mem : entry ∈ table.entries) :
    (canonicalBody change message).wireSlot form entry =
      message.wireSlot (fun inner => form (change inner)) entry := by
  rw [wireSlot, wireSlot, slot?_canonicalBody]
  cases slot : message.slot? entry.position with
  | none => rfl
  | some value =>
      rw [Option.filter_some]
      cases empty : value.isEmptyList with
      | false => simp [FieldCodec.wire_mapMessages types]
      | true => simp [FieldCodec.wire_nil (typed.fits entry mem value slot) empty]

/-- A well-typed message and its canonical form have one wire form. -/
theorem wireForm_canonical (sound : store.Sound) (held : store.Holds message.type)
    (own : store.OwnCodecs message.type) (h : message.WellTyped store.catalog depth) :
    message.canonical.wireForm store.catalog = message.wireForm store.catalog := by
  induction message using MessageOf.induction generalizing depth with
  | step message ih =>
      obtain ⟨table, found, typed⟩ := wellTyped_iff.1 h
      have builds := sound.builds_of_table held found
      have same : ∀ inner ∈ message.children,
          inner.canonical.wireForm store.catalog = inner.wireForm store.catalog := by
        intro inner mem
        obtain ⟨lower, -, wellTyped, held', -⟩ := h.of_mem sound held mem
        exact ih inner mem held' (own.opens (h.opens_of_mem sound held mem)) wellTyped
      -- piece by piece, up to those that are empty
      have pieces : Piece.join (message.canonical.wirePieces (wireForm store.catalog)
            store.catalog table) =
          Piece.join (message.wirePieces (fun inner => inner.canonical.wireForm store.catalog)
            store.catalog table) := by
        rw [wirePieces, wirePieces, type_canonical, canonical_eq]
        cases isSet : table.isMessageSet with
        | true => exact join_wireItem_canonical typed isSet type_canonical
        | false =>
            have fields : table.writingOrder.map
                  ((canonicalBody canonical message).wireSlot (wireForm store.catalog)) =
                table.writingOrder.map
                  (message.wireSlot fun inner => inner.canonical.wireForm store.catalog) := by
              apply List.map_congr_left
              intro entry mem
              exact wireSlot_canonical typed type_canonical (builds.perm_writingOrder.mem_iff.1 mem)
            simp only [Bool.false_eq_true, if_false]
            rw [Piece.join_append, join_wireAttached_canonical own typed isSet type_canonical,
              fields, ← Piece.join_append]
      have unknown : message.canonical.unknown = message.unknown := by
        rw [canonical_eq]
        rfl
      calc message.canonical.wireForm store.catalog
          = message.wireBody (fun inner => inner.canonical.wireForm store.catalog)
              store.catalog := by
            simp only [wireForm_eq _ message.canonical, wireBody, type_canonical, found, unknown]
            rw [Piece.join_append, pieces, ← Piece.join_append]
        _ = message.wireBody (wireForm store.catalog) store.catalog := wireBody_congr same
        _ = message.wireForm store.catalog := (wireForm_eq _ _).symm

end MessageOf

end ProtoWire
