import ProtoWire.Proofs.Message.Absorbing
import ProtoWire.Proofs.Message.Marshaling

/-!
# Merging an encoding

The encoding of a well-typed message can be merged into any message of its type, and leaves the
field-wise merge of the two (`MessageType.yields_merge`).
-/

set_option autoImplicit false

namespace ProtoWire

open Coding (Yields Ensures yields_pure ensures_pure)

namespace MessageOf

/-- How messages are merged inside a message in which this many levels may still open. -/
def insideAt : Nat → Option Merger
  | 0 => none
  | depth + 1 => some (mergeAt depth)

theorem mergeAt_eq (depth : Nat) : mergeAt depth = mergeInner (insideAt depth) depth := by
  cases depth <;> rfl

section

variable {store : Store} {source : Message} {table : FieldTable} {assertion : Message → Prop}
  {depth : Nat}

/-! ## What is written -/

/-- The codec of an entry omits what its field leaves out. -/
theorem omits_entry (type : MessageType) (position : Nat) (field : FieldDescriptor)
    (valueType : Option MessageType) (value : Value) :
    (FieldTable.entry type position field valueType).codec.omits value =
      field.leavesOut type.descriptor.generation value := by
  have implicit : ((FieldTable.entry type position field valueType).codec.arrangement ==
      .implicit) = !field.mayBeAbsent type.descriptor.generation := by
    rw [Bool.eq_iff_iff, beq_iff_eq, Bool.not_eq_true']
    exact Arrangement.ofField_eq_implicit_iff
  rw [FieldCodec.omits, FieldDescriptor.leavesOut, implicit]
  rfl

theorem written?_eq (builds : (store.registry source.type.registry).Builds source.type table)
    {entry : FieldEntry} (mem : entry ∈ table.entries) :
    source.written? entry.position =
      (source.slot? entry.position).filter fun value => !entry.codec.omits value := by
  obtain ⟨field, valueType, declared, -, eq⟩ := builds.field_of_mem mem
  -- the entry is that of the field at its position
  rw [written?, declared]
  simp only
  congr 1
  funext value
  rw [eq, omits_entry]

/-- The codec of an extension omits lists without items only. -/
theorem omits_extension (extension : ExtensionType) (value : Value) :
    extension.codec.omits value = value.isEmptyList := by
  have explicit : (extension.codec.arrangement == .implicit) = false := by
    rw [ExtensionType.codec, Arrangement.ofField]
    cases extension.descriptor.field.isPacked <;> cases extension.descriptor.field.isRepeated <;>
      rfl
  rw [FieldCodec.omits, explicit, Bool.false_and, Bool.or_false]

theorem Typed.writesOneOfEach (typed : source.Typed store.catalog table assertion depth) :
    source.WritesOneOfEach := by
  intro position other siblings written
  obtain ⟨value, eq⟩ := Option.isSome_iff_exists.1 written
  have unset := typed.exclusive position other siblings (by simp [slot?_of_written? eq])
  cases held : source.written? other with
  | none => rfl
  | some value' => simp [slot?_of_written? held] at unset

/-- A message with extensions is of a type with a place for them. -/
theorem Typed.storage_of_mem (typed : source.Typed store.catalog table assertion depth)
    {entry : Attached} (mem : entry ∈ source.attached) :
    source.type.storage.extensions = true := by
  rw [← typed.extensionPlace]
  cases place : source.extensions with
  | none => simp [MessageOf.attached, place] at mem
  | some entries => rfl

/-! ## Parts of the wire form -/

/-- A message of the type of the source that has the shape of its type. -/
def Target (source target : Message) : Prop :=
  target.Shaped ∧ target.type = source.type

theorem keepUnknown_nil (message : Message) : message.keepUnknown [] = message := by
  obtain ⟨_, _, _, unknown, _⟩ := message
  cases unknown <;> simp [keepUnknown]

theorem keepUnknown_keepUnknown (message : Message) (front back : Bytes) :
    (message.keepUnknown front).keepUnknown back = message.keepUnknown (front ++ back) := by
  obtain ⟨_, _, _, unknown, _⟩ := message
  cases unknown <;> simp [keepUnknown]

/-- Records that are kept are absorbed into the unknown bytes one after the other. -/
theorem absorbs_records {step : Message → Bytes → Coding (Message × Step)} {records : List Bytes}
    (each : ∀ record ∈ records, ∀ target, Target source target →
      Absorbs store step target record (target.keepUnknown record))
    {target : Message} (good : Target source target) :
    Absorbs store step target records.flatten (target.keepUnknown records.flatten) := by
  induction records generalizing target with
  | nil =>
      rw [List.flatten_nil, keepUnknown_nil]
      exact absorbs_nil target
  | cons record records ih =>
      -- a record that was kept does not change what takes the next one
      have good' : Target source (target.keepUnknown record) :=
        ⟨good.1.keepUnknown record, good.2⟩
      have rest := ih (fun other mem => each other (List.mem_cons_of_mem _ mem)) good'
      rw [keepUnknown_keepUnknown] at rest
      rw [List.flatten_cons]
      exact (each record List.mem_cons_self target good).append rest

section

variable {inside : Option Merger} {group : Option Nat} (sound : store.Sound)
  (source_shaped : source.Shaped) (typed : source.Typed store.catalog table assertion depth)
  (back : ∀ inner ∈ source.children,
    ReadsBack store inside (wireForm store.catalog) overlay inner)

include sound source_shaped typed back

/-- What is written for an extension is absorbed into the merged extension. -/
theorem absorbs_wireAttached (held : store.Holds source.type)
    (own : store.OwnCodecs source.type) (regular : table.isMessageSet = false)
    {entry : Attached} (mem : entry ∈ source.attached) {part : Bytes}
    (small : part.length < UInt64.size)
    (written : wireAttached (wireForm store.catalog) store.catalog source.type entry = .ok part)
    {target : Message} (good : Target source target) :
    Absorbs store (mergeRecord inside depth table group) target part
        (overlayAttached overlay target entry) ∧
      Target source (overlayAttached overlay target entry) := by
  obtain ⟨shaped, type⟩ := good
  obtain ⟨found, fits⟩ := typed.attached entry mem
  rw [regular, if_neg Bool.false_ne_true] at fits
  obtain ⟨takes, undeclared, fits⟩ := fits
  have declared := (Store.mem_extensions_of_extension? found).1
  have codec := own.codec found
  rw [wireAttached, Piece.under_eq_ok_iff, codec] at written
  rw [overlayAttached]
  cases empty : entry.value.isEmptyList with
  -- a list without items is not written, and changes nothing
  | true =>
      rw [← omits_extension entry.type] at empty
      rw [if_pos rfl, FieldCodec.wire_of_omits fits empty written]
      exact ⟨absorbs_nil target, shaped, type⟩
  | false =>
      have holds := mem_values_of_attached mem
      have storage : target.type.storage.extensions = true := type ▸ typed.storage_of_mem mem
      have place : target.extensions.isSome = true := shaped.extensions.trans storage
      rw [if_neg Bool.false_ne_true]
      rw [← omits_extension entry.type] at empty
      have legal := (sound.registry _).legal_codec declared
      have before : ∀ value, (target.extension? entry.type.number).map AttachedOf.value =
          some value → value.Shaped := fun _ eq => shaped.of_extension? eq
      have fills := FieldCodec.fills_wire legal fits written empty small
        (fun inner deep => back inner (mem_children_of_mem holds deep)) before
      refine ⟨?_, ?_, type⟩
      -- the target is of the source's type, so it finds the extension, too
      · rw [← type] at found takes held codec
        exact absorbs_extension sound found codec takes undeclared fills held place rfl
      · exact shaped.attach place (source_shaped.mergeOver holds before)

/-- What is written for a field is absorbed into the merged field. -/
theorem absorbs_wireSlot (held : store.Holds source.type)
    (builds : (store.registry source.type.registry).Builds source.type table)
    {entry : FieldEntry} (mem : entry ∈ table.entries) {part : Bytes}
    (small : part.length < UInt64.size)
    (written : source.wireSlot (wireForm store.catalog) entry = .ok part)
    {target : Message} (good : Target source target) :
    Absorbs store (mergeRecord inside depth table group) target part
        (overlaySlot overlay source target entry.position) ∧
      Target source (overlaySlot overlay source target entry.position) := by
  obtain ⟨shaped, type⟩ := good
  rw [overlaySlot, written?_eq builds mem]
  rw [wireSlot] at written
  cases slot : source.slot? entry.position with
  | none =>
      rw [slot, Except.ok.injEq] at written
      subst written
      exact ⟨absorbs_nil target, shaped, type⟩
  | some value =>
      simp only [slot, Piece.under_eq_ok_iff] at written
      have fits := typed.fits entry mem value slot
      -- a value that is omitted is not merged either
      cases omitted : entry.codec.omits value with
      | true =>
          rw [Option.filter_some, omitted, FieldCodec.wire_of_omits fits omitted written]
          exact ⟨absorbs_nil target, shaped, type⟩
      | false =>
          rw [Option.filter_some, omitted]
          have holds := mem_values_of_slot? slot
          have bound : entry.position < target.slots.length := by
            rw [shaped.slots, type, ← typed.slots]
            exact lt_length_of_slot? slot
          have legal := builds.legal_of_mem mem
          have declared := builds.entry?_eq_some_iff.2 ⟨mem, rfl⟩
          have before : ∀ value, target.slot? entry.position = some value → value.Shaped :=
            fun _ eq => shaped.of_slot? eq
          have fills := FieldCodec.fills_wire legal fits written omitted small
            (fun inner deep => back inner (mem_children_of_mem holds deep)) before
          refine ⟨?_, ?_, by simpa using type⟩
          · rw [← type] at held
            exact absorbs_field sound declared legal fills held bound rfl
          · exact shaped.putField bound (source_shaped.mergeOver holds before)

/-- What is written for an item of a message set is absorbed into the merged extension. -/
theorem absorbs_wireItem (isSet : table.isMessageSet = true)
    {entry : Attached} (mem : entry ∈ source.attached) {part : Bytes}
    (small : part.length < UInt64.size)
    (written : wireItem (wireForm store.catalog) entry = .ok part)
    {target : Message} (good : Target source target) :
    Absorbs store (mergeSetRecord inside depth) target part
        (overlayAttached overlay target entry) ∧
      Target source (overlayAttached overlay target entry) := by
  obtain ⟨shaped, type⟩ := good
  obtain ⟨found, fits⟩ := typed.attached entry mem
  rw [if_pos isSet] at fits
  obtain ⟨inner, value, valueType, -⟩ := fits
  have holds := mem_values_of_attached mem
  have inside' : inner ∈ entry.value.messages := by simp [value]
  have child := mem_children_of_mem holds inside'
  have storage : target.type.storage.extensions = true := type ▸ typed.storage_of_mem mem
  have place : target.extensions.isSome = true := shaped.extensions.trans storage
  have full : entry.value.isEmptyList = false := by rw [value]; rfl
  rw [overlayAttached, full, if_neg Bool.false_ne_true]
  cases form : inner.wireForm store.catalog with
  -- an item whose message has no form would have none itself
  | error error => simp [wireItem, itemMessage, value, valueType, form] at written
  | ok body =>
      rw [wireItem_of_value value valueType form, Except.ok.injEq] at written
      subst written
      refine ⟨?_, ?_, type⟩
      · rw [← type] at found
        refine absorbs_item sound found value valueType form ?_ (back inner child) shaped
        simp only [itemContent, List.length_append] at small
        omega
      · exact shaped.attach place
          (source_shaped.mergeOver holds fun _ eq => shaped.of_extension? eq)

/-! ## Whole messages -/

/-- The wire form of a message that is no message set is absorbed into the field-wise merge,
also inside a group. -/
theorem absorbs_wireForm (held : store.Holds source.type)
    (own : store.OwnCodecs source.type)
    (found : store.catalog.table source.type = .ok table) (regular : table.isMessageSet = false)
    {bytes : Bytes} (small : bytes.length < UInt64.size)
    (written : source.wireForm store.catalog = .ok bytes)
    {target : Message} (good : Target source target) :
    Absorbs store (mergeRecord inside depth table group) target.clearCachedSize bytes
      (overlay target source) := by
  have builds := sound.builds_of_table held found
  obtain ⟨front, joined, rfl⟩ := (wireForm_eq_ok_iff found).1 written
  rw [wirePieces, if_neg (by simp [regular])] at joined
  obtain ⟨_, _, extensions, fields, rfl⟩ := Piece.join_append_eq_ok_iff.1 joined
  obtain ⟨parts, all, rfl⟩ := Piece.join_map_eq_ok_iff.1 extensions
  obtain ⟨parts', all', rfl⟩ := Piece.join_map_eq_ok_iff.1 fields
  obtain ⟨records, unknown, kept⟩ := typed.unknown
  simp only [List.length_append] at small
  have start : Target source target.clearCachedSize := ⟨good.1.clearCachedSize, good.2⟩
  -- first the extensions, then the fields, then the unknown bytes
  obtain ⟨first, good'⟩ : Absorbs store (mergeRecord inside depth table group)
        target.clearCachedSize parts.flatten
        (source.attachedByNumber.foldl (overlayAttached overlay) target.clearCachedSize) ∧
      Target source (source.attachedByNumber.foldl (overlayAttached overlay)
        target.clearCachedSize) := by
    refine absorbs_foldl all (fun entry mem part mem' eq target good => ?_) start
    have shorter := (List.sublist_flatten_of_mem mem').length_le
    rw [mem_attachedByNumber] at mem
    exact absorbs_wireAttached sound source_shaped typed back held own regular mem (by omega) eq
      good
  -- the field-wise merge is done in the same steps
  have merged := overlayBody_eq_foldl overlay good.2 good.1.slots typed.writesOneOfEach
    typed.distinct builds.nodup_positions (fun position => by
      rw [builds.mem_positions_iff, good.2])
  rw [overlay_eq, merged, List.foldl_map]
  generalize source.attachedByNumber.foldl (overlayAttached overlay) target.clearCachedSize =
    middle at first good'
  obtain ⟨second, good''⟩ : Absorbs store (mergeRecord inside depth table group) middle
        parts'.flatten (table.writingOrder.foldl
          (fun target entry => overlaySlot overlay source target entry.position) middle) ∧
      Target source (table.writingOrder.foldl
        (fun target entry => overlaySlot overlay source target entry.position) middle) := by
    refine absorbs_foldl all' (fun entry mem part mem' eq target good => ?_) good'
    have shorter := (List.sublist_flatten_of_mem mem').length_le
    rw [builds.perm_writingOrder.mem_iff] at mem
    exact absorbs_wireSlot sound source_shaped typed back held builds mem (by omega) eq good
  rw [unknown]
  refine (first.append second).append (absorbs_records (fun record mem target good => ?_) good'')
  obtain ⟨shaped, type⟩ := good
  refine absorbs_unknown sound ?_ ?_ shaped.extensions regular ?_
  · exact type ▸ held
  · exact type ▸ own
  · exact type ▸ kept record mem

/-- The wire form of a message set is absorbed into the field-wise merge. -/
theorem absorbs_wireForm_set (held : store.Holds source.type)
    (found : store.catalog.table source.type = .ok table) (isSet : table.isMessageSet = true)
    {bytes : Bytes} (small : bytes.length < UInt64.size)
    (written : source.wireForm store.catalog = .ok bytes)
    {target : Message} (good : Target source target) :
    Absorbs store (mergeSetRecord inside depth) target.clearCachedSize bytes
      (overlay target source) := by
  obtain ⟨-, -, none⟩ := (sound.builds_of_table held found).shape_of_messageSet isSet
  obtain ⟨front, joined, rfl⟩ := (wireForm_eq_ok_iff found).1 written
  rw [wirePieces, if_pos isSet] at joined
  obtain ⟨parts, all, rfl⟩ := Piece.join_map_eq_ok_iff.1 joined
  obtain ⟨records, unknown, kept⟩ := typed.unknown
  simp only [List.length_append] at small
  have start : Target source target.clearCachedSize := ⟨good.1.clearCachedSize, good.2⟩
  obtain ⟨first, good'⟩ : Absorbs store (mergeSetRecord inside depth)
        target.clearCachedSize parts.flatten
        (source.attachedByNumber.foldl (overlayAttached overlay) target.clearCachedSize) ∧
      Target source (source.attachedByNumber.foldl (overlayAttached overlay)
        target.clearCachedSize) := by
    refine absorbs_foldl all (fun entry mem part mem' eq target good => ?_) start
    have shorter := (List.sublist_flatten_of_mem mem').length_le
    rw [mem_attachedByNumber] at mem
    exact absorbs_wireItem sound source_shaped typed back isSet mem (by omega)
      (Piece.under_eq_ok_iff.1 eq) good
  -- a message set has no fields to merge
  have merged := overlayBody_eq_foldl overlay good.2 good.1.slots
    typed.writesOneOfEach typed.distinct List.nodup_nil (fun position => by
      rw [good.2, none]; simp)
  rw [overlay_eq, merged, List.foldl_nil, unknown]
  refine first.append (absorbs_records (fun record mem target good => ?_) good')
  apply absorbs_unknownInSet sound isSet
  rw [good.2]
  exact kept record mem

end

/-- What merging leaves once the table is known it leaves when the table is asked for. -/
theorem leaves_mergeInner (sound : store.Sound) {target after : Message} {bytes : Bytes}
    {inside : Option Merger} (held : store.Holds target.type)
    (found : store.catalog.table target.type = .ok table)
    (h : Merger.Leaves store (mergeBody inside depth table) target bytes after) :
    (mergeInner inside depth).Leaves store target bytes after := by
  have answered := Coding.yields_table sound held
  rw [found] at answered
  constructor
  · exact answered.bind h.1
  · intro regular number legal rest
    exact answered.bind (h.2 regular number legal rest)

/-- Merging the wire form of a well-typed message into any message of its type leaves the
field-wise merge of the two. -/
theorem WellTyped.leaves (sound : store.Sound) (held : store.Holds source.type)
    (own : store.OwnCodecs source.type)
    (found : store.catalog.table source.type = .ok table)
    (h : source.WellTyped store.catalog depth) {bytes : Bytes} (small : bytes.length < UInt64.size)
    (written : source.wireForm store.catalog = .ok bytes) {target : Message}
    (good : Target source target) :
    Merger.Leaves store (mergeBody (insideAt depth) depth table) target bytes
      (overlay target source) := by
  induction source using MessageOf.induction generalizing depth target bytes table with
  | step source ih =>
      obtain ⟨_, found', typed⟩ := wellTyped_iff.1 h
      rw [found] at found'
      cases found'
      have builds := sound.builds_of_table held found
      -- the messages inside are well typed for one level less and are read with one level less
      have back : ∀ inner ∈ source.children,
          ReadsBack store (insideAt depth) (wireForm store.catalog) overlay inner := by
        intro inner mem
        have own' := own.opens (h.opens_of_mem sound held mem)
        obtain ⟨lower, rfl, wellTyped, held', -⟩ := h.of_mem sound held mem
        obtain ⟨table', found', -⟩ := wellTyped_iff.1 wellTyped
        refine ⟨mergeAt lower, rfl, fun body written' small' target shaped type => ?_⟩
        rw [mergeAt_eq]
        exact leaves_mergeInner sound (type ▸ held') (type ▸ found')
          (ih inner mem held' own' found' wellTyped small' written' ⟨shaped, type⟩)
      have shaped := h.shaped sound held
      constructor
      · simp only [mergeBody]
        cases isSet : table.isMessageSet with
        | true =>
            rw [if_pos rfl]
            exact (absorbs_wireForm_set sound shaped typed back held found isSet small written
              good).toEnd _
        | false =>
            rw [if_neg Bool.false_ne_true]
            exact (absorbs_wireForm sound shaped typed back held own found isSet small written
              good).toEnd _
      -- in a group the end tag stops the merge, which no record before it does
      · intro regular number legal rest
        have isSet : table.isMessageSet = false := by
          rw [builds.isMessageSet, ← good.2, regular]
        simp only [mergeBody]
        refine (absorbs_wireForm sound shaped typed back held own found isSet small written
          good).ended (by simp [Tag.write, Varint.write_ne_nil]) ?_ _
        rw [mergeRecord, Tag.read_write legal]
        simp only [if_true]
        exact yields_pure _

end

end MessageOf

namespace MessageType

open MessageOf

variable {store : Store} {type : MessageType}

/-- The wire form of a well-typed message can be merged into any message of its type. -/
theorem yields_merge (sound : store.Sound) (held : store.Holds type)
    (own : store.OwnCodecs type) {source target : Message}
    (wellTyped : source.WellTyped store.catalog maxNesting) (source_type : source.type = type)
    (shaped : target.Shaped) (target_type : target.type = type) {bytes : Bytes}
    (small : bytes.length < UInt64.size) (written : source.wireForm store.catalog = .ok bytes) :
    Yields store (type.merge target bytes) (overlay target source, none) := by
  subst source_type
  obtain ⟨table, found, -⟩ := wellTyped_iff.1 wellTyped
  have answered := Coding.yields_table sound held
  rw [found] at answered
  -- merging starts with all levels open, as far as messages may nest
  have leaves := wellTyped.leaves sound held own found small written ⟨shaped, target_type⟩
  rw [merge, if_neg (not_not_intro target_type)]
  exact answered.bind (leaves.1.bind (yields_pure _))

/-- The wire form of a well-typed message can be read. -/
theorem yields_decode (sound : store.Sound) (held : store.Holds type)
    (own : store.OwnCodecs type) {source : Message}
    (wellTyped : source.WellTyped store.catalog maxNesting) (source_type : source.type = type)
    {bytes : Bytes} (small : bytes.length < UInt64.size)
    (written : source.wireForm store.catalog = .ok bytes) :
    Yields store (type.decode bytes) (.ok (overlay type.newMessage source)) :=
  (yields_merge sound held own wellTyped source_type type.shaped_newMessage rfl small written).bind
    (yields_pure _)

end MessageType

end ProtoWire
