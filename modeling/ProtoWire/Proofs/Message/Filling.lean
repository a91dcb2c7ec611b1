import ProtoWire.Proofs.Message.Shape

/-!
# Records of one field

The records that are written for a value of a field read back as that value: whatever the place
of the field held before, it holds afterwards what merging the value into it leaves
(`FieldCodec.fills_wire`). What nested messages leave when they are read back is a parameter.
-/

set_option autoImplicit false

namespace ProtoWire

open Coding (Yields yields_pure)

/-! ## Nested messages -/

/-- Merging the bytes of a message into a target leaves a message, both up to the end of the
bytes and, unless the type is that of a message set, up to the end tag of a group. -/
def Merger.Leaves (store : Store) (merge : Merger) (target : Message) (body : Bytes)
    (after : Message) : Prop :=
  Yields store (merge none target body) (after, .ok []) ∧
    (target.type.descriptor.messageSet = false → ∀ number, isFieldNumber number = true → ∀ rest,
      Yields store (merge (some number) target (body ++ (Tag.write number .endGroup ++ rest)))
        (after, .ok rest))

/-- The wire form of a nested message is read as what the field-wise merge leaves. -/
def ReadsBack (store : Store) (inside : Option Merger) (form : Message → Piece)
    (merged : Message → Message → Message) (inner : Message) : Prop :=
  ∃ merge, inside = some merge ∧
    ∀ body, form inner = .ok body → body.length < UInt64.size →
      ∀ target : Message, target.Shaped → target.type = inner.type →
        merge.Leaves store target body (merged target inner)

namespace Payload

theorem size_pos (payload : Payload) : 0 < payload.size := by
  cases payload with
  | varint word => exact Varint.size_pos _
  | delimited body => exact Nat.lt_of_lt_of_le (Varint.size_pos _) (Nat.le_add_right _ _)
  | _ => exact Nat.succ_pos _

theorem size_le_totalSize {payload : Payload} {payloads : List Payload} (h : payload ∈ payloads) :
    payload.size ≤ totalSize payloads := by
  induction payloads with
  | nil => simp at h
  | cons first payloads ih =>
      rw [totalSize]
      rcases List.mem_cons.1 h with rfl | mem
      · omega
      · have := ih mem
        omega

end Payload

namespace FieldCodec

/-! ## Filling a place -/

/-- The bytes are records of the field that turn what its place holds into the value. -/
inductive Fills (store : Store) (inside : Option Merger) (codec : FieldCodec) :
    Option Value → Bytes → Value → Prop
  | one {slot : Option Value} {wire : WireType} {payload : Bytes} {value : Value} :
      codec.accepts wire = true →
      (∀ rest, Yields store (codec.read inside wire slot (payload ++ rest))
        (some value, .ok rest)) →
      Fills store inside codec slot (Tag.write codec.number wire ++ payload) value
  | append {slot : Option Value} {front back : Bytes} {middle value : Value} :
      Fills store inside codec slot front middle →
      Fills store inside codec (some middle) back value →
      Fills store inside codec slot (front ++ back) value

/-- Whether nothing is written for a value. -/
def omits (codec : FieldCodec) (value : Value) : Bool :=
  value.isEmptyList ||
    (codec.arrangement == .implicit && (codec.kind.payload? value).any Payload.isZero)

section

variable {store : Store} {inside : Option Merger} {form : Message → Piece}
  {merged : Message → Message → Message} {codec : FieldCodec}

theorem mergeOver_of_payload? {kind : Kind} {value : Value} {payload : Payload}
    (h : kind.payload? value = some payload) (slot : Option Value) :
    value.mergeOver merged slot = value := by
  cases value with
  | message => cases kind <;> simp [Kind.payload?] at h
  | list => cases kind <;> simp [Kind.payload?] at h
  | _ => rfl

theorem fresh_of_payload? {kind : Kind} {value : Value} {payload : Payload}
    (h : kind.payload? value = some payload) : value.fresh merged = value := by
  cases value with
  | message => cases kind <;> simp [Kind.payload?] at h
  | _ => rfl

/-- Records that each add some items to a list add all of them together. -/
theorem fills_flatten {chunks : List (List Value)} {parts : List Bytes}
    (all : List.Forall₂ (fun chunk part => ∀ slot, Fills store inside codec slot part
      (.list ((slot.map Value.items).getD [] ++ chunk))) chunks parts)
    (nonempty : parts ≠ []) (slot : Option Value) :
    Fills store inside codec slot parts.flatten
      (.list ((slot.map Value.items).getD [] ++ chunks.flatten)) := by
  -- the place grows with each record, so the induction is for any place
  induction all generalizing slot with
  | nil => exact absurd rfl nonempty
  | @cons chunk part chunks parts first all ih =>
      cases all with
      | nil => simpa using first slot
      | cons next all =>
          have rest := ih (by simp) (some (.list ((slot.map Value.items).getD [] ++ chunk)))
          rw [List.flatten_cons]
          apply (first slot).append
          simpa [Value.items] using rest

/-- Items are added one record after the other. -/
theorem fills_items {piece : Value → Piece} {items : List Value} {parts : List Bytes}
    (all : List.Forall₂ (fun item part => piece item = .ok part) items parts)
    (nonempty : items ≠ [])
    (record : ∀ item ∈ items, ∀ part ∈ parts, piece item = .ok part → ∀ slot,
      Fills store inside codec slot part
        (.list ((slot.map Value.items).getD [] ++ [item.fresh merged]))) (slot : Option Value) :
    Fills store inside codec slot parts.flatten
      (.list ((slot.map Value.items).getD [] ++ items.map (Value.fresh merged))) := by
  have each : List.Forall₂ (fun chunk part => ∀ slot, Fills store inside codec slot part
      (.list ((slot.map Value.items).getD [] ++ chunk)))
      (items.map fun item => [item.fresh merged]) parts := by
    rw [List.forall₂_map_left_iff, List.forall₂_iff_zip]
    refine ⟨all.length_eq, fun {item part} mem => ?_⟩
    obtain ⟨mem', mem''⟩ := List.of_mem_zip mem
    exact record item mem' part mem'' (List.forall₂_zip all mem)
  have some' : parts ≠ [] := by
    rintro rfl
    exact nonempty (List.forall₂_nil_right_iff.1 all)
  have filled := fills_flatten each some' slot
  rwa [← List.flatMap_def, ← List.map_eq_flatMap] at filled

/-! ## Scalars -/

theorem wireType_eq (h : codec.arrangement ≠ .packed) : codec.wireType = codec.kind.wireType := by
  rw [wireType]
  split
  · contradiction
  · rfl

theorem accepts_kind (codec : FieldCodec) : codec.accepts codec.kind.wireType = true := by
  simp [accepts]

theorem fits_of_size_lt {payload : Payload} (h : payload.size < UInt64.size) : payload.fits := by
  cases payload with
  | delimited body =>
      rw [Payload.size] at h
      rw [Payload.fits]
      omega
  | _ => trivial

/-- A scalar that is no item of a list. -/
theorem fills_single {value : Value} {payload : Payload} (scalar : codec.kind.isMessage = false)
    (single : codec.arrangement.isRepeated = false)
    (h : codec.kind.payload? value = some payload) (fits : payload.fits) (slot : Option Value) :
    Fills store inside codec slot (codec.tag ++ payload.write) value := by
  have unpacked : codec.arrangement ≠ .packed := by
    intro eq
    simp [eq, Arrangement.isRepeated] at single
  rw [tag, wireType_eq unpacked]
  refine .one codec.accepts_kind fun rest => ?_
  rw [read, if_pos (by simp [scalar]), readScalar, single, Kind.read_write h fits]
  exact yields_pure _

/-- A scalar in a record of its own is added to a list, whether or not its values are written in
one record. -/
theorem fills_item {value : Value} {payload : Payload} (scalar : codec.kind.isMessage = false)
    (repeated : codec.arrangement.isRepeated = true)
    (h : codec.kind.payload? value = some payload) (fits : payload.fits) (slot : Option Value) :
    Fills store inside codec slot (Tag.write codec.number codec.kind.wireType ++ payload.write)
      (.list ((slot.map Value.items).getD [] ++ [value])) := by
  -- no packable kind is delimited, so the record is not taken for a packed one
  have unpackable : ¬(codec.kind.wireType = .lengthDelimited ∧ codec.kind.isPackable = true) := by
    rintro ⟨wire, packable⟩
    cases kind : codec.kind <;> simp [kind, Kind.wireType, Kind.isPackable] at wire packable
  refine .one codec.accepts_kind fun rest => ?_
  rw [read, if_pos (by simp [scalar]), readScalar, if_pos repeated, readItems, if_neg unpackable,
    Kind.read_write h fits]
  exact yields_pure _

theorem readPacked_write {kind : Kind} {items : List Value} {payloads : List Payload}
    (all : List.Forall₂ (fun item payload => kind.payload? item = some payload) items payloads)
    (fits : ∀ payload ∈ payloads, payload.fits) {position limit : Nat}
    (enough : (payloads.flatMap Payload.write).length ≤ limit) :
    readPacked kind position limit (payloads.flatMap Payload.write) = (items, none) := by
  -- each value takes at least one byte of the limit
  induction all generalizing position limit with
  | nil => cases limit <;> rfl
  | @cons item payload items payloads eq all ih =>
      rw [List.flatMap_cons, List.length_append] at enough
      have some' := Payload.size_pos payload
      rw [Payload.length_write] at enough
      obtain ⟨limit, rfl⟩ : ∃ fewer, limit = fewer + 1 := ⟨limit - 1, by omega⟩
      have rest : readPacked kind (position + 1) limit (payloads.flatMap Payload.write) =
          (items, none) :=
        ih (fun other mem => fits other (List.mem_cons_of_mem _ mem)) (by omega)
      have first := Kind.read_write eq (fits payload List.mem_cons_self)
        (payloads.flatMap Payload.write)
      rw [List.flatMap_cons]
      rw [← Payload.length_write] at some'
      cases bytes : payload.write with
      | nil => simp [bytes] at some'
      | cons byte front =>
          rw [bytes] at first
          rw [List.cons_append] at first ⊢
          rw [readPacked, first]
          simp only [rest]

/-- Scalars in one record are added to a list, whether or not its values are written so. -/
theorem fills_packed {items : List Value} {payloads : List Payload}
    (scalar : codec.kind.isMessage = false) (repeated : codec.arrangement.isRepeated = true)
    (packable : codec.kind.isPackable = true)
    (all : List.Forall₂ (fun item payload => codec.kind.payload? item = some payload)
      items payloads) (small : Payload.totalSize payloads < UInt64.size) (slot : Option Value) :
    Fills store inside codec slot
      (Tag.write codec.number .lengthDelimited ++
        (Varint.write (Payload.totalSize payloads) ++ payloads.flatMap Payload.write))
      (.list ((slot.map Value.items).getD [] ++ items)) := by
  -- no payload is larger than all of them
  have fits : ∀ payload ∈ payloads, payload.fits := by
    intro payload mem
    have := Payload.size_le_totalSize mem
    exact fits_of_size_lt (by omega)
  refine .one (by simp [accepts, repeated, packable]) fun rest => ?_
  have delimited : Payload.readDelimited (Varint.write (Payload.totalSize payloads) ++
      payloads.flatMap Payload.write ++ rest) = .ok (payloads.flatMap Payload.write, rest) := by
    rw [← Payload.length_flatMap_write] at small ⊢
    rw [Payload.readDelimited, List.append_assoc, Varint.read_write small]
    simp only [Bytes.split?_append]
  rw [read, if_pos (by simp [scalar]), readScalar, if_pos repeated, readItems,
    if_pos ⟨rfl, packable⟩, delimited]
  simp only [readPacked_write all fits (Nat.le_refl _)]
  exact yields_pure _

theorem map_fresh_of_payloads {items : List Value} {payloads : List Payload}
    (all : List.Forall₂ (fun item payload => codec.kind.payload? item = some payload)
      items payloads) : items.map (Value.fresh merged) = items := by
  induction all with
  | nil => rfl
  | cons eq _ ih => rw [List.map_cons, ih, fresh_of_payload? eq]

/-- What is written for a value of a scalar field reads back as the value. -/
theorem fills_writeScalar {assertion : Message → Prop} {value : Value} {bytes : Bytes}
    (legal : codec.Legal) (scalar : codec.kind.isMessage = false)
    (fits : codec.Fits assertion value) (h : (codec.writeScalar value).toPiece = .ok bytes)
    (written : codec.omits value = false) (small : bytes.length < UInt64.size)
    (slot : Option Value) : Fills store inside codec slot bytes (value.mergeOver merged slot) := by
  rw [omits, Bool.or_eq_false_iff] at written
  obtain ⟨nonempty, nonzero⟩ := written
  -- the arrangement says what is written: one record, none, or one for all items or for each
  cases arrangement : codec.arrangement with
  | implicit =>
      have single : codec.arrangement.isRepeated = false := by rw [arrangement]; rfl
      obtain ⟨payload, eq⟩ := fits.exists_payload scalar single
      have given : payload.isZero = false := by simpa [arrangement, eq] using nonzero
      simp only [writeScalar, arrangement, eq, given, Bool.false_eq_true, if_false,
        Output.toPiece_ofBytes, Except.ok.injEq] at h
      subst h
      rw [List.length_append, Payload.length_write] at small
      rw [mergeOver_of_payload? eq]
      exact fills_single scalar single eq (fits_of_size_lt (by omega)) slot
  | explicit =>
      have single : codec.arrangement.isRepeated = false := by rw [arrangement]; rfl
      obtain ⟨payload, eq⟩ := fits.exists_payload scalar single
      simp only [writeScalar, arrangement, toPiece_writeRecord eq, Except.ok.injEq] at h
      subst h
      rw [List.length_append, Payload.length_write] at small
      rw [mergeOver_of_payload? eq]
      exact fills_single scalar single eq (fits_of_size_lt (by omega)) slot
  | packed =>
      obtain ⟨items, payloads, rfl, all⟩ := fits.exists_payloads scalar (by rw [arrangement]; rfl)
      have some' : items ≠ [] := by
        rintro rfl
        simp [Value.isEmptyList] at nonempty
      simp only [writeScalar, arrangement, toPiece_writePacked all some', Except.ok.injEq] at h
      subst h
      rw [List.length_append, Payload.length_flatMap_write] at small
      have repeated : codec.arrangement.isRepeated = true := by rw [arrangement]; rfl
      have wire : codec.wireType = .lengthDelimited := by rw [wireType, arrangement]
      rw [Value.mergeOver, map_fresh_of_payloads all, List.append_assoc, tag, wire]
      exact fills_packed scalar repeated (legal.packable arrangement) all (by omega) slot
  | expanded =>
      have repeated : codec.arrangement.isRepeated = true := by rw [arrangement]; rfl
      obtain ⟨items, rfl, each⟩ := (fits_iff_items repeated).1 fits
      have some' : items ≠ [] := by
        rintro rfl
        simp [Value.isEmptyList] at nonempty
      simp only [writeScalar, arrangement, toPiece_writeRecords] at h
      obtain ⟨parts, all, rfl⟩ := Piece.join_map_eq_ok_iff.1 (Piece.join_each_eq_ok_iff.1 h)
      refine fills_items all some' (fun item mem part mem' eq slot => ?_) slot
      obtain ⟨payload, eq'⟩ := (each item mem).exists_payload scalar
      rw [toPiece_writeRecord eq', Except.ok.injEq] at eq
      subst eq
      -- no part is longer than all of them together
      have shorter := (List.sublist_flatten_of_mem mem').length_le
      rw [List.length_append, Payload.length_write] at shorter
      rw [fresh_of_payload? eq', tag, wireType_eq (by simp [arrangement])]
      exact fills_item scalar repeated eq' (fits_of_size_lt (by omega)) slot

/-! ## Messages and groups -/

theorem wireType_of_isMessage (legal : codec.Legal) (nested : codec.kind.isMessage = true) :
    codec.wireType = codec.kind.wireType := by
  apply wireType_eq
  intro packed
  have packable := legal.packable packed
  cases kind : codec.kind <;> simp [kind, Kind.isMessage, Kind.isPackable] at nested packable

/-- What is written for a nested message is its tag and what is read back into any message of
its type. -/
theorem exists_content {inner : Message} {bytes : Bytes} (legal : codec.Legal)
    (nested : codec.kind.isMessage = true)
    (group : codec.kind = .group → inner.type.descriptor.messageSet = false)
    (h : codec.wireNested form (.message inner) = .ok bytes) (small : bytes.length < UInt64.size)
    (back : ReadsBack store inside form merged inner) :
    ∃ content, bytes = codec.tag ++ content ∧
      ∀ target : Message, target.Shaped → target.type = inner.type → ∀ rest,
        Yields store (codec.readNested inside codec.kind.wireType target (content ++ rest))
          (merged target inner, .ok rest) := by
  obtain ⟨merge, rfl, leaves⟩ := back
  simp only [wireNested] at h
  split at h
  · simp at h
  · cases written : form inner with
    | error error => simp [written] at h
    | ok body =>
        simp only [written] at h
        -- a group is read up to its end tag, any other message to the end of its bytes
        by_cases framed : codec.kind = .group
        · rw [if_pos framed, Except.ok.injEq] at h
          subst h
          simp only [List.length_append] at small
          refine ⟨body ++ codec.endTag, by simp, fun target shaped type rest => ?_⟩
          obtain ⟨-, inGroup⟩ := leaves body written (by omega) target shaped type
          have start : codec.kind.wireType = .startGroup := by rw [framed]; rfl
          rw [readNested, if_pos start, List.append_assoc, endTag]
          exact inGroup (type ▸ group framed) codec.number legal.number rest
        · rw [if_neg framed, Except.ok.injEq] at h
          subst h
          simp only [List.length_append] at small
          refine ⟨Varint.write body.length ++ body, by simp, fun target shaped type rest => ?_⟩
          obtain ⟨toEnd, -⟩ := leaves body written (by omega) target shaped type
          have delimited : Payload.readDelimited (Varint.write body.length ++ body ++ rest) =
              .ok (body, rest) := by
            have fits : body.length < UInt64.size := by omega
            rw [Payload.readDelimited, List.append_assoc, Varint.read_write fits]
            simp only [Bytes.split?_append]
          have start : codec.kind.wireType ≠ .startGroup := by
            cases kind : codec.kind <;> simp [kind, Kind.isMessage] at nested framed
            simp [Kind.wireType]
          rw [readNested, if_neg start, delimited]
          exact toEnd.bind (yields_pure _)

/-- A message or group that is no item of a list. -/
theorem fills_nested {inner : Message} {bytes : Bytes} (legal : codec.Legal)
    (nested : codec.kind.isMessage = true) (single : codec.arrangement.isRepeated = false)
    (type : codec.valueType = some inner.type)
    (group : codec.kind = .group → inner.type.descriptor.messageSet = false)
    (h : codec.wireNested form (.message inner) = .ok bytes) (small : bytes.length < UInt64.size)
    (back : ReadsBack store inside form merged inner) {slot : Option Value}
    (shaped : ∀ value, slot = some value → value.Shaped) :
    Fills store inside codec slot bytes ((Value.message inner).mergeOver merged slot) := by
  obtain ⟨content, rfl, reads⟩ := exists_content legal nested group h small back
  rw [tag, wireType_of_isMessage legal nested]
  refine .one codec.accepts_kind fun rest => ?_
  -- what is merged into is the message that is there, or a new one
  have target := reads _ (shaped_startingMessage inner.type shaped) (by simp) rest
  rw [read, if_neg (by simp [nested]), type]
  simp only [single, Bool.false_eq_true, if_false]
  exact target.bind (yields_pure _)

/-- A message or group that is added to a list. -/
theorem fills_nestedItem {inner : Message} {bytes : Bytes} (legal : codec.Legal)
    (nested : codec.kind.isMessage = true) (repeated : codec.arrangement.isRepeated = true)
    (type : codec.valueType = some inner.type)
    (group : codec.kind = .group → inner.type.descriptor.messageSet = false)
    (h : codec.wireNested form (.message inner) = .ok bytes) (small : bytes.length < UInt64.size)
    (back : ReadsBack store inside form merged inner) (slot : Option Value) :
    Fills store inside codec slot bytes
      (.list ((slot.map Value.items).getD [] ++ [(Value.message inner).fresh merged])) := by
  obtain ⟨content, rfl, reads⟩ := exists_content legal nested group h small back
  rw [tag, wireType_of_isMessage legal nested]
  refine .one codec.accepts_kind fun rest => ?_
  -- an item is merged into a new message
  have target := reads _ inner.type.shaped_newMessage rfl rest
  rw [read, if_neg (by simp [nested]), type]
  simp only [repeated, if_true]
  exact target.bind (yields_pure _)

/-- What is written for a value of a field reads back as what merging the value leaves. -/
theorem fills_wire {assertion : Message → Prop} {value : Value} {bytes : Bytes}
    (legal : codec.Legal) (fits : codec.Fits assertion value)
    (h : codec.wire form value = .ok bytes) (written : codec.omits value = false)
    (small : bytes.length < UInt64.size)
    (back : ∀ inner ∈ value.messages, ReadsBack store inside form merged inner)
    {slot : Option Value} (shaped : ∀ value, slot = some value → value.Shaped) :
    Fills store inside codec slot bytes (value.mergeOver merged slot) := by
  cases nested : codec.kind.isMessage with
  | false =>
      simp only [wire, nested, Bool.not_false, if_true] at h
      exact fills_writeScalar legal nested fits h written small slot
  | true =>
      cases repeated : codec.arrangement.isRepeated with
      | false =>
          simp only [wire, nested, repeated, Bool.not_true, Bool.false_eq_true, if_false] at h
          obtain ⟨inner, rfl, type, group, -⟩ :=
            ((fits_iff_fitsOne repeated).1 fits).exists_message nested
          exact fills_nested legal nested repeated type group h small
            (back inner (by simp)) shaped
      | true =>
          obtain ⟨items, rfl, each⟩ := (fits_iff_items repeated).1 fits
          simp only [wire, nested, repeated, Bool.not_true, Bool.false_eq_true, if_false,
            if_true] at h
          obtain ⟨parts, all, rfl⟩ := Piece.join_map_eq_ok_iff.1 (Piece.join_each_eq_ok_iff.1 h)
          -- a list without items would be omitted
          have some' : items ≠ [] := by
            rintro rfl
            simp [omits, Value.isEmptyList] at written
          refine fills_items all some' (fun item mem part mem' eq slot => ?_) slot
          obtain ⟨inner, rfl, type, group, -⟩ := (each item mem).exists_message nested
          have shorter := (List.sublist_flatten_of_mem mem').length_le
          refine fills_nestedItem legal nested repeated type group eq (by omega) (back inner ?_)
            slot
          rw [Value.messages_list]
          exact List.mem_flatMap.2 ⟨_, mem, by simp⟩

/-- Nothing is written for a value that is omitted. -/
theorem wire_of_omits {assertion : Message → Prop} {value : Value} {bytes : Bytes}
    (fits : codec.Fits assertion value) (omitted : codec.omits value = true)
    (h : codec.wire form value = .ok bytes) : bytes = [] := by
  rw [omits, Bool.or_eq_true] at omitted
  -- either there is nothing to write, or only a zero that has no presence
  rcases omitted with empty | zero
  · rw [Value.isEmptyList_iff] at empty
    subst empty
    cases nested : codec.kind.isMessage with
    | false =>
        simp only [wire, nested, Bool.not_false, if_true] at h
        have none : codec.kind.payload? (.list []) = none := by
          cases codec.kind <;> rfl
        cases arrangement : codec.arrangement <;>
          simp [writeScalar, arrangement, writeRecord, writePacked, writeRecords, none] at h
        all_goals
          subst h
          rfl
    | true =>
        cases repeated : codec.arrangement.isRepeated with
        | false =>
            obtain ⟨inner, eq, -⟩ := ((fits_iff_fitsOne repeated).1 fits).exists_message nested
            simp at eq
        | true =>
            simp only [wire, nested, repeated, Bool.not_true, Bool.false_eq_true, if_false,
              if_true] at h
            cases h
            rfl
  · rw [Bool.and_eq_true] at zero
    obtain ⟨implicit, zero⟩ := zero
    obtain ⟨payload, eq, zero⟩ := (Option.any_eq_true _ _).1 zero
    have scalar : codec.kind.isMessage = false := by
      cases kind : codec.kind <;> first | rfl | simp [kind, Kind.payload?] at eq
    have arrangement : codec.arrangement = .implicit := by simpa using implicit
    simp only [wire, scalar, Bool.not_false, if_true, writeScalar, arrangement, eq, zero] at h
    cases h
    rfl

end

end FieldCodec

end ProtoWire
