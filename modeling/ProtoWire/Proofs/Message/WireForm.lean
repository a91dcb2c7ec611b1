import Mathlib.Data.List.Forall2
import ProtoWire.Message.Marshal
import ProtoWire.Proofs.Message.Tree
import ProtoWire.Proofs.Registry.Catalog

/-!
# Wire forms

The wire form of a message is what its encoding is meant to be: its pieces one after the other,
where each nested message stands behind the length of its own wire form (`FieldCodec.wireNested`,
`MessageOf.wireItem`). No size is worked out and no cache is looked at. `wireForm_eq` is the
equation of the recursion, and `wireForm_uncached` says that size caches do not matter.
-/

set_option autoImplicit false

namespace ProtoWire

/-! ## Pieces -/

/-- The bytes of a part of a message, or why it has none. -/
abbrev Piece := Except Unencodable Bytes

namespace Piece

/-- Pieces one after the other, or the error of the first piece that is one. -/
def join : List Piece → Piece
  | [] => .ok []
  | .error error :: _ => .error error
  | .ok bytes :: pieces =>
      match join pieces with
      | .error error => .error error
      | .ok rest => .ok (bytes ++ rest)

/-- The same piece seen from one level further out. -/
def under (step : PathStep) (piece : Piece) : Piece :=
  piece.mapError (·.under step)

@[simp]
theorem under_ok (step : PathStep) (bytes : Bytes) : under step (.ok bytes) = .ok bytes := rfl

@[simp]
theorem under_error (step : PathStep) (error : Unencodable) :
    under step (.error error) = .error (error.under step) := rfl

theorem under_eq_ok_iff {step : PathStep} {piece : Piece} {bytes : Bytes} :
    under step piece = .ok bytes ↔ piece = .ok bytes := by
  cases piece <;> simp

@[simp]
theorem join_nil : join [] = .ok [] := rfl

/-- Pieces can be joined if each of them could be written. -/
theorem join_cons_eq_ok_iff {piece : Piece} {pieces : List Piece} {bytes : Bytes} :
    join (piece :: pieces) = .ok bytes ↔
      ∃ first rest, piece = .ok first ∧ join pieces = .ok rest ∧ bytes = first ++ rest := by
  cases piece with
  | error error => simp [join]
  | ok first =>
      rw [join]
      cases join pieces with
      | error error => simp
      | ok rest => simp [eq_comm]

/-- Joining may be done in two parts. -/
theorem join_append {left right : List Piece} :
    join (left ++ right) = join [join left, join right] := by
  induction left with
  | nil =>
      cases joined : join right with
      | error error => simp [join, joined]
      | ok bytes => simp [join, joined]
  | cons piece left ih =>
      cases piece with
      | error error => simp [join]
      | ok first =>
          rw [List.cons_append, join, ih]
          -- an error of the left pieces comes first, whatever the right ones are
          cases joined : join left with
          | error error => simp [join, joined]
          | ok bytes =>
              cases joined' : join right with
              | error error => simp [join, joined]
              | ok rest => simp [join, joined]

theorem join_append_eq_ok_iff {left right : List Piece} {bytes : Bytes} :
    join (left ++ right) = .ok bytes ↔
      ∃ first rest, join left = .ok first ∧ join right = .ok rest ∧ bytes = first ++ rest := by
  rw [join_append, join_cons_eq_ok_iff]
  constructor
  · rintro ⟨first, rest, eq, joined, rfl⟩
    obtain ⟨last, nothing, eq', joined', rfl⟩ := join_cons_eq_ok_iff.1 joined
    cases joined'
    exact ⟨first, last, eq, eq', by rw [List.append_nil]⟩
  · rintro ⟨first, rest, eq, eq', rfl⟩
    have joined := join_cons_eq_ok_iff.2 ⟨rest, [], eq', join_nil, rfl⟩
    exact ⟨first, rest ++ [], eq, joined, by rw [List.append_nil]⟩

/-- The parts of joined pieces are the forms of the items, one by one. -/
theorem join_map_eq_ok_iff {α : Type} {piece : α → Piece} {items : List α} {bytes : Bytes} :
    join (items.map piece) = .ok bytes ↔
      ∃ parts : List Bytes, List.Forall₂ (fun item part => piece item = .ok part) items parts ∧
        bytes = parts.flatten := by
  induction items generalizing bytes with
  | nil => simp [eq_comm]
  | cons item items ih =>
      rw [List.map_cons, join_cons_eq_ok_iff]
      constructor
      · rintro ⟨first, rest, eq, joined, rfl⟩
        obtain ⟨parts, all, rfl⟩ := ih.1 joined
        exact ⟨first :: parts, .cons eq all, rfl⟩
      · rintro ⟨parts, all, rfl⟩
        cases all with
        | @cons _ first _ parts eq all =>
            exact ⟨first, parts.flatten, eq, ih.2 ⟨parts, all, rfl⟩, rfl⟩

theorem exists_join_map {α : Type} {piece : α → Piece} {items : List α}
    (h : ∀ item ∈ items, ∃ bytes, piece item = .ok bytes) :
    ∃ bytes, join (items.map piece) = .ok bytes := by
  induction items with
  | nil => exact ⟨[], rfl⟩
  | cons item items ih =>
      obtain ⟨first, eq⟩ := h item List.mem_cons_self
      obtain ⟨rest, joined⟩ := ih fun other mem => h other (List.mem_cons_of_mem _ mem)
      exact ⟨first ++ rest, join_cons_eq_ok_iff.2 ⟨first, rest, eq, joined, rfl⟩⟩

/-- Steps of paths show in errors only. -/
theorem join_map_under_eq_ok_iff {α : Type} {piece : α → Piece} {step : α → PathStep}
    {items : List α} {bytes : Bytes} :
    join (items.map fun item => (piece item).under (step item)) = .ok bytes ↔
      join (items.map piece) = .ok bytes := by
  simp only [join_map_eq_ok_iff, under_eq_ok_iff]

/-- Things with empty pieces can be left out. -/
theorem join_map_filter {α : Type} {piece : α → Piece} {items : List α} {keep : α → Bool}
    (dropped : ∀ item ∈ items, keep item = false → piece item = .ok []) :
    join ((items.filter keep).map piece) = join (items.map piece) := by
  induction items with
  | nil => rfl
  | cons item items ih =>
      have rest := ih fun other mem => dropped other (List.mem_cons_of_mem _ mem)
      -- what is kept has the same piece on both sides, what is dropped has an empty one
      cases kept : keep item with
      | true =>
          rw [List.filter_cons_of_pos kept, List.map_cons, List.map_cons]
          cases piece item with
          | error error => rfl
          | ok bytes => rw [join, join, rest]
      | false =>
          rw [List.filter_cons_of_neg (by simp [kept]), List.map_cons,
            dropped item List.mem_cons_self kept, rest, join]
          cases join (items.map piece) <;> rfl

/-- The pieces of a list, each seen from its position. -/
def each {α : Type} (piece : α → Piece) (position : Nat) (items : List α) : List Piece :=
  (items.zipIdx position).map fun item => (piece item.1).under (.index item.2)

/-- Where an item stands only shows in errors. -/
theorem join_each_eq_ok_iff {α : Type} {piece : α → Piece} {position : Nat} {items : List α}
    {bytes : Bytes} :
    join (each piece position items) = .ok bytes ↔ join (items.map piece) = .ok bytes := by
  have values : (items.zipIdx position).map (fun item => piece item.1) = items.map piece :=
    List.map_map.symm.trans (congrArg (List.map piece) (List.zipIdx_map_fst position items))
  rw [each, join_map_under_eq_ok_iff, values]

end Piece

namespace Output

/-- The piece that an output is; what a failed one wrote does not count. -/
def toPiece (output : Output) : Piece :=
  match output.failure with
  | none => .ok output.bytes
  | some error => .error error

@[simp]
theorem toPiece_ofBytes (bytes : Bytes) : (ofBytes bytes).toPiece = .ok bytes := rfl

@[simp]
theorem toPiece_empty : empty.toPiece = .ok [] := rfl

@[simp]
theorem toPiece_fail (error : Unencodable) : (fail error).toPiece = .error error := rfl

@[simp]
theorem toPiece_failHere (fault : ValueFault) :
    (failHere fault).toPiece = .error (.here fault) := rfl

@[simp]
theorem toPiece_under (step : PathStep) (output : Output) :
    (output.under step).toPiece = output.toPiece.under step := by
  obtain ⟨bytes, failure⟩ := output
  cases failure <;> rfl

/-- Outputs one after the other are pieces joined. -/
theorem toPiece_andThen (first second : Output) :
    (first.andThen second).toPiece = Piece.join [first.toPiece, second.toPiece] := by
  obtain ⟨bytes, failure⟩ := first
  obtain ⟨bytes', failure'⟩ := second
  cases failure <;> cases failure' <;> simp [andThen, failed, toPiece, Piece.join]

/-- An output has failed if its piece is an error. -/
theorem failed_eq_true_iff {output : Output} :
    output.failed = true ↔ ∃ error, output.toPiece = .error error := by
  obtain ⟨bytes, failure⟩ := output
  cases failure <;> simp [failed, toPiece]

/-- A failed output is the piece it is, whatever was to follow. -/
theorem toPiece_of_failed {output : Output} (h : output.failed = true) (pieces : List Piece) :
    output.toPiece = .join (output.toPiece :: pieces) := by
  obtain ⟨error, eq⟩ := failed_eq_true_iff.1 h
  rw [eq, Piece.join]

/-- An output in front of others is one more piece. -/
theorem toPiece_andThen_join {first rest : Output} {pieces : List Piece}
    (h : rest.toPiece = .join pieces) :
    (first.andThen rest).toPiece = .join (first.toPiece :: pieces) := by
  rw [toPiece_andThen, h]
  -- nothing is written behind a failure
  cases first.toPiece with
  | error error => rfl
  | ok bytes =>
      simp only [Piece.join]
      cases Piece.join pieces with
      | error error => rfl
      | ok rest => simp [Piece.join]

end Output

/-! ## Fields -/

namespace FieldCodec

/-- One value of a message or group field, given the wire forms of messages. -/
def wireNested (form : Message → Piece) (codec : FieldCodec) : Value → Piece
  | .message inner =>
      if codec.valueType ≠ some inner.type then .error (.here .wrongMessageType)
      else
        match form inner with
        | .error error => .error error
        | .ok body =>
            if codec.kind = .group then .ok (codec.tag ++ body ++ codec.endTag)
            else .ok (codec.tag ++ Varint.write body.length ++ body)
  | _ => .error (.here (.wrongVariant codec.kind))

/-- The values of a list; the first has the given position. -/
def wireEach (form : Message → Piece) (codec : FieldCodec) (position : Nat)
    (items : List Value) : List Piece :=
  Piece.each (codec.wireNested form) position items

/-- A field with its tags. -/
def wire (form : Message → Piece) (codec : FieldCodec) (value : Value) : Piece :=
  if !codec.kind.isMessage then (codec.writeScalar value).toPiece
  else if codec.arrangement.isRepeated then
    match value with
    | .list items => .join (codec.wireEach form 0 items)
    | _ => .error (.here .notAList)
  else codec.wireNested form value

end FieldCodec

/-! ## Messages -/

namespace MessageOf

/-- An item holds a message of the type that its extension declares. -/
theorem itemMessage_eq_ok_iff {entry : Attached} {inner : Message} :
    itemMessage entry = .ok inner ↔
      entry.value = .message inner ∧ entry.type.valueType = some inner.type := by
  obtain ⟨type, value⟩ := entry
  cases value with
  | message message =>
      simp only [itemMessage]
      by_cases declared : type.valueType = some message.type
      · rw [if_pos declared]
        constructor
        · rintro ⟨⟩
          exact ⟨rfl, declared⟩
        · rintro ⟨eq, -⟩
          cases eq
          rfl
      · rw [if_neg declared]
        constructor
        · rintro ⟨⟩
        · rintro ⟨eq, declared'⟩
          cases eq
          exact absurd declared' declared
  | _ => simp [itemMessage]

theorem mem_messages_of_itemMessage {entry : Attached} {inner : Message}
    (h : itemMessage entry = .ok inner) : inner ∈ entry.value.messages := by
  rw [(itemMessage_eq_ok_iff.1 h).1, Value.messages_message]
  exact List.mem_singleton_self inner

/-- One item of a message set. -/
def wireItem (form : Message → Piece) (entry : Attached) : Piece :=
  match itemMessage entry with
  | .error fault => .error (.here fault)
  | .ok inner =>
      match form inner with
      | .error error => .error error
      | .ok body =>
          .ok (Tag.write itemNumber .startGroup ++
            (Tag.write itemTypeNumber .varint ++ Varint.write entry.type.number) ++
            (Tag.write itemMessageNumber .lengthDelimited ++ Varint.write body.length) ++
            body ++ Tag.write itemNumber .endGroup)

/-- One extension of a message of type `owner`. -/
def wireAttached (form : Message → Piece) (catalog : Catalog) (owner : MessageType)
    (entry : Attached) : Piece :=
  ((catalog.codec owner entry.type).wire form entry.value).under (.field entry.type.number)

/-- What a message holds in the field of an entry. -/
def wireSlot (form : Message → Piece) (message : Message) (entry : FieldEntry) : Piece :=
  match message.slot? entry.position with
  | none => .ok []
  | some value => (entry.codec.wire form value).under (.field entry.number)

/-- The pieces of a message before its unknown bytes, in the order in which they are written. -/
def wirePieces (form : Message → Piece) (catalog : Catalog) (table : FieldTable)
    (message : Message) : List Piece :=
  if table.isMessageSet then
    message.attachedByNumber.map fun entry =>
      (wireItem form entry).under (.field entry.type.number)
  else
    message.attachedByNumber.map (wireAttached form catalog message.type) ++
      table.writingOrder.map (wireSlot form message)

/-- A message, given the wire forms of the messages inside it. -/
def wireBody (form : Message → Piece) (catalog : Catalog) (message : Message) : Piece :=
  match catalog.table message.type with
  | .error _ => .error (.here .nestedTable)
  | .ok table =>
      .join (message.wirePieces form catalog table ++ [.ok (message.unknown.getD [])])

/-- The wire form of a message. -/
def wireForm (catalog : Catalog) (message : Message) : Piece :=
  message.wireBody
    (fun inner =>
      if inner.height < message.height then wireForm catalog inner else .ok [])
    catalog
termination_by message.height

/-- What encoding a message is meant to return. -/
def encoding (catalog : Catalog) (message : Message) : Except Failure Bytes :=
  match catalog.table message.type with
  | .error error => .error (.build error)
  | .ok _ => (message.wireForm catalog).mapError .encode

end MessageOf

/-! ## The forms of the messages inside -/

section

variable {form form' : Message → Piece}

theorem FieldCodec.wireNested_congr {codec : FieldCodec} {value : Value}
    (same : ∀ inner ∈ value.messages, form inner = form' inner) :
    codec.wireNested form value = codec.wireNested form' value := by
  cases value with
  | message inner => rw [wireNested, wireNested, same inner (by simp)]
  | _ => rfl

theorem FieldCodec.wireEach_congr {codec : FieldCodec} {items : List Value} (position : Nat)
    (same : ∀ item ∈ items, ∀ inner ∈ item.messages, form inner = form' inner) :
    codec.wireEach form position items = codec.wireEach form' position items := by
  apply List.map_congr_left
  intro item mem
  have inside := (List.mem_zipIdx mem).2.2
  rw [wireNested_congr (same item.1 (inside ▸ List.getElem_mem _))]

/-- The wire form of a value depends on the messages in it through their forms only. -/
theorem FieldCodec.wire_congr {codec : FieldCodec} {value : Value}
    (same : ∀ inner ∈ value.messages, form inner = form' inner) :
    codec.wire form value = codec.wire form' value := by
  simp only [wire, wireNested_congr same]
  -- only a list brings other messages than its own
  cases value with
  | list items =>
      simp only
      rw [wireEach_congr 0 fun item mem inner inside =>
        same inner (by simpa using ⟨item, mem, inside⟩)]
  | _ => rfl

/-- The same of an item of a message set. -/
theorem MessageOf.wireItem_congr {entry : Attached}
    (same : ∀ inner ∈ entry.value.messages, form inner = form' inner) :
    wireItem form entry = wireItem form' entry := by
  rw [wireItem, wireItem]
  cases held : itemMessage entry with
  | error fault => rfl
  | ok inner =>
      simp only [same inner (mem_messages_of_itemMessage held)]

theorem MessageOf.wireSlot_congr {a b : Message} {entry : FieldEntry}
    (same : a.slot? entry.position = b.slot? entry.position) :
    a.wireSlot form entry = b.wireSlot form entry := by
  rw [wireSlot, wireSlot, same]

/-- Only the forms of a message's children matter. -/
theorem MessageOf.wireBody_congr {catalog : Catalog} {message : Message}
    (same : ∀ inner ∈ message.children, form inner = form' inner) :
    message.wireBody form catalog = message.wireBody form' catalog := by
  -- the messages in extensions are children, and so are those in slots
  have attached : ∀ entry ∈ message.attachedByNumber, ∀ inner ∈ entry.value.messages,
      form inner = form' inner := fun entry mem inner inside =>
    same inner (mem_children_of_attached (mem_attachedByNumber.1 mem) inside)
  have pieces : ∀ table, message.wirePieces form catalog table =
      message.wirePieces form' catalog table := by
    intro table
    rw [wirePieces, wirePieces]
    congr 1
    · apply List.map_congr_left
      intro entry mem
      rw [wireItem_congr (attached entry mem)]
    · congr 1
      · apply List.map_congr_left
        intro entry mem
        rw [wireAttached, wireAttached, FieldCodec.wire_congr (attached entry mem)]
      · apply List.map_congr_left
        intro entry _
        rw [wireSlot, wireSlot]
        cases held : message.slot? entry.position with
        | none => rfl
        | some value =>
            simp only
            rw [FieldCodec.wire_congr fun inner inside =>
              same inner (mem_children_of_slot? held inside)]
  simp only [wireBody, pieces]

end

namespace MessageOf

/-- The wire form of a message is made of the wire forms of the messages inside it. -/
theorem wireForm_eq (catalog : Catalog) (message : Message) :
    message.wireForm catalog = message.wireBody (wireForm catalog) catalog := by
  rw [wireForm]
  apply wireBody_congr
  intro inner inside
  rw [if_pos (height_lt_of_mem inside)]

/-- The wire form of a message is its pieces in front of its unknown bytes. -/
theorem wireForm_eq_ok_iff {catalog : Catalog} {message : Message} {table : FieldTable}
    (found : catalog.table message.type = .ok table) {bytes : Bytes} :
    message.wireForm catalog = .ok bytes ↔
      ∃ front, Piece.join (message.wirePieces (wireForm catalog) catalog table) = .ok front ∧
        bytes = front ++ message.unknown.getD [] := by
  rw [wireForm_eq, wireBody, found]
  simp only
  -- the unknown bytes are the last piece
  rw [Piece.join_append_eq_ok_iff]
  constructor
  · rintro ⟨front, unknown, joined, rest, rfl⟩
    obtain ⟨_, _, ⟨⟩, ⟨⟩, rfl⟩ := Piece.join_cons_eq_ok_iff.1 rest
    exact ⟨front, joined, by rw [List.append_nil]⟩
  · rintro ⟨front, joined, rfl⟩
    have rest := Piece.join_cons_eq_ok_iff.2
      ⟨message.unknown.getD [], [], rfl, Piece.join_nil, rfl⟩
    exact ⟨front, _, joined, rest, by rw [List.append_nil]⟩

/-- A message without a table has no wire form. -/
theorem wireForm_of_error {catalog : Catalog} {message : Message} {error : Unbuildable}
    (h : catalog.table message.type = .error error) :
    message.wireForm catalog = .error (.here .nestedTable) := by
  rw [wireForm_eq, wireBody, h]

end MessageOf

/-! ## Size caches -/

@[simp]
theorem Kind.payload?_uncached (kind : Kind) (value : Value) :
    kind.payload? value.uncached = kind.payload? value := by
  cases value with
  | message message => rw [Value.uncached_message]; cases kind <;> rfl
  | list items => rw [Value.uncached_list]; cases kind <;> rfl
  | _ => rfl

namespace FieldCodec

variable (codec : FieldCodec)

/-- Only the payloads of scalars are written. -/
theorem payloads_map {change : Value → Value}
    (same : ∀ value, codec.kind.payload? (change value) = codec.kind.payload? value)
    (position : Nat) (items : List Value) :
    codec.payloads position (items.map change) = codec.payloads position items := by
  induction items generalizing position with
  | nil => rfl
  | cons item items ih => simp only [List.map_cons, payloads, payloadAt, same, ih]

theorem writeRecords_map {change : Value → Value}
    (same : ∀ value, codec.kind.payload? (change value) = codec.kind.payload? value)
    (position : Nat) (items : List Value) :
    codec.writeRecords position (items.map change) = codec.writeRecords position items := by
  induction items generalizing position with
  | nil => rfl
  | cons item items ih => simp only [List.map_cons, writeRecords, writeRecord, same, ih]

theorem wireEach_map {change : Value → Value} {form form' : Message → Piece}
    (same : ∀ value, codec.wireNested form (change value) = codec.wireNested form' value)
    (position : Nat) (items : List Value) :
    codec.wireEach form position (items.map change) = codec.wireEach form' position items := by
  simp only [wireEach, Piece.each, List.zipIdx_map, List.map_map]
  exact List.map_congr_left fun item _ => congrArg _ (same item.1)

/-- Scalars have no caches. -/
theorem writeScalar_uncached (value : Value) :
    codec.writeScalar value.uncached = codec.writeScalar value := by
  simp only [writeScalar, writeRecord, Kind.payload?_uncached]
  cases value with
  | message message => rw [Value.uncached_message]
  | list items =>
      rw [Value.uncached_list]
      have same := codec.kind.payload?_uncached
      simp only [writePacked, List.isEmpty_map, codec.payloads_map same,
        codec.writeRecords_map same]
  | _ => rfl

variable {form : Message → Piece}

theorem wireNested_uncached (value : Value) :
    codec.wireNested form value.uncached =
      codec.wireNested (fun inner => form inner.uncached) value := by
  cases value with
  | message inner =>
      rw [Value.uncached_message]
      simp only [wireNested, MessageOf.type_uncached]
  | list items => rw [Value.uncached_list]; rfl
  | _ => rfl

/-- The wire form of a value without caches is that of the value, where messages are written without
theirs. -/
theorem wire_uncached (value : Value) :
    codec.wire form value.uncached = codec.wire (fun inner => form inner.uncached) value := by
  simp only [wire, writeScalar_uncached, wireNested_uncached]
  cases value with
  | message inner => rw [Value.uncached_message]
  | list items =>
      rw [Value.uncached_list]
      simp only [codec.wireEach_map codec.wireNested_uncached]
  | _ => rfl

end FieldCodec

namespace MessageOf

variable {form : Message → Piece}

theorem wireItem_uncached (entry : Attached) :
    wireItem form entry.uncached = wireItem (fun inner => form inner.uncached) entry := by
  obtain ⟨type, value⟩ := entry
  cases value with
  | message inner =>
      simp only [wireItem, itemMessage, AttachedOf.uncached, Value.uncached_message,
        type_uncached]
      by_cases declared : type.valueType = some inner.type <;>
        simp only [declared, if_true, if_false]
  | list items =>
      simp only [wireItem, itemMessage, AttachedOf.uncached, Value.uncached_list]
  | _ => rfl

/-- The same of the content of a message. -/
theorem wireBody_uncached (catalog : Catalog) (message : Message) :
    message.uncached.wireBody form catalog =
      message.wireBody (fun inner => form inner.uncached) catalog := by
  -- each piece is written from the uncached value as it is from the value
  have pieces : ∀ table, message.uncached.wirePieces form catalog table =
      message.wirePieces (fun inner => form inner.uncached) catalog table := by
    intro table
    simp only [wirePieces, attachedByNumber_uncached, List.map_map, type_uncached]
    congr 1
    · apply List.map_congr_left
      intro entry _
      exact congrArg _ (wireItem_uncached entry)
    · congr 1
      · apply List.map_congr_left
        intro entry _
        exact congrArg _ ((catalog.codec message.type entry.type).wire_uncached entry.value)
      · apply List.map_congr_left
        intro entry _
        simp only [wireSlot, slot?_uncached]
        cases message.slot? entry.position with
        | none => rfl
        | some value => simp only [Option.map_some, entry.codec.wire_uncached]
  simp only [wireBody, type_uncached, unknown_uncached, pieces]

/-- Size caches, also those of nested messages, have no part in the wire form. -/
theorem wireForm_uncached (catalog : Catalog) (message : Message) :
    message.uncached.wireForm catalog = message.wireForm catalog := by
  induction message using MessageOf.induction with
  | step message ih =>
      rw [wireForm_eq, wireForm_eq catalog message, wireBody_uncached]
      -- the messages inside are emptied of sizes, too
      exact wireBody_congr ih

/-- The wire form does not depend on caches. -/
theorem wireForm_congr {catalog : Catalog} {a b : Message} (h : a.uncached = b.uncached) :
    a.wireForm catalog = b.wireForm catalog := by
  rw [← wireForm_uncached, h, wireForm_uncached]

end MessageOf

end ProtoWire
