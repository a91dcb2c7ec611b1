import ProtoWire.Proofs.Message.Item
import ProtoWire.Proofs.Wire.Values

/-!
# The form of items

Behind its start tag, an item is a sequence of fields in any order, tags with their values, up to
the end tag. Of the fields that name an extension the last one counts, and so does the last one of
those that hold a message; all other fields, among them fields of the same numbers with other wire
types, say nothing. Main statement: an item is read just if it has this form, and what is read is
what its fields say (`readItem_eq_ok_iff_fields`).
-/

set_option autoImplicit false

namespace ProtoWire

variable {depth word : Nat} {form : Bytes}

/-! ## Fields -/

/-- A tag and a value behind it in which at most `depth` groups are open at a time. -/
structure IsField (depth : Nat) (field : TaggedValue) : Prop where
  tag : IsTag field.number field.wire field.tag
  value : IsValue depth field.number field.wire field.value

/-- The records of the grammar are the fields. -/
theorem isRecord_iff_isField {record : Bytes} :
    IsRecord Eq depth record ↔
      ∃ field : TaggedValue, field.bytes = record ∧ IsField depth field := by
  rw [isRecord_iff]
  constructor
  · rintro ⟨number, wire, value, tag, skips⟩
    obtain ⟨head, rfl, isTag⟩ := Tag.read_eq_ok_iff.1 tag
    obtain ⟨whole, same, isValue⟩ := skipValue_eq_ok_iff.1 skips
    rw [List.append_nil] at same
    exact ⟨⟨number, wire, head, value⟩, rfl, isTag, same ▸ isValue⟩
  · rintro ⟨field, rfl, isTag, isValue⟩
    have skips := isValue.skips []
    rw [List.append_nil] at skips
    exact ⟨field.number, field.wire, field.value, Tag.read_of_isTag isTag _, skips⟩

/-- A list of records is a list of tagged values in their forms. -/
theorem forall_isRecord_iff {records : List Bytes} :
    (∀ record ∈ records, IsRecord Eq depth record) ↔
      ∃ fields : List TaggedValue, fields.map TaggedValue.bytes = records ∧
        ∀ field ∈ fields, IsField depth field := by
  constructor
  · intro all
    induction records with
    | nil => exact ⟨[], rfl, by simp⟩
    | cons record records ih =>
        rw [List.forall_mem_cons] at all
        obtain ⟨field, rfl, isField⟩ := isRecord_iff_isField.1 all.1
        obtain ⟨fields, rfl, all'⟩ := ih all.2
        exact ⟨field :: fields, rfl, List.forall_mem_cons.2 ⟨isField, all'⟩⟩
  · rintro ⟨fields, rfl, all⟩ record mem
    obtain ⟨field, among, rfl⟩ := List.mem_map.1 mem
    exact isRecord_iff_isField.2 ⟨field, rfl, all field among⟩

/-! ## Parts -/

/-- What stands behind the word at the front of some bytes, which ends with the first byte without
the high bit. -/
def afterWord (bytes : Bytes) : Bytes :=
  (bytes.dropWhile fun byte => 128 ≤ byte.toNat).tail

/-- The digits of a varint say its word. -/
theorem IsVarint.base128_eq (h : IsVarint word form) : base128 form = word := by
  obtain ⟨front, last, rfl, isForm⟩ := h
  exact isForm.value

theorem IsVarint.afterWord_append (h : IsVarint word form) (bytes : Bytes) :
    afterWord (form ++ bytes) = bytes := by
  obtain ⟨front, last, rfl, isForm⟩ := h
  have ended := isForm.ended
  rw [afterWord, List.append_assoc, List.dropWhile_append_of_pos (by simpa using isForm.continued),
    List.singleton_append, List.dropWhile_cons_of_neg (by simpa using ended), List.tail_cons]

namespace TaggedValue

/-- The number of the extension, if the field names one: the low 32 bits of its word. -/
def typeNumber? (field : TaggedValue) : Option Nat :=
  if field.number = MessageOf.itemTypeNumber ∧ field.wire = .varint then
    some (base128 field.value % UInt32.size)
  else none

/-- The encoding of the message, if the field holds one: what is behind its length. -/
def body? (field : TaggedValue) : Option Bytes :=
  if field.number = MessageOf.itemMessageNumber ∧ field.wire = .lengthDelimited then
    some (afterWord field.value)
  else none

end TaggedValue

/-- What some fields say of an item: the last number and the last message, if both are there. -/
def itemOf? (fields : List TaggedValue) : Option (Nat × Bytes) :=
  match (fields.filterMap TaggedValue.typeNumber?).getLast?,
    (fields.filterMap TaggedValue.body?).getLast? with
  | some number, some body => some (number, body)
  | _, _ => none

namespace MessageOf

/-- A field puts the parts that it has in the place of earlier ones. -/
theorem ItemParts.add_bytes {field : TaggedValue} (h : IsField depth field) (parts : ItemParts) :
    parts.add field.bytes =
      ⟨field.typeNumber?.or parts.typeNumber, field.body?.or parts.body⟩ := by
  obtain ⟨number, wire, tag, value⟩ := field
  obtain ⟨isTag, isValue⟩ := h
  rw [add, TaggedValue.bytes, Tag.read_of_isTag isTag]
  simp only [TaggedValue.typeNumber?, TaggedValue.body?]
  split
  · next type =>
      obtain ⟨rfl, rfl⟩ := type
      cases isValue with
      | varint form =>
          have read := Varint.read_of_isVarint form []
          rw [List.append_nil] at read
          simp [read, form.base128_eq]
  · split
    · next message =>
        obtain ⟨rfl, rfl⟩ := message
        cases isValue with
        | @delimited _ _ length body form =>
            have split := Bytes.split?_append body []
            rw [List.append_nil] at split
            simp [Payload.readDelimited, Varint.read_of_isVarint form, split,
              form.afterWord_append, Except.toOption]
    · rfl

/-- Each number and each body replaces the one before, so that the last ones stay. -/
theorem foldl_add_bytes {fields : List TaggedValue} (all : ∀ field ∈ fields, IsField depth field)
    (parts : ItemParts) :
    (fields.map TaggedValue.bytes).foldl ItemParts.add parts =
      ⟨(fields.filterMap TaggedValue.typeNumber?).getLast?.or parts.typeNumber,
        (fields.filterMap TaggedValue.body?).getLast?.or parts.body⟩ := by
  induction fields generalizing parts with
  | nil => rfl
  | cons field fields ih =>
      rw [List.forall_mem_cons] at all
      rw [List.map_cons, List.foldl_cons, ItemParts.add_bytes all.1, ih all.2]
      simp only [List.filterMap_cons]
      -- the parts of the fields behind are looked for before those of the first field
      cases field.typeNumber? <;> cases field.body? <;>
        simp only [List.getLast?_cons, Option.none_or, Option.some_or, Option.or_some]

theorem found_foldl_add_bytes {fields : List TaggedValue}
    (all : ∀ field ∈ fields, IsField depth field) :
    ((fields.map TaggedValue.bytes).foldl ItemParts.add ⟨none, none⟩).found = itemOf? fields := by
  rw [foldl_add_bytes all, Option.or_none, Option.or_none, itemOf?, ItemParts.found.eq_def]
  cases (fields.filterMap TaggedValue.typeNumber?).getLast? <;>
    cases (fields.filterMap TaggedValue.body?).getLast? <;> rfl

/-- An item is read just if it consists of fields up to its end tag, in which the groups nest no
deeper than allowed. Nothing behind the end tag is read, and what is read is the last number and
the last message among the fields. -/
theorem readItem_eq_ok_iff_fields (depth : Nat) (bytes rest : Bytes) (item : Option (Nat × Bytes)) :
    readItem depth bytes = .ok (item, rest) ↔
      ∃ (fields : List TaggedValue) (stop : Bytes),
        bytes = fields.flatMap TaggedValue.bytes ++ stop ++ rest ∧
          (∀ field ∈ fields, IsField depth field) ∧ IsTag itemNumber .endGroup stop ∧
          item = itemOf? fields := by
  rw [readItem_eq_ok_iff_records]
  constructor
  · rintro ⟨records, stop, same, all, last, rfl⟩
    obtain ⟨fields, rfl, all'⟩ := forall_isRecord_iff.1 all
    exact ⟨fields, stop, same, all', Tag.read_eq_ok_nil_iff.1 last, found_foldl_add_bytes all'⟩
  · rintro ⟨fields, stop, same, all, last, rfl⟩
    exact ⟨_, stop, same, forall_isRecord_iff.2 ⟨fields, rfl, all⟩, Tag.read_eq_ok_nil_iff.2 last,
      found_foldl_add_bytes all⟩

-- a field of number two that is no word, a group that holds a number, two numbers and a message
example : readItem 1 [0x12, 1, 5, 0x0b, 0x10, 9, 0x0c, 0x10, 5, 0x1a, 1, 42, 0x10, 6, 0x0c, 0xff] =
    .ok (some (6, [42]), [0xff]) := rfl

end MessageOf

end ProtoWire
