import ProtoWire.Message.Marshal
import ProtoWire.Message.Merge
import ProtoWire.Proofs.Wire.Grammar

/-!
# Items of message sets

An item that was written reads back as the number and the message in it (`readItem_write`), and
reading an item takes bytes off the front only (`append_of_readItem`). What can be read as an item
are complete records up to an end tag (`readItem_eq_ok_iff_records`), and what is read of it is what
these records say (`isItem_iff`).
-/

set_option autoImplicit false

namespace ProtoWire.MessageOf

variable {depth : Nat}

/-- Reads one part of an item, or passes over another record, after the tag. -/
def readPart (depth number : Nat) (wire : WireType) (parts : ItemParts) (bytes : Bytes) :
    Except Malformed (ItemParts × Bytes) :=
  if number = 2 ∧ wire = .varint then
    match Varint.read bytes with
    | none => .error (.here .invalidVarint)
    | some (word, rest) => .ok ({ parts with typeNumber := some (word % UInt32.size) }, rest)
  else if number = 3 ∧ wire = .lengthDelimited then
    match Payload.readDelimited bytes with
    | .error fault => .error (.here fault)
    | .ok (body, rest) => .ok ({ parts with body := some body }, rest)
  else
    match skipValue depth number wire bytes with
    | .error error => .error error
    | .ok rest => .ok (parts, rest)

/-- The parts of an item are read one by one up to the end tag. -/
theorem readItemParts_succ {limit number : Nat} {wire : WireType} {parts : ItemParts}
    {bytes rest : Bytes} (nonempty : bytes ≠ []) (tag : Tag.read bytes = .ok (number, wire, rest)) :
    readItemParts depth (limit + 1) parts bytes =
      if number = 1 ∧ wire = .endGroup then .ok (parts, rest)
      else
        match readPart depth number wire parts rest with
        | .error error => .error error
        | .ok (parts, rest) => readItemParts depth limit parts rest := by
  cases bytes with
  | nil => exact absurd rfl nonempty
  | cons byte bytes =>
      rw [readItemParts]
      simp only [tag, readPart]
      -- the end tag, the number, the message, and any other record
      split
      · next eq => simp at eq
      · next eq =>
          simp only [Except.ok.injEq, Prod.mk.injEq] at eq
          obtain ⟨rfl, rfl, rfl⟩ := eq
          rfl
      · next eq =>
          simp only [Except.ok.injEq, Prod.mk.injEq] at eq
          obtain ⟨rfl, rfl, rfl⟩ := eq
          cases Varint.read rest <;> simp
      · next eq =>
          simp only [Except.ok.injEq, Prod.mk.injEq] at eq
          obtain ⟨rfl, rfl, rfl⟩ := eq
          cases Payload.readDelimited rest <;> simp
      · next ended type message eq =>
          simp only [Except.ok.injEq, Prod.mk.injEq] at eq
          obtain ⟨rfl, rfl, rfl⟩ := eq
          rw [if_neg fun is => ended is.1 is.2, if_neg fun is => type is.1 is.2,
            if_neg fun is => message is.1 is.2]
          cases skipValue depth number wire rest <;> rfl

theorem append_of_readPart {number : Nat} {wire : WireType} {parts after : ItemParts}
    {bytes rest : Bytes} (h : readPart depth number wire parts bytes = .ok (after, rest)) :
    ∃ front, bytes = front ++ rest ∧
      ∀ more, readPart depth number wire parts (front ++ more) = .ok (after, more) := by
  simp only [readPart] at h ⊢
  -- each of the three readers takes bytes off the front
  split at h
  · next type =>
      cases word : Varint.read bytes with
      | none => simp [word] at h
      | some taken =>
          obtain ⟨front, -, rfl, reads⟩ := Varint.append_of_read word
          simp only [word, Except.ok.injEq, Prod.mk.injEq] at h
          obtain ⟨rfl, rfl⟩ := h
          exact ⟨front, rfl, fun more => by rw [if_pos type, reads more]⟩
  · next type =>
      split at h
      · next message =>
          cases taken : Payload.readDelimited bytes with
          | error fault => simp [taken] at h
          | ok split =>
              obtain ⟨front, -, rfl, reads⟩ := Payload.append_of_readDelimited taken
              simp only [taken, Except.ok.injEq, Prod.mk.injEq] at h
              obtain ⟨rfl, rfl⟩ := h
              exact ⟨front, rfl, fun more => by rw [if_neg type, if_pos message, reads more]⟩
      · next message =>
          cases skipped : skipValue depth number wire bytes with
          | error error => simp [skipped] at h
          | ok rest' =>
              obtain ⟨front, rfl, skips⟩ := append_of_skipValue depth _ _ _ _ skipped
              simp only [skipped, Except.ok.injEq, Prod.mk.injEq] at h
              obtain ⟨rfl, rfl⟩ := h
              exact ⟨front, rfl, fun more => by rw [if_neg type, if_neg message, skips more]⟩

theorem append_of_readItemParts {limit : Nat} {parts after : ItemParts} {bytes rest : Bytes}
    (h : readItemParts depth limit parts bytes = .ok (after, rest)) :
    ∃ front, bytes = front ++ rest ∧
      ∀ more limit', front.length ≤ limit' →
        readItemParts depth limit' parts (front ++ more) = .ok (after, more) := by
  -- induction on the records that are left; the parts found so far differ from one to the next
  induction limit generalizing parts bytes with
  | zero => cases bytes <;> simp [readItemParts] at h
  | succ limit ih =>
      cases bytes with
      | nil => simp [readItemParts] at h
      | cons byte bytes =>
          cases tag : Tag.read (byte :: bytes) with
          | error fault => simp [readItemParts, tag] at h
          | ok taken =>
              obtain ⟨number, wire, inside⟩ := taken
              obtain ⟨head, nonempty, same, reads⟩ := Tag.append_of_read tag
              have positive := List.length_pos_iff.2 nonempty
              have nonempty' : ∀ more, head ++ more ≠ [] := by simp [nonempty]
              rw [readItemParts_succ (by simp) tag] at h
              rw [same]
              split at h
              · next ended =>
                  cases h
                  refine ⟨head, rfl, fun more limit' enough => ?_⟩
                  obtain ⟨fewer, rfl⟩ : ∃ fewer, limit' = fewer + 1 := ⟨limit' - 1, by omega⟩
                  rw [readItemParts_succ (nonempty' more) (reads more), if_pos ended]
              · next ended =>
                  cases part : readPart depth number wire parts inside with
                  | error error => simp [part] at h
                  | ok taken =>
                      obtain ⟨parts', inside'⟩ := taken
                      obtain ⟨front, rfl, part'⟩ := append_of_readPart part
                      simp only [part] at h
                      obtain ⟨others, rfl, others'⟩ := ih h
                      refine ⟨head ++ (front ++ others), by simp, fun more limit' enough => ?_⟩
                      simp only [List.length_append] at enough
                      obtain ⟨fewer, rfl⟩ : ∃ fewer, limit' = fewer + 1 := ⟨limit' - 1, by omega⟩
                      rw [List.append_assoc, List.append_assoc,
                        readItemParts_succ (nonempty' _) (reads _), if_neg ended, part']
                      exact others' more fewer (by omega)

/-- The number and the message of an item, if both were there. -/
def ItemParts.found : ItemParts → Option (Nat × Bytes)
  | ⟨some number, some body⟩ => some (number, body)
  | _ => none

theorem ItemParts.found_eq_some_iff {parts : ItemParts} {number : Nat} {body : Bytes} :
    parts.found = some (number, body) ↔ parts = ⟨some number, some body⟩ := by
  obtain ⟨type, message⟩ := parts
  cases type <;> cases message <;> simp [found]

theorem readItem_eq_ok_iff {bytes rest : Bytes} {item : Option (Nat × Bytes)} :
    readItem depth bytes = .ok (item, rest) ↔
      ∃ parts, readItemParts depth bytes.length ⟨none, none⟩ bytes = .ok (parts, rest) ∧
        parts.found = item := by
  have eq : readItem depth bytes =
      (readItemParts depth bytes.length ⟨none, none⟩ bytes).map fun taken =>
        (taken.1.found, taken.2) := by
    rw [readItem]
    split
    · next error taken => rw [taken]; rfl
    · next taken => rw [taken]; rfl
    · next incomplete taken =>
        rw [taken]
        simp only [Except.map, ItemParts.found]
  rw [eq]
  cases readItemParts depth bytes.length ⟨none, none⟩ bytes with
  | error error => simp [Except.map]
  | ok taken =>
      obtain ⟨parts, rest'⟩ := taken
      simp only [Except.map, Except.ok.injEq, Prod.mk.injEq]
      constructor
      · rintro ⟨found, rfl⟩
        exact ⟨parts, ⟨rfl, rfl⟩, found⟩
      · rintro ⟨_, ⟨rfl, rfl⟩, found⟩
        exact ⟨found, rfl⟩

/-- Reading an item takes bytes off the front only. -/
theorem append_of_readItem {bytes rest : Bytes} {item : Option (Nat × Bytes)}
    (h : readItem depth bytes = .ok (item, rest)) :
    ∃ front, bytes = front ++ rest ∧ ∀ more, readItem depth (front ++ more) = .ok (item, more) := by
  obtain ⟨parts, taken, found⟩ := readItem_eq_ok_iff.1 h
  obtain ⟨front, same, reads⟩ := append_of_readItemParts taken
  exact ⟨front, same, fun more =>
    readItem_eq_ok_iff.2 ⟨parts, reads more _ (by simp), found⟩⟩

/-! ## The records of an item -/

/-- The parts of an item after one more of its records. -/
def ItemParts.add (parts : ItemParts) (record : Bytes) : ItemParts :=
  match Tag.read record with
  | .error _ => parts
  | .ok (number, wire, value) =>
      if number = itemTypeNumber ∧ wire = .varint then
        { parts with typeNumber := (Varint.read value).map fun read => read.1 % UInt32.size }
      else if number = itemMessageNumber ∧ wire = .lengthDelimited then
        { parts with body := (Payload.readDelimited value).toOption.map Prod.fst }
      else parts

/-- A group of complete records, of which the last ones with the numbers of the parts name the
extension and hold its message. -/
def IsItem (number : Nat) (body record : Bytes) : Prop :=
  ∃ (start : Bytes) (records : List Bytes) (stop : Bytes),
    record = start ++ (records.flatten ++ stop) ∧
      Tag.read start = .ok (itemNumber, .startGroup, []) ∧
      (∀ inner ∈ records, Complete inner) ∧
      Tag.read stop = .ok (itemNumber, .endGroup, []) ∧
      records.foldl ItemParts.add ⟨none, none⟩ = ⟨some number, some body⟩

/-- One part is what one record adds. -/
theorem add_of_readPart {number : Nat} {wire : WireType} {parts after : ItemParts}
    {bytes rest : Bytes} (h : readPart depth number wire parts bytes = .ok (after, rest)) :
    ∃ value, bytes = value ++ rest ∧ ∀ tag, Tag.read tag = .ok (number, wire, []) →
      IsRecord Eq depth (tag ++ value) ∧ parts.add (tag ++ value) = after := by
  simp only [readPart] at h
  split at h
  · next type =>
      obtain ⟨rfl, rfl⟩ := type
      cases word : Varint.read bytes with
      | none => simp [word] at h
      | some taken =>
          obtain ⟨front, -, rfl, reads⟩ := Varint.append_of_read word
          have alone := reads []
          rw [List.append_nil] at alone
          simp only [word, Except.ok.injEq, Prod.mk.injEq] at h
          obtain ⟨rfl, rfl⟩ := h
          refine ⟨front, rfl, fun tag read => ⟨?_, ?_⟩⟩
          · have payload : Payload.read .varint front =
                .ok (.varint (UInt64.ofNat taken.1), []) := by
              rw [Payload.read, alone]
            exact .payload read payload
          · simp [ItemParts.add, Tag.read_append read front, itemTypeNumber, alone]
  · next type =>
      split at h
      · next message =>
          obtain ⟨rfl, rfl⟩ := message
          cases taken : Payload.readDelimited bytes with
          | error fault => simp [taken] at h
          | ok split =>
              obtain ⟨front, -, rfl, reads⟩ := Payload.append_of_readDelimited taken
              have alone := reads []
              rw [List.append_nil] at alone
              simp only [taken, Except.ok.injEq, Prod.mk.injEq] at h
              obtain ⟨rfl, rfl⟩ := h
              refine ⟨front, rfl, fun tag read => ⟨?_, ?_⟩⟩
              · have payload : Payload.read .lengthDelimited front =
                    .ok (.delimited split.1, []) := by
                  rw [Payload.read, alone]
                exact .payload read payload
              · simp [ItemParts.add, Tag.read_append read front, itemTypeNumber, itemMessageNumber,
                  alone, Except.toOption]
      · next message =>
          cases skipped : skipValue depth number wire bytes with
          | error error => simp [skipped] at h
          | ok rest' =>
              simp only [skipped, Except.ok.injEq, Prod.mk.injEq] at h
              obtain ⟨rfl, rfl⟩ := h
              obtain ⟨value, rfl, completes⟩ := completes_of_skipValue skipped
              refine ⟨value, rfl, fun tag read => ⟨completes tag read, ?_⟩⟩
              rw [ItemParts.add, Tag.read_append read value]
              exact (if_neg type).trans (if_neg message)

/-- What is read of an item are complete records, and its parts are what they add up to. -/
theorem exists_records_of_readItemParts {limit : Nat} {parts after : ItemParts}
    {bytes rest : Bytes} (h : readItemParts depth limit parts bytes = .ok (after, rest)) :
    ∃ (records : List Bytes) (stop : Bytes), bytes = records.flatten ++ stop ++ rest ∧
      (∀ record ∈ records, IsRecord Eq depth record) ∧
      Tag.read stop = .ok (itemNumber, .endGroup, []) ∧
      records.foldl ItemParts.add parts = after := by
  induction limit generalizing parts bytes with
  | zero => cases bytes <;> simp [readItemParts] at h
  | succ limit ih =>
      cases bytes with
      | nil => simp [readItemParts] at h
      | cons byte bytes =>
          cases tag : Tag.read (byte :: bytes) with
          | error fault => simp [readItemParts, tag] at h
          | ok taken =>
              obtain ⟨number, wire, inside⟩ := taken
              obtain ⟨head, -, same, reads⟩ := Tag.append_of_read tag
              have alone := reads []
              rw [List.append_nil] at alone
              rw [readItemParts_succ (by simp) tag] at h
              split at h
              · next ended =>
                  obtain ⟨rfl, rfl⟩ := ended
                  cases h
                  exact ⟨[], head, same, by simp, alone, rfl⟩
              · cases part : readPart depth number wire parts inside with
                | error error => simp [part] at h
                | ok taken =>
                    obtain ⟨middle, inside'⟩ := taken
                    simp only [part] at h
                    obtain ⟨value, rfl, adds⟩ := add_of_readPart part
                    obtain ⟨complete, add⟩ := adds head alone
                    obtain ⟨records, stop, rfl, all, last, sum⟩ := ih h
                    refine ⟨(head ++ value) :: records, stop, by simp [same], ?_, last, ?_⟩
                    · rintro other (_ | ⟨_, mem⟩)
                      · exact complete
                      · exact all other mem
                    · rw [List.foldl_cons, add, sum]

/-- A record that can be passed over can be read as a part of an item. -/
theorem exists_readPart {number : Nat} {wire : WireType} {value : Bytes}
    (skips : skipValue depth number wire value = .ok []) (parts : ItemParts) :
    ∃ after, readPart depth number wire parts value = .ok (after, []) := by
  rw [readPart]
  split
  · next type =>
      obtain ⟨rfl, rfl⟩ := type
      rw [skipValue_of_ne (by simp) (by simp), Payload.read] at skips
      cases word : Varint.read value with
      | none => simp [word] at skips
      | some taken =>
          simp only [word, Except.ok.injEq] at skips
          simp only [skips]
          exact ⟨_, rfl⟩
  · split
    · next message =>
        obtain ⟨rfl, rfl⟩ := message
        rw [skipValue_of_ne (by simp) (by simp), Payload.read] at skips
        cases taken : Payload.readDelimited value with
        | error fault => simp [taken] at skips
        | ok split =>
            simp only [taken, Except.ok.injEq] at skips
            simp only [skips]
            exact ⟨_, rfl⟩
    · rw [skips]
      exact ⟨_, rfl⟩

/-- Complete records are read up to the end tag, and the parts are what they add up to. -/
theorem readItemParts_flatten {records : List Bytes} {stop : Bytes}
    (all : ∀ record ∈ records, IsRecord Eq depth record)
    (last : Tag.read stop = .ok (itemNumber, .endGroup, [])) (parts : ItemParts) {limit : Nat}
    (enough : (records.flatten ++ stop).length ≤ limit) :
    readItemParts depth limit parts (records.flatten ++ stop) =
      .ok (records.foldl ItemParts.add parts, []) := by
  induction records generalizing parts limit with
  | nil =>
      have nonempty := Tag.ne_nil_of_read last
      have long := List.length_pos_iff.2 nonempty
      rw [List.flatten_nil, List.nil_append] at enough ⊢
      obtain ⟨fewer, rfl⟩ : ∃ fewer, limit = fewer + 1 := ⟨limit - 1, by omega⟩
      rw [readItemParts_succ nonempty last, if_pos ⟨rfl, rfl⟩]
      rfl
  | cons record records ih =>
      obtain ⟨number, wire, value, tag, skips⟩ := (all record List.mem_cons_self).skips
      have starts := ne_endGroup_of_skipValue skips
      obtain ⟨head, nonempty, rfl, reads⟩ := Tag.append_of_read tag
      have alone := reads []
      rw [List.append_nil] at alone
      have long := List.length_pos_iff.2 nonempty
      obtain ⟨middle, part⟩ := exists_readPart skips parts
      obtain ⟨front, same, reads'⟩ := append_of_readPart part
      rw [List.append_nil] at same
      subst same
      obtain ⟨value, same, adds⟩ := add_of_readPart part
      rw [List.append_nil] at same
      subst same
      rw [List.flatten_cons, List.append_assoc, List.append_assoc] at enough ⊢
      rw [List.length_append] at enough
      obtain ⟨fewer, rfl⟩ : ∃ fewer, limit = fewer + 1 := ⟨limit - 1, by omega⟩
      rw [readItemParts_succ (by simp [nonempty]) (reads _), if_neg fun ended => starts ended.2,
        reads', List.foldl_cons, (adds head alone).2]
      rw [List.length_append] at enough
      exact ih (fun other mem => all other (List.mem_cons_of_mem _ mem)) middle (by omega)

/-- An item is read just if it consists of complete records up to its end tag. What is read of it
is what the records add up to. -/
theorem readItem_eq_ok_iff_records {bytes rest : Bytes} {item : Option (Nat × Bytes)} :
    readItem depth bytes = .ok (item, rest) ↔
      ∃ (records : List Bytes) (stop : Bytes), bytes = records.flatten ++ stop ++ rest ∧
        (∀ record ∈ records, IsRecord Eq depth record) ∧
        Tag.read stop = .ok (itemNumber, .endGroup, []) ∧
        (records.foldl ItemParts.add ⟨none, none⟩).found = item := by
  constructor
  · intro h
    obtain ⟨parts, taken, found⟩ := readItem_eq_ok_iff.1 h
    obtain ⟨records, stop, same, all, last, rfl⟩ := exists_records_of_readItemParts taken
    exact ⟨records, stop, same, all, last, found⟩
  · rintro ⟨records, stop, rfl, all, last, found⟩
    have whole := readItem_eq_ok_iff.2
      ⟨_, readItemParts_flatten all last ⟨none, none⟩ (Nat.le_refl _), found⟩
    obtain ⟨front, same, reads⟩ := append_of_readItem whole
    rw [List.append_nil] at same
    exact same ▸ reads rest

/-- An item whose start tag was read ends where its record ends. -/
theorem completes_of_readItem {item : Option (Nat × Bytes)} {bytes rest : Bytes}
    (h : readItem depth bytes = .ok (item, rest)) :
    Completes Eq (depth + 1) itemNumber .startGroup bytes rest := by
  obtain ⟨records, stop, rfl, all, last, -⟩ := readItem_eq_ok_iff_records.1 h
  exact completes_of_group all last rfl

/-- A record that starts like an item reads as one. -/
theorem exists_readItem {record value : Bytes} (complete : IsRecord Eq (depth + 1) record)
    (tag : Tag.read record = .ok (itemNumber, .startGroup, value)) :
    ∃ item, readItem depth value = .ok (item, []) := by
  cases complete with
  | payload head payload =>
      rw [Tag.read_append head] at tag
      cases tag
      exact absurd rfl (Payload.ne_group_of_read payload).1
  | group first all last ends =>
      rw [Tag.read_append first] at tag
      cases tag
      subst ends
      exact ⟨_, readItem_eq_ok_iff_records.2
        ⟨_, _, (List.append_nil _).symm, all, last, rfl⟩⟩

/-- What is read of an item is what its records say. -/
theorem isItem_iff {record value : Bytes} {item : Option (Nat × Bytes)}
    (tag : Tag.read record = .ok (itemNumber, .startGroup, value))
    (reads : readItem depth value = .ok (item, [])) {number : Nat} {body : Bytes} :
    IsItem number body record ↔ item = some (number, body) := by
  obtain ⟨records, stop, rfl, all, last, rfl⟩ := readItem_eq_ok_iff_records.1 reads
  rw [List.append_nil] at tag
  have all' : ∀ inner ∈ records, Complete inner := fun inner mem => ⟨depth, all inner mem⟩
  rw [ItemParts.found_eq_some_iff]
  constructor
  · rintro ⟨start, others, stop', rfl, first, complete, last', sum'⟩
    -- there is one way only to divide what follows the start tag into records
    rw [Tag.read_append first, List.nil_append, Except.ok.injEq, Prod.mk.injEq,
      Prod.mk.injEq] at tag
    obtain ⟨rfl, -⟩ := eq_of_flatten_append complete all' (startsNone_of_endTag last')
      (startsNone_of_endTag last) tag.2.2
    exact sum'
  · intro sum
    obtain ⟨start, -, rfl, first⟩ := Tag.append_of_read tag
    have alone := first []
    rw [List.append_nil] at alone
    exact ⟨start, records, stop, rfl, alone, all', last, sum⟩

/-- The message of an item is part of one of its records. -/
theorem infix_of_foldl_add {records : List Bytes} {parts : ItemParts} {body : Bytes}
    (h : (records.foldl ItemParts.add parts).body = some body) :
    parts.body = some body ∨ body <:+: records.flatten := by
  induction records generalizing parts with
  | nil => exact .inl h
  | cons record records ih =>
      rcases ih h with added | later
      · rw [ItemParts.add] at added
        cases tag : Tag.read record with
        | error fault =>
            rw [tag] at added
            exact .inl added
        | ok taken =>
            obtain ⟨number, wire, value⟩ := taken
            obtain ⟨head, -, rfl, -⟩ := Tag.append_of_read tag
            simp only [tag] at added
            split at added
            · exact .inl added
            · split at added
              · cases taken : Payload.readDelimited value with
                | error fault => simp [taken, Except.toOption] at added
                | ok split =>
                    obtain ⟨inner, rest⟩ := split
                    simp only [taken, Except.toOption, Option.map_some, Option.some.injEq] at added
                    subst added
                    have part := Payload.infix_of_readDelimited taken
                    exact .inr (part.trans ⟨head, records.flatten, by simp⟩)
              · exact .inl added
      · exact .inr (later.trans ⟨record, [], by simp⟩)

/-- An item that was read is part of the input, and its message is part of it. -/
theorem exists_isItem_of_readItem {bytes value rest body : Bytes} {number : Nat}
    (tag : Tag.read bytes = .ok (itemNumber, .startGroup, value))
    (reads : readItem depth value = .ok (some (number, body), rest)) :
    ∃ record, record <:+: bytes ∧ body <:+: record ∧ IsItem number body record := by
  obtain ⟨start, -, rfl, first⟩ := Tag.append_of_read tag
  have alone := first []
  rw [List.append_nil] at alone
  obtain ⟨records, stop, rfl, all, last, found⟩ := readItem_eq_ok_iff_records.1 reads
  rw [ItemParts.found_eq_some_iff] at found
  refine ⟨start ++ (records.flatten ++ stop), ⟨[], rest, by simp⟩, ?_, start, records, stop, rfl,
    alone, fun inner mem => ⟨depth, all inner mem⟩, last, found⟩
  rcases infix_of_foldl_add (congrArg ItemParts.body found) with before | part
  · cases before
  · exact part.trans ⟨start, stop, by simp⟩

/-! ## Items that were written -/

/-- What is between the tags that start and end an item. -/
def itemContent (number : Nat) (body : Bytes) : Bytes :=
  (Tag.write itemTypeNumber .varint ++ Varint.write number) ++
    (Tag.write itemMessageNumber .lengthDelimited ++ Varint.write body.length) ++ body

/-- An item that was written reads back. -/
theorem readItem_write {number : Nat} {body : Bytes} (small : number < UInt32.size)
    (fits : body.length < UInt64.size) (rest : Bytes) :
    readItem depth (itemContent number body ++ Tag.write itemNumber .endGroup ++ rest) =
      .ok (some (number, body), rest) := by
  have legal : isFieldNumber itemNumber ∧ isFieldNumber itemTypeNumber ∧
      isFieldNumber itemMessageNumber := by decide
  have nonempty : ∀ number wire more, Tag.write number wire ++ more ≠ [] := by
    intro number wire more
    simp [Tag.write, Varint.write_ne_nil]
  -- three tags need a limit of three records
  have room : ∃ limit, (itemContent number body ++ Tag.write itemNumber .endGroup ++ rest).length =
      limit + 1 + 1 + 1 := by
    refine ⟨(itemContent number body ++ Tag.write itemNumber .endGroup ++ rest).length - 3, ?_⟩
    have type := Varint.size_pos (Tag.word itemTypeNumber .varint)
    have message := Varint.size_pos (Tag.word itemMessageNumber .lengthDelimited)
    have stop := Varint.size_pos (Tag.word itemNumber .endGroup)
    simp only [itemContent, List.length_append, Tag.length_write, Tag.size]
    omega
  obtain ⟨limit, length⟩ := room
  refine readItem_eq_ok_iff.2 ⟨⟨some number, some body⟩, ?_, rfl⟩
  have big : number < UInt64.size := Nat.lt_trans small (by decide)
  have delimited : Payload.readDelimited (Varint.write body.length ++ (body ++
      (Tag.write itemNumber .endGroup ++ rest))) =
        .ok (body, Tag.write itemNumber .endGroup ++ rest) := by
    rw [Payload.readDelimited, Varint.read_write fits]
    simp only [Bytes.split?_append]
  rw [length]
  simp only [itemContent, List.append_assoc]
  -- the number is read first, then the message, and then the end tag
  rw [readItemParts_succ (nonempty _ _ _) (Tag.read_write legal.2.1 _ _), if_neg (by decide),
    readPart, if_pos (by decide), Varint.read_write big]
  simp only [Nat.mod_eq_of_lt small]
  rw [readItemParts_succ (nonempty _ _ _) (Tag.read_write legal.2.2 _ _), if_neg (by decide),
    readPart, if_neg (by decide), if_pos (by decide), delimited]
  simp only
  rw [readItemParts_succ (nonempty _ _ _) (Tag.read_write legal.1 _ _), if_pos (by decide)]

end ProtoWire.MessageOf
