import ProtoWire.Proofs.Wire.Reading

/-!
# Complete records

Whatever is known about its fields, what stands on the wire is a sequence of records: tags with
their payloads, and groups of records between a start tag and an end tag. The grammar `IsRecord`
says so without a reader. The skipper passes over the records of the grammar and over nothing
else (`isRecord_iff`), and bytes are a sequence of records in one way at most
(`eq_of_flatten_append`).

What end tags may end a group is a parameter of the grammar. Where the numbers of the two tags
have to be the same, it is equality.
-/

set_option autoImplicit false

namespace ProtoWire

/-- A complete record in which at most `depth` groups are open at a time. A group that starts with
one number may end with another if the former `closes` with the latter. -/
inductive IsRecord (closes : Nat → Nat → Prop) : Nat → Bytes → Prop
  | payload {depth number : Nat} {wire : WireType} {tag body : Bytes} {payload : Payload} :
      Tag.read tag = .ok (number, wire, []) → Payload.read wire body = .ok (payload, []) →
      IsRecord closes depth (tag ++ body)
  | group {depth number ender : Nat} {start stop : Bytes} {records : List Bytes} :
      Tag.read start = .ok (number, .startGroup, []) →
      (∀ record ∈ records, IsRecord closes depth record) →
      Tag.read stop = .ok (ender, .endGroup, []) → closes number ender →
      IsRecord closes (depth + 1) (start ++ (records.flatten ++ stop))

/-- A complete record, with end tags of the same numbers as the start tags. -/
def Complete (record : Bytes) : Prop :=
  ∃ depth, IsRecord Eq depth record

/-- A tag on the wire, with the number and the wire type that it names, and the value behind it. -/
structure TaggedValue where
  number : Nat
  wire : WireType
  tag : Bytes
  value : Bytes

/-- The tag and the value. -/
def TaggedValue.bytes (field : TaggedValue) : Bytes :=
  field.tag ++ field.value

variable {closes closes' : Nat → Nat → Prop} {depth number : Nat} {wire : WireType}
  {record bytes rest : Bytes}

/-- A record is one in any grammar that allows for more. -/
theorem IsRecord.mono (h : IsRecord closes depth record) {more : Nat} (le : depth ≤ more)
    (imp : ∀ number ender, closes number ender → closes' number ender) :
    IsRecord closes' more record := by
  induction h generalizing more with
  | payload tag body => exact .payload tag body
  | group start _ stop ends ih =>
      obtain ⟨fewer, rfl⟩ : ∃ fewer, more = fewer + 1 := ⟨more - 1, by omega⟩
      exact .group start (fun record mem => ih record mem (by omega)) stop (imp _ _ ends)

theorem Payload.ne_group_of_read {payload : Payload}
    (h : Payload.read wire bytes = .ok (payload, rest)) :
    wire ≠ .startGroup ∧ wire ≠ .endGroup := by
  constructor <;> rintro rfl <;> simp [Payload.read] at h

/-- A record starts with a tag that is no end tag. -/
theorem IsRecord.exists_tag (h : IsRecord closes depth record) :
    ∃ number wire value, Tag.read record = .ok (number, wire, value) ∧ wire ≠ .endGroup := by
  cases h with
  | payload tag body =>
      exact ⟨_, _, _, Tag.read_append tag _, (Payload.ne_group_of_read body).2⟩
  | group start => exact ⟨_, _, _, Tag.read_append start _, by simp⟩

/-! ## Readers that complete a record -/

/-- What a reader takes of the bytes after a tag completes the record. -/
def Completes (closes : Nat → Nat → Prop) (depth number : Nat) (wire : WireType)
    (bytes rest : Bytes) : Prop :=
  ∃ value, bytes = value ++ rest ∧
    ∀ tag, Tag.read tag = .ok (number, wire, []) → IsRecord closes depth (tag ++ value)

/-- The tag and what a reader takes after it are a record at the front of the bytes. -/
theorem Completes.exists_record {after : Bytes}
    (h : Completes closes depth number wire after rest)
    (tag : Tag.read bytes = .ok (number, wire, after)) :
    ∃ record value, bytes = record ++ rest ∧ Tag.read record = .ok (number, wire, value) ∧
      IsRecord closes depth record := by
  obtain ⟨head, -, rfl, reads⟩ := Tag.append_of_read tag
  obtain ⟨value, rfl, completes⟩ := h
  have alone := reads []
  rw [List.append_nil] at alone
  exact ⟨head ++ value, value, by simp, reads value, completes head alone⟩

theorem completes_of_read {payload : Payload}
    (h : Payload.read wire bytes = .ok (payload, rest)) :
    Completes closes depth number wire bytes rest := by
  obtain ⟨front, -, rfl, reads⟩ := Payload.append_of_read h
  have alone := reads []
  rw [List.append_nil] at alone
  exact ⟨front, rfl, fun tag read => .payload read alone⟩

theorem completes_of_readDelimited {body : Bytes}
    (h : Payload.readDelimited bytes = .ok (body, rest)) :
    Completes closes depth number .lengthDelimited bytes rest := by
  have read : Payload.read .lengthDelimited bytes = .ok (.delimited body, rest) := by
    rw [Payload.read, h]
  exact completes_of_read read

theorem completes_of_group {ender : Nat} {records : List Bytes} {stop : Bytes}
    (all : ∀ record ∈ records, IsRecord closes depth record)
    (last : Tag.read stop = .ok (ender, .endGroup, [])) (ends : closes number ender) :
    Completes closes (depth + 1) number .startGroup (records.flatten ++ stop ++ rest) rest :=
  ⟨records.flatten ++ stop, rfl, fun _ start => .group start all last ends⟩

/-! ## The skipper -/

/-- What is passed over as a group is a sequence of tagged values, each of which is passed over
by itself, and the end tag. -/
theorem exists_fields_of_skipGroup
    {skip : Nat → WireType → Bytes → Except Malformed Bytes} {P : Nat → WireType → Bytes → Prop}
    (skips : ∀ number wire bytes rest, skip number wire bytes = .ok rest →
      ∃ value, bytes = value ++ rest ∧ P number wire value)
    {limit : Nat} (h : skipGroup skip number limit bytes = .ok rest) :
    ∃ (fields : List TaggedValue) (stop : Bytes),
      bytes = fields.flatMap TaggedValue.bytes ++ stop ++ rest ∧
        (∀ field ∈ fields, Tag.read field.tag = .ok (field.number, field.wire, []) ∧
          P field.number field.wire field.value) ∧
        Tag.read stop = .ok (number, .endGroup, []) := by
  induction limit generalizing bytes with
  | zero => cases bytes <;> simp [skipGroup] at h
  | succ limit ih =>
      obtain ⟨_, inner, wire, after, same, tag, left⟩ := exists_tag_of_skipGroup h
      obtain rfl := Nat.succ.inj same
      obtain ⟨head, -, rfl, reads⟩ := Tag.append_of_read tag
      have alone := reads []
      rw [List.append_nil] at alone
      rcases left with ⟨rfl, rfl, rfl⟩ | ⟨-, after', skipped, others⟩
      · -- the end tag of the group
        exact ⟨[], head, rfl, by simp, alone⟩
      · -- one more value
        obtain ⟨value, rfl, holds⟩ := skips inner wire after after' skipped
        obtain ⟨fields, stop, rfl, all, last⟩ := ih others
        refine ⟨⟨inner, wire, head, value⟩ :: fields, stop, ?_, ?_, last⟩
        · simp [TaggedValue.bytes]
        · exact List.forall_mem_cons.2 ⟨⟨alone, holds⟩, all⟩

/-- What the skipper passes over as a group is a sequence of records and the end tag. -/
theorem exists_records_of_skipGroup
    {skip : Nat → WireType → Bytes → Except Malformed Bytes}
    (skips : ∀ number wire bytes rest, skip number wire bytes = .ok rest →
      Completes closes depth number wire bytes rest)
    {limit : Nat} (h : skipGroup skip number limit bytes = .ok rest) :
    ∃ (records : List Bytes) (stop : Bytes), bytes = records.flatten ++ stop ++ rest ∧
      (∀ record ∈ records, IsRecord closes depth record) ∧
      Tag.read stop = .ok (number, .endGroup, []) := by
  obtain ⟨fields, stop, same, all, last⟩ := exists_fields_of_skipGroup skips h
  refine ⟨fields.map TaggedValue.bytes, stop, ?_, List.forall_mem_map.2 fun field mem => ?_, last⟩
  · rw [same, List.flatMap_def]
  · obtain ⟨tag, completes⟩ := all field mem
    exact completes field.tag tag

/-- What the skipper passes over completes a record. -/
theorem completes_of_skipValue (h : skipValue depth number wire bytes = .ok rest) :
    Completes Eq depth number wire bytes rest := by
  -- a group is passed over by the skipper of one level less
  induction depth generalizing number wire bytes rest with
  | zero =>
      by_cases start : wire = .startGroup
      · simp [start, skipValue] at h
      · rw [skipValue_of_ne start (ne_endGroup_of_skipValue h)] at h
        cases read : Payload.read wire bytes with
        | error fault => simp [read] at h
        | ok taken =>
            simp only [read, Except.ok.injEq] at h
            subst h
            exact completes_of_read read
  | succ depth ih =>
      by_cases start : wire = .startGroup
      · subst start
        simp only [skipValue] at h
        obtain ⟨records, stop, rfl, all, last⟩ :=
          exists_records_of_skipGroup (fun _ _ _ _ skipped => ih skipped) h
        exact completes_of_group all last rfl
      · rw [skipValue_of_ne start (ne_endGroup_of_skipValue h)] at h
        cases read : Payload.read wire bytes with
        | error fault => simp [read] at h
        | ok taken =>
            simp only [read, Except.ok.injEq] at h
            subst h
            exact completes_of_read read

/-- The records of a group are passed over up to the end tag. -/
theorem skipGroup_flatten {skip : Nat → WireType → Bytes → Except Malformed Bytes}
    {records : List Bytes} {stop : Bytes}
    (all : ∀ record ∈ records, ∃ number wire value,
      Tag.read record = .ok (number, wire, value) ∧ wire ≠ .endGroup ∧
        ∀ rest, skip number wire (value ++ rest) = .ok rest)
    (last : Tag.read stop = .ok (number, .endGroup, [])) {limit : Nat}
    (enough : (records.flatten ++ stop).length ≤ limit) :
    skipGroup skip number limit (records.flatten ++ stop ++ rest) = .ok rest := by
  induction records generalizing limit with
  | nil =>
      have nonempty := Tag.ne_nil_of_read last
      have long := List.length_pos_iff.2 nonempty
      simp only [List.flatten_nil, List.nil_append] at enough ⊢
      obtain ⟨fewer, rfl⟩ : ∃ fewer, limit = fewer + 1 := ⟨limit - 1, by omega⟩
      rw [skipGroup_succ (by simp [nonempty]) (Tag.read_append last rest), if_pos rfl, if_pos rfl,
        List.nil_append]
  | cons record records ih =>
      obtain ⟨inner, wire, value, tag, starts, skips⟩ := all record List.mem_cons_self
      have nonempty := Tag.ne_nil_of_read tag
      have long := List.length_pos_iff.2 nonempty
      simp only [List.flatten_cons, List.append_assoc, List.length_append] at enough ⊢
      obtain ⟨fewer, rfl⟩ : ∃ fewer, limit = fewer + 1 := ⟨limit - 1, by omega⟩
      rw [skipGroup_succ (by simp [nonempty]) (Tag.read_append tag _), if_neg starts, skips]
      simp only
      rw [← List.append_assoc]
      apply ih fun other mem => all other (List.mem_cons_of_mem _ mem)
      rw [List.length_append]
      omega

/-- A record is passed over whole, whatever follows it. -/
theorem IsRecord.skips (h : IsRecord Eq depth record) :
    ∃ number wire value, Tag.read record = .ok (number, wire, value) ∧
      skipValue depth number wire value = .ok [] := by
  induction h with
  | @payload depth number wire tag body payload head value =>
      refine ⟨number, wire, body, Tag.read_append head body, ?_⟩
      obtain ⟨start, stop⟩ := Payload.ne_group_of_read value
      rw [skipValue_of_ne start stop, value]
  | @group depth number ender start stop records first _ last ends ih =>
      subst ends
      refine ⟨number, .startGroup, _, Tag.read_append first _, ?_⟩
      have inside : ∀ record ∈ records, ∃ number wire value,
          Tag.read record = .ok (number, wire, value) ∧ wire ≠ .endGroup ∧
            ∀ rest, skipValue depth number wire (value ++ rest) = .ok rest := by
        intro record mem
        obtain ⟨inner, wire, value, tag, skips⟩ := ih record mem
        exact ⟨inner, wire, value, tag, ne_endGroup_of_skipValue skips,
          fun rest => skipValue_append skips rest⟩
      have whole : skipGroup (skipValue depth) number (records.flatten ++ stop).length
          (records.flatten ++ stop ++ []) = .ok [] :=
        skipGroup_flatten inside last (Nat.le_refl _)
      rw [List.append_nil] at whole
      simpa only [skipValue, List.nil_append] using whole

/-- The records of the grammar are those that the skipper passes over. -/
theorem isRecord_iff :
    IsRecord Eq depth record ↔
      ∃ number wire value, Tag.read record = .ok (number, wire, value) ∧
        skipValue depth number wire value = .ok [] := by
  refine ⟨IsRecord.skips, ?_⟩
  rintro ⟨number, wire, value, tag, skips⟩
  obtain ⟨whole, -, same, -, complete⟩ := (completes_of_skipValue skips).exists_record tag
  rw [List.append_nil] at same
  exact same ▸ complete

/-! ## Sequences of records -/

theorem Tag.eq_of_append_eq {first second more : Bytes} {number' : Nat} {wire' : WireType}
    (h : Tag.read first = .ok (number, wire, [])) (h' : Tag.read second = .ok (number', wire', []))
    (same : first ++ rest = second ++ more) :
    number = number' ∧ wire = wire' ∧ first = second ∧ rest = more := by
  have read := Tag.read_append h rest
  rw [same, Tag.read_append h' more] at read
  simp only [List.nil_append, Except.ok.injEq, Prod.mk.injEq] at read
  obtain ⟨rfl, rfl, rfl⟩ := read
  exact ⟨rfl, rfl, List.append_cancel_right same, rfl⟩

theorem Payload.read_append {body : Bytes} {payload : Payload}
    (h : Payload.read wire body = .ok (payload, [])) (rest : Bytes) :
    Payload.read wire (body ++ rest) = .ok (payload, rest) := by
  obtain ⟨front, -, same, reads⟩ := Payload.append_of_read h
  rw [List.append_nil] at same
  rw [same]
  exact reads rest

/-- Bytes are a sequence of pieces, up to where no piece starts, in one way at most, if none of
the pieces is a proper front of another one. -/
theorem eq_of_flatten_append_of_unique {P : Bytes → Prop} {pieces others : List Bytes}
    {tail tail' : Bytes}
    (unique : ∀ piece ∈ pieces, ∀ other rest more, P other → piece ++ rest = other ++ more →
      piece = other ∧ rest = more)
    (all : ∀ other ∈ others, P other) (last : ∀ other more, P other → tail ≠ other ++ more)
    (last' : ∀ piece ∈ pieces, ∀ more, tail' ≠ piece ++ more)
    (same : pieces.flatten ++ tail = others.flatten ++ tail') :
    pieces = others ∧ tail = tail' := by
  induction pieces generalizing others with
  | nil =>
      cases others with
      | nil => exact ⟨rfl, same⟩
      | cons other others =>
          rw [List.flatten_cons, List.append_assoc] at same
          exact absurd same (last other _ (all other List.mem_cons_self))
  | cons piece pieces ih =>
      cases others with
      | nil =>
          rw [List.flatten_cons, List.append_assoc] at same
          exact absurd same.symm (last' piece List.mem_cons_self _)
      | cons other others =>
          rw [List.flatten_cons, List.flatten_cons, List.append_assoc, List.append_assoc] at same
          obtain ⟨rfl, after⟩ :=
            unique piece List.mem_cons_self other _ _ (all other List.mem_cons_self) same
          obtain ⟨rfl, rest⟩ := ih (fun piece mem => unique piece (List.mem_cons_of_mem _ mem))
            (fun other mem => all other (List.mem_cons_of_mem _ mem))
            (fun piece mem => last' piece (List.mem_cons_of_mem _ mem)) after
          exact ⟨rfl, rest⟩

/-- No record starts with an end tag. -/
theorem IsRecord.ne_of_endTag (h : IsRecord closes depth record) {stop : Bytes}
    (last : Tag.read stop = .ok (number, .endGroup, [])) (more : Bytes) :
    stop ++ rest ≠ record ++ more := by
  intro same
  obtain ⟨_, _, _, tag, starts⟩ := h.exists_tag
  have read := Tag.read_append last rest
  rw [same, Tag.read_append tag more] at read
  cases read
  exact starts rfl

/-- No record is a proper front of another one, whatever end tags end the groups. -/
theorem IsRecord.eq_of_append_eq (h : IsRecord closes depth record) {other more : Bytes}
    {depth' : Nat} (h' : IsRecord closes depth' other) (same : record ++ rest = other ++ more) :
    record = other ∧ rest = more := by
  induction h generalizing other rest more depth' with
  | @payload depth number wire tag body payload head value =>
      obtain ⟨start, -⟩ := Payload.ne_group_of_read value
      cases h' with
      | @payload _ number' wire' tag' body' payload' head' value' =>
          rw [List.append_assoc, List.append_assoc] at same
          obtain ⟨-, rfl, rfl, after⟩ := Tag.eq_of_append_eq head head' same
          have read := Payload.read_append value rest
          rw [after, Payload.read_append value' more] at read
          simp only [Except.ok.injEq, Prod.mk.injEq] at read
          obtain ⟨-, rfl⟩ := read
          exact ⟨by rw [List.append_cancel_right after], rfl⟩
      | group head' =>
          rw [List.append_assoc, List.append_assoc] at same
          exact absurd (Tag.eq_of_append_eq head head' same).2.1 start
  | @group depth number ender open' stop records head all last ends ih =>
      cases h' with
      | payload head' value' =>
          obtain ⟨start, -⟩ := Payload.ne_group_of_read value'
          simp only [List.append_assoc] at same
          exact absurd (Tag.eq_of_append_eq head head' same).2.1.symm start
      | @group depth' number' ender' open'' stop' records' head' all' last'' ends' =>
          simp only [List.append_assoc] at same
          obtain ⟨-, -, rfl, after⟩ := Tag.eq_of_append_eq head head' same
          -- the records inside are the same ones, and so is what comes behind them
          obtain ⟨rfl, ended⟩ := eq_of_flatten_append_of_unique
            (P := fun record => IsRecord closes depth' record)
            (fun record mem other rest more complete => ih record mem complete) all'
            (fun other more complete => complete.ne_of_endTag last more)
            (fun record mem more => (all record mem).ne_of_endTag last'' more) after
          obtain ⟨-, -, rfl, rfl⟩ := Tag.eq_of_append_eq last last'' ended
          exact ⟨rfl, rfl⟩

/-- No complete record is a proper front of another one. -/
theorem Complete.eq_of_append_eq {first second more : Bytes} (h : Complete first)
    (h' : Complete second) (same : first ++ rest = second ++ more) :
    first = second ∧ rest = more := by
  obtain ⟨_, h⟩ := h
  obtain ⟨_, h'⟩ := h'
  exact h.eq_of_append_eq h' same

/-- No record starts with the bytes. -/
def StartsNone (bytes : Bytes) : Prop :=
  ∀ record rest, Complete record → bytes ≠ record ++ rest

theorem startsNone_nil : StartsNone [] := by
  rintro record rest ⟨depth, complete⟩ same
  obtain ⟨_, _, _, tag, -⟩ := complete.exists_tag
  exact Tag.ne_nil_of_read tag (List.append_eq_nil_iff.1 same.symm).1

theorem startsNone_of_endTag (h : Tag.read bytes = .ok (number, .endGroup, rest)) :
    StartsNone bytes := by
  rintro record more ⟨depth, complete⟩ rfl
  obtain ⟨_, _, _, tag, starts⟩ := complete.exists_tag
  rw [Tag.read_append tag more] at h
  cases h
  exact starts rfl

/-- Bytes are a sequence of records, up to where no record starts, in one way at most. -/
theorem eq_of_flatten_append {records others : List Bytes} {tail tail' : Bytes}
    (all : ∀ record ∈ records, Complete record) (all' : ∀ record ∈ others, Complete record)
    (last : StartsNone tail) (last' : StartsNone tail')
    (same : records.flatten ++ tail = others.flatten ++ tail') :
    records = others ∧ tail = tail' :=
  eq_of_flatten_append_of_unique
    (fun record mem _ _ _ complete => (all record mem).eq_of_append_eq complete) all'
    (fun other more complete => last other more complete)
    (fun record mem more => last' record more (all record mem)) same

/-- Records that begin with given records are those and some others. -/
theorem exists_append_of_flatten {front records : List Bytes}
    (complete : ∀ record ∈ front, Complete record) (complete' : ∀ record ∈ records, Complete record)
    (same : front.flatten ++ rest = records.flatten) :
    ∃ back : List Bytes, records = front ++ back ∧ rest = back.flatten := by
  induction front generalizing records with
  | nil => exact ⟨records, rfl, same⟩
  | cons record front ih =>
      rw [List.forall_mem_cons] at complete
      cases records with
      | nil =>
          have starts := startsNone_nil record (front.flatten ++ rest) complete.1
          simp only [List.flatten_cons, List.flatten_nil, List.append_assoc] at same
          exact absurd same.symm starts
      | cons other records =>
          rw [List.forall_mem_cons] at complete'
          simp only [List.flatten_cons, List.append_assoc] at same
          obtain ⟨rfl, tail⟩ := complete.1.eq_of_append_eq complete'.1 same
          obtain ⟨back, rfl, eq⟩ := ih complete.2 complete'.2 tail
          exact ⟨back, rfl, eq⟩

end ProtoWire
