import ProtoWire.Proofs.Wire.Grammar

/-!
# The grammar of values

Words, tags and values are described here down to the byte, without a reader: a word is a number
in groups of seven bits (`IsVarint`), a tag is a word of a field number and a wire type (`IsTag`),
and a value is a word, some bytes, or a group of tagged values up to its end tag (`IsValue`). Each
reader takes exactly what is described off the front of its input (`Varint.read_eq_some_iff`,
`Tag.read_eq_ok_iff`, `skipValue_eq_ok_iff`).

Main statement: what the skipper passes over is one value of the grammar and determined by the
bytes, and a tag that is forbidden at any place inside a group makes the skipper fail
(`skipValue_grammar`).
-/

set_option autoImplicit false

namespace ProtoWire

/-! ## Words -/

/-- The number that the low seven bits of each byte make up, least significant first. -/
def base128 : Bytes → Nat
  | [] => 0
  | byte :: bytes => byte.toNat % 128 + 128 * base128 bytes

/-- The bytes of a word: a last one without the high bit behind others with it. A last byte that is
the only one left of so many `groups` holds one bit. -/
structure IsForm (groups word : Nat) (front : Bytes) (last : UInt8) : Prop where
  continued : ∀ byte ∈ front, 128 ≤ byte.toNat
  ended : last.toNat < 128
  short : front.length < groups
  bit : front.length + 1 = groups → last.toNat ≤ 1
  value : base128 (front ++ [last]) = word

/-- The bytes of a word: at most ten, of which the tenth is at most one. -/
def IsVarint (word : Nat) (bytes : Bytes) : Prop :=
  ∃ front last, bytes = front ++ [last] ∧ IsForm 10 word front last

variable {depth number word : Nat} {wire : WireType} {bytes rest : Bytes}

namespace Varint

theorem readGroups_append {groups : Nat} {front : Bytes} {last : UInt8}
    (h : IsForm groups word front last) (rest : Bytes) :
    readGroups groups (front ++ [last] ++ rest) = some (word, rest) := by
  obtain ⟨continued, ended, short, bit, rfl⟩ := h
  induction front generalizing groups with
  | nil =>
      obtain ⟨fewer, rfl⟩ : ∃ fewer, groups = fewer + 1 := ⟨groups - 1, by omega⟩
      have legal : ¬ (fewer = 0 ∧ 1 < last.toNat) := by
        rintro ⟨rfl, large⟩
        have := bit rfl
        omega
      simp [readGroups, ended, legal, base128, Nat.mod_eq_of_lt ended]
  | cons byte front ih =>
      rw [List.forall_mem_cons] at continued
      rw [List.length_cons] at short bit
      obtain ⟨fewer, rfl⟩ : ∃ fewer, groups = fewer + 1 := ⟨groups - 1, by omega⟩
      have below := byte.toNat_lt
      have high := continued.1
      have low : byte.toNat % 128 = byte.toNat - 128 := by omega
      have tail := @ih fewer continued.2 (by omega) fun full => bit (by omega)
      rw [List.cons_append, List.cons_append, readGroups, if_neg (by omega), tail]
      simp only [base128, low]

theorem exists_form_of_readGroups {groups : Nat}
    (h : readGroups groups bytes = some (word, rest)) :
    ∃ front last, bytes = front ++ [last] ++ rest ∧ IsForm groups word front last := by
  induction groups generalizing bytes word with
  | zero => simp [readGroups] at h
  | succ groups ih =>
      cases bytes with
      | nil => simp [readGroups] at h
      | cons byte bytes =>
          simp only [readGroups] at h
          split at h
          · next ended =>
              split at h
              · simp at h
              · next legal =>
                  cases h
                  refine ⟨[], byte, rfl, by simp, ended, by simp, fun full => ?_, ?_⟩
                  · simp only [List.length_nil] at full
                    omega
                  · simp [base128, Nat.mod_eq_of_lt ended]
          · next continued =>
              split at h
              · next high rest' eq =>
                  cases h
                  obtain ⟨front, last, rfl, form⟩ := ih eq
                  have below := byte.toNat_lt
                  have low : byte.toNat % 128 = byte.toNat - 128 := by omega
                  refine ⟨byte :: front, last, rfl, ?_, form.ended, ?_, fun full => ?_, ?_⟩
                  · exact List.forall_mem_cons.2 ⟨by omega, form.continued⟩
                  · have := form.short
                    simp only [List.length_cons]
                    omega
                  · simp only [List.length_cons] at full
                    exact form.bit (by omega)
                  · rw [List.cons_append, base128, form.value, low]
              · simp at h

/-- Reading a word takes one of its forms off the front. -/
theorem read_eq_some_iff :
    read bytes = some (word, rest) ↔ ∃ form, bytes = form ++ rest ∧ IsVarint word form := by
  constructor
  · intro h
    obtain ⟨front, last, same, form⟩ := exists_form_of_readGroups h
    exact ⟨_, same, front, last, rfl, form⟩
  · rintro ⟨_, rfl, front, last, rfl, form⟩
    exact readGroups_append form rest

theorem read_of_isVarint {form : Bytes} (h : IsVarint word form) (rest : Bytes) :
    read (form ++ rest) = some (word, rest) :=
  read_eq_some_iff.2 ⟨form, rfl, h⟩

theorem read_eq_some_nil_iff {form : Bytes} :
    read form = some (word, []) ↔ IsVarint word form := by
  simp [read_eq_some_iff]

end Varint

/-! ## Tags -/

/-- The bytes of a tag. -/
structure IsTag (number : Nat) (wire : WireType) (bytes : Bytes) : Prop where
  positive : 1 ≤ number
  bounded : number ≤ 536870911
  word : IsVarint (number * 8 + wire.code) bytes

theorem WireType.ofCode?_eq_some_iff {code : Nat} :
    ofCode? code = some wire ↔ code = wire.code := by
  constructor
  · intro h
    rw [ofCode?.eq_def] at h
    split at h <;> first | (cases h; rfl) | simp at h
  · rintro rfl
    exact ofCode?_code wire

/-- Reading a tag takes it off the front. -/
theorem Tag.read_eq_ok_iff :
    read bytes = .ok (number, wire, rest) ↔
      ∃ tag, bytes = tag ++ rest ∧ IsTag number wire tag := by
  constructor
  · intro h
    obtain ⟨positive, bounded⟩ := isFieldNumber_iff.1 (isFieldNumber_of_read h)
    rw [read] at h
    cases taken : Varint.read bytes with
    | none => simp [taken] at h
    | some pair =>
        obtain ⟨word, after⟩ := pair
        simp only [taken] at h
        split at h
        · simp at h
        · next named =>
            have code := WireType.ofCode?_eq_some_iff.1 named
            split at h
            · cases h
              obtain ⟨tag, same, form⟩ := Varint.read_eq_some_iff.1 taken
              have whole : word / 8 * 8 + wire.code = word := by omega
              exact ⟨tag, same, positive, bounded, whole.symm ▸ form⟩
            · simp at h
  · rintro ⟨tag, rfl, positive, bounded, form⟩
    have code := wire.code_lt
    have low : (number * 8 + wire.code) % 8 = wire.code := by omega
    have high : (number * 8 + wire.code) / 8 = number := by omega
    have legal := isFieldNumber_iff.2 ⟨positive, bounded⟩
    simp only [read, Varint.read_of_isVarint form, low, high, WireType.ofCode?_code, legal, if_true]

theorem Tag.read_of_isTag {tag : Bytes} (h : IsTag number wire tag) (rest : Bytes) :
    read (tag ++ rest) = .ok (number, wire, rest) :=
  read_eq_ok_iff.2 ⟨tag, rfl, h⟩

theorem Tag.read_eq_ok_nil_iff {tag : Bytes} :
    read tag = .ok (number, wire, []) ↔ IsTag number wire tag := by
  simp [read_eq_ok_iff]

/-! ## Values -/

/-- The bytes of one value behind a tag of the number and the wire type, in which at most `depth`
groups are open at a time. -/
inductive IsValue : Nat → Nat → WireType → Bytes → Prop
  | varint {depth number word : Nat} {bytes : Bytes} :
      IsVarint word bytes → IsValue depth number .varint bytes
  | fixed64 {depth number : Nat} {bytes : Bytes} :
      bytes.length = 8 → IsValue depth number .fixed64 bytes
  | fixed32 {depth number : Nat} {bytes : Bytes} :
      bytes.length = 4 → IsValue depth number .fixed32 bytes
  | delimited {depth number : Nat} {length body : Bytes} :
      IsVarint body.length length → IsValue depth number .lengthDelimited (length ++ body)
  | group {depth number : Nat} {fields : List TaggedValue} {stop : Bytes} :
      (∀ field ∈ fields, IsTag field.number field.wire field.tag) →
      (∀ field ∈ fields, IsValue depth field.number field.wire field.value) →
      IsTag number .endGroup stop →
      IsValue (depth + 1) number .startGroup (fields.flatMap TaggedValue.bytes ++ stop)

theorem IsValue.mono {value : Bytes} (h : IsValue depth number wire value) {more : Nat}
    (le : depth ≤ more) : IsValue more number wire value := by
  induction h generalizing more with
  | varint form => exact .varint form
  | fixed64 size => exact .fixed64 size
  | fixed32 size => exact .fixed32 size
  | delimited length => exact .delimited length
  | group tags _ stop ih =>
      obtain ⟨fewer, rfl⟩ : ∃ fewer, more = fewer + 1 := ⟨more - 1, by omega⟩
      exact .group tags (fun field mem => ih field mem (by omega)) stop

theorem IsValue.ne_endGroup {value : Bytes} (h : IsValue depth number wire value) :
    wire ≠ .endGroup := by
  cases h <;> simp

/-! ## The skipper -/

theorem exists_value_of_read {payload : Payload}
    (h : Payload.read wire bytes = .ok (payload, rest)) :
    ∃ value, bytes = value ++ rest ∧ IsValue depth number wire value := by
  cases wire with
  | varint =>
      rw [Payload.read] at h
      cases taken : Varint.read bytes with
      | none => simp [taken] at h
      | some pair =>
          simp only [taken] at h
          cases h
          obtain ⟨form, same, isVarint⟩ := Varint.read_eq_some_iff.1 taken
          exact ⟨form, same, .varint isVarint⟩
  | fixed64 =>
      rw [Payload.read] at h
      cases split : Bytes.split? 8 bytes with
      | none => simp [split] at h
      | some pair =>
          simp only [split] at h
          cases h
          obtain ⟨size, same⟩ := Bytes.append_of_split? split
          exact ⟨_, same, .fixed64 size⟩
  | fixed32 =>
      rw [Payload.read] at h
      cases split : Bytes.split? 4 bytes with
      | none => simp [split] at h
      | some pair =>
          simp only [split] at h
          cases h
          obtain ⟨size, same⟩ := Bytes.append_of_split? split
          exact ⟨_, same, .fixed32 size⟩
  | lengthDelimited =>
      rw [Payload.read, Payload.readDelimited] at h
      cases taken : Varint.read bytes with
      | none => simp [taken] at h
      | some pair =>
          obtain ⟨length, after⟩ := pair
          simp only [taken] at h
          cases split : Bytes.split? length after with
          | none => simp [split] at h
          | some pair =>
              simp only [split] at h
              cases h
              obtain ⟨size, same⟩ := Bytes.append_of_split? split
              obtain ⟨form, rfl, isVarint⟩ := Varint.read_eq_some_iff.1 taken
              exact ⟨form ++ _, by rw [same, List.append_assoc], .delimited (size ▸ isVarint)⟩
  | startGroup => simp [Payload.read] at h
  | endGroup => simp [Payload.read] at h

theorem exists_value_of_skipPayload (start : wire ≠ .startGroup)
    (h : skipValue depth number wire bytes = .ok rest) :
    ∃ value, bytes = value ++ rest ∧ IsValue depth number wire value := by
  rw [skipValue_of_ne start (ne_endGroup_of_skipValue h)] at h
  cases read : Payload.read wire bytes with
  | error fault => simp [read] at h
  | ok taken =>
      simp only [read] at h
      cases h
      exact exists_value_of_read read

/-- What is passed over is a value. -/
theorem exists_value_of_skipValue (h : skipValue depth number wire bytes = .ok rest) :
    ∃ value, bytes = value ++ rest ∧ IsValue depth number wire value := by
  -- a group is passed over by the skipper of one level less
  induction depth generalizing number wire bytes rest with
  | zero =>
      by_cases start : wire = .startGroup
      · simp [start, skipValue] at h
      · exact exists_value_of_skipPayload start h
  | succ depth ih =>
      by_cases start : wire = .startGroup
      · subst start
        simp only [skipValue] at h
        obtain ⟨fields, stop, rfl, all, last⟩ :=
          exists_fields_of_skipGroup (fun _ _ _ _ skipped => ih skipped) h
        exact ⟨_, rfl, .group (fun field mem => Tag.read_eq_ok_nil_iff.1 (all field mem).1)
          (fun field mem => (all field mem).2) (Tag.read_eq_ok_nil_iff.1 last)⟩
      · exact exists_value_of_skipPayload start h

/-- A value is passed over, whatever follows it. -/
theorem IsValue.skips {value : Bytes} (h : IsValue depth number wire value) (rest : Bytes) :
    skipValue depth number wire (value ++ rest) = .ok rest := by
  induction h generalizing rest with
  | varint form =>
      rw [skipValue_of_ne (by simp) (by simp), Payload.read, Varint.read_of_isVarint form]
  | fixed64 size =>
      rw [skipValue_of_ne (by simp) (by simp), Payload.read, ← size, Bytes.split?_append]
  | fixed32 size =>
      rw [skipValue_of_ne (by simp) (by simp), Payload.read, ← size, Bytes.split?_append]
  | delimited length =>
      simp only [skipValue_of_ne, Payload.read, Payload.readDelimited, List.append_assoc,
        Varint.read_of_isVarint length, Bytes.split?_append, ne_eq, reduceCtorEq, not_false_eq_true]
  | @group depth number fields stop tags values last ih =>
      simp only [skipValue, List.flatMap_def]
      refine skipGroup_flatten ?_ (Tag.read_eq_ok_nil_iff.2 last) (by simp)
      intro record mem
      obtain ⟨field, among, rfl⟩ := List.mem_map.1 mem
      exact ⟨field.number, field.wire, field.value, Tag.read_of_isTag (tags field among) _,
        (values field among).ne_endGroup, ih field among⟩

/-- The skipper passes over the values of the grammar and over nothing else. -/
theorem skipValue_eq_ok_iff :
    skipValue depth number wire bytes = .ok rest ↔
      ∃ value, bytes = value ++ rest ∧ IsValue depth number wire value := by
  refine ⟨exists_value_of_skipValue, ?_⟩
  rintro ⟨value, rfl, isValue⟩
  exact isValue.skips rest

/-- No value is a proper front of another one behind the same tag. -/
theorem IsValue.eq_of_append_eq {value value' rest' : Bytes} {depth' : Nat}
    (h : IsValue depth number wire value) (h' : IsValue depth' number wire value')
    (same : value ++ rest = value' ++ rest') : value = value' ∧ rest = rest' := by
  have skipped := (h.mono (Nat.le_max_left depth depth')).skips rest
  rw [same, (h'.mono (Nat.le_max_right depth depth')).skips rest'] at skipped
  cases skipped
  exact ⟨List.append_cancel_right same, rfl⟩

/-! ## Places inside a group -/

/-- In the bytes behind the start tag of the group `number`, the place in front of `tail` is reached
past whole values, and by entering the groups that are still open there, of which the group `inner`
is the innermost. -/
inductive Within : Nat → Bytes → Nat → Bytes → Prop
  | here {number : Nat} {bytes : Bytes} : Within number bytes number bytes
  | past {number field depth inner : Nat} {wire : WireType} {tag value bytes tail : Bytes} :
      IsTag field wire tag → IsValue depth field wire value → Within number bytes inner tail →
      Within number (tag ++ (value ++ bytes)) inner tail
  | into {number field inner : Nat} {tag bytes tail : Bytes} :
      IsTag field .startGroup tag → Within field bytes inner tail →
      Within number (tag ++ bytes) inner tail

/-- The words that are no tag where the innermost open group is `inner`: those that name no wire
type, those without a field number, and the end tags of other groups. -/
def Forbidden (inner word : Nat) : Prop :=
  word % 8 = 6 ∨ word % 8 = 7 ∨ word / 8 = 0 ∨ 536870911 < word / 8 ∨
    word % 8 = WireType.endGroup.code ∧ word / 8 ≠ inner

/-- A tag that is read is not forbidden, unless it ends another group. -/
theorem Forbidden.ends_other {inner : Nat} (h : Forbidden inner word) {form : Bytes}
    (isVarint : IsVarint word form) (tag : Tag.read (form ++ rest) = .ok (number, wire, bytes)) :
    wire = .endGroup ∧ number ≠ inner := by
  obtain ⟨front, same, isTag⟩ := Tag.read_eq_ok_iff.1 tag
  have read := Varint.read_of_isVarint isVarint rest
  rw [same, Varint.read_of_isVarint isTag.word] at read
  obtain ⟨rfl, -⟩ := Prod.mk.inj (Option.some.inj read)
  have code := wire.code_lt
  have low : (number * 8 + wire.code) % 8 = wire.code := by omega
  have high : (number * 8 + wire.code) / 8 = number := by omega
  have positive := isTag.positive
  have bounded := isTag.bounded
  rw [Forbidden, low, high] at h
  cases wire with
  | endGroup =>
      simp only [WireType.code] at h
      exact ⟨rfl, by omega⟩
  | _ =>
      simp only [WireType.code] at h
      omega

/-- A forbidden word inside a group makes the skipper fail. -/
theorem Within.skipGroup_ne {inner limit : Nat} {tail form more : Bytes}
    (h : Within number bytes inner tail) (same : tail = form ++ more)
    (isVarint : IsVarint word form) (forbidden : Forbidden inner word) :
    skipGroup (skipValue depth) number limit bytes ≠ .ok rest := by
  intro skipped
  induction h generalizing depth limit rest with
  | here =>
      subst same
      obtain ⟨fewer, found, wire, after, rfl, tag, left⟩ := exists_tag_of_skipGroup skipped
      obtain ⟨ended, other⟩ := forbidden.ends_other isVarint tag
      rcases left with ⟨-, here, -⟩ | ⟨inside, -⟩
      · exact other here
      · exact inside ended
  | past isTag value _ ih =>
      obtain ⟨fewer, found, wire, after, rfl, tag, left⟩ := exists_tag_of_skipGroup skipped
      rw [Tag.read_of_isTag isTag] at tag
      cases tag
      rcases left with ⟨ended, -, -⟩ | ⟨-, after', passed, others⟩
      · exact value.ne_endGroup ended
      · obtain ⟨front, same', isValue⟩ := exists_value_of_skipValue passed
        obtain ⟨rfl, rfl⟩ := value.eq_of_append_eq isValue same'
        exact ih same forbidden others
  | into isTag _ ih =>
      obtain ⟨fewer, found, wire, after, rfl, tag, left⟩ := exists_tag_of_skipGroup skipped
      rw [Tag.read_of_isTag isTag] at tag
      cases tag
      rcases left with ⟨ended, -, -⟩ | ⟨-, after', passed, -⟩
      · cases ended
      · -- the group that is entered is passed over by the skipper of one level less
        cases depth with
        | zero => simp [skipValue] at passed
        | succ depth => exact ih same forbidden passed

/-- The skipper leaves what follows one value of the grammar, if there is one, and fails otherwise;
the bytes begin with one such value at most. A tag that names no wire type, has no field number or
ends another group is rejected at any place inside a group. -/
theorem skipValue_grammar (depth number : Nat) (wire : WireType) (bytes : Bytes) :
    (∀ rest, skipValue depth number wire bytes = .ok rest ↔
      ∃ value, bytes = value ++ rest ∧ IsValue depth number wire value) ∧
    (∀ value value' rest rest', IsValue depth number wire value →
      IsValue depth number wire value' → bytes = value ++ rest → bytes = value' ++ rest' →
      value = value' ∧ rest = rest') ∧
    ∀ inner word form more, Within number bytes inner (form ++ more) → IsVarint word form →
      Forbidden inner word → ∀ rest, skipValue depth number .startGroup bytes ≠ .ok rest := by
  refine ⟨fun rest => skipValue_eq_ok_iff, ?_, ?_⟩
  · intro value value' rest rest' isValue isValue' same same'
    exact isValue.eq_of_append_eq isValue' (same.symm.trans same')
  · intro inner word form more within isVarint forbidden rest skipped
    cases depth with
    | zero => simp [skipValue] at skipped
    | succ depth => exact within.skipGroup_ne rfl isVarint forbidden skipped

/-- A group that holds another one, behind its start tag. -/
def nestedGroup : Bytes :=
  [0x08, 0x01, 0x1b, 0x25, 1, 2, 3, 4, 0x1c, 0x2a, 0x01, 0xaa, 0x14]

theorem isValue_nestedGroup : IsValue 2 2 .startGroup nestedGroup := by
  have skips : skipValue 2 2 .startGroup nestedGroup = .ok [] := rfl
  obtain ⟨value, same, isValue⟩ := exists_value_of_skipValue skips
  rw [List.append_nil] at same
  exact same ▸ isValue

/-- The group that holds another one is passed over and is the only value at the front of its
bytes; a tag of wire type six in the inner group is rejected. -/
theorem nestedGroup_grammar :
    (IsValue 2 2 .startGroup nestedGroup ∧
      skipValue 2 2 .startGroup (nestedGroup ++ [0xff]) = .ok [0xff]) ∧
    (∀ value rest, IsValue 2 2 .startGroup value → nestedGroup ++ [0xff] = value ++ rest →
      nestedGroup = value ∧ [0xff] = rest) ∧
    (Within 2 [0x08, 0x01, 0x1b, 0x0e, 0x1c, 0x14] 3 ([0x0e] ++ [0x1c, 0x14]) ∧
      IsVarint 14 [0x0e] ∧ Forbidden 3 14 ∧
      ∀ rest, skipValue 2 2 .startGroup [0x08, 0x01, 0x1b, 0x0e, 0x1c, 0x14] ≠ .ok rest) := by
  have outer : IsTag 1 .varint [0x08] := Tag.read_eq_ok_nil_iff.1 rfl
  have one : IsVarint 1 [0x01] := Varint.read_eq_some_nil_iff.1 rfl
  have inner : IsTag 3 .startGroup [0x1b] := Tag.read_eq_ok_nil_iff.1 rfl
  have within : Within 2 [0x08, 0x01, 0x1b, 0x0e, 0x1c, 0x14] 3 ([0x0e] ++ [0x1c, 0x14]) :=
    .past outer (@IsValue.varint 0 1 1 [0x01] one) (.into inner .here)
  have isVarint : IsVarint 14 [0x0e] := Varint.read_eq_some_nil_iff.1 rfl
  have accepted := skipValue_grammar 2 2 .startGroup (nestedGroup ++ [0xff])
  have rejected := skipValue_grammar 2 2 .startGroup [0x08, 0x01, 0x1b, 0x0e, 0x1c, 0x14]
  refine ⟨⟨isValue_nestedGroup, ?_⟩, ?_, within, isVarint, .inl rfl, ?_⟩
  · exact (accepted.1 [0xff]).2 ⟨nestedGroup, rfl, isValue_nestedGroup⟩
  · intro value rest isValue same
    exact accepted.2.1 nestedGroup value [0xff] rest isValue_nestedGroup isValue rfl same
  · exact rejected.2.2 3 14 [0x0e] [0x1c, 0x14] within isVarint (.inl rfl)

end ProtoWire
