import ProtoWire.Wire.Skip

/-!
# Reading takes bytes off the front

What a reader takes from the front of its input it takes whatever bytes follow. This holds of
payloads (`Payload.append_of_read`) and of values that are passed over
(`append_of_skipValue`), so that a record that was kept as it is reads as the same record in
any other place.
-/

set_option autoImplicit false

namespace ProtoWire

namespace Tag

variable {number : Nat} {wire : WireType} {record value : Bytes}

/-- A tag is read from the front. -/
theorem read_append (h : read record = .ok (number, wire, value)) (rest : Bytes) :
    read (record ++ rest) = .ok (number, wire, value ++ rest) := by
  obtain ⟨front, -, rfl, reads⟩ := append_of_read h
  rw [List.append_assoc]
  exact reads (value ++ rest)

theorem ne_nil_of_read (h : read record = .ok (number, wire, value)) : record ≠ [] := by
  obtain ⟨front, nonempty, rfl, -⟩ := append_of_read h
  simp [nonempty]

end Tag

namespace Payload

/-- A delimited value is read from a front that is not empty, whatever follows it. -/
theorem append_of_readDelimited {bytes body rest : Bytes}
    (h : readDelimited bytes = .ok (body, rest)) :
    ∃ front, front ≠ [] ∧ bytes = front ++ rest ∧
      ∀ more, readDelimited (front ++ more) = .ok (body, more) := by
  rw [readDelimited] at h
  cases word : Varint.read bytes with
  | none => simp [word] at h
  | some taken =>
      obtain ⟨length, after⟩ := taken
      obtain ⟨front, nonempty, rfl, reads⟩ := Varint.append_of_read word
      simp only [word] at h
      cases split : Bytes.split? length after with
      | none => simp [split] at h
      | some taken =>
          simp only [split, Except.ok.injEq] at h
          subst h
          -- the front is the length together with the body that it announces
          obtain ⟨size, rfl⟩ := Bytes.append_of_split? split
          refine ⟨front ++ body, by simp [nonempty], by simp, fun more => ?_⟩
          rw [readDelimited, List.append_assoc, reads (body ++ more)]
          simp only [← size, Bytes.split?_append]

/-- What a length announces is part of the input. -/
theorem infix_of_readDelimited {bytes body rest : Bytes}
    (h : readDelimited bytes = .ok (body, rest)) : body <:+: bytes := by
  rw [readDelimited] at h
  cases word : Varint.read bytes with
  | none => simp [word] at h
  | some taken =>
      obtain ⟨length, after⟩ := taken
      obtain ⟨front, -, rfl, -⟩ := Varint.append_of_read word
      simp only [word] at h
      cases split : Bytes.split? length after with
      | none => simp [split] at h
      | some taken =>
          simp only [split, Except.ok.injEq] at h
          subst h
          obtain ⟨-, rfl⟩ := Bytes.append_of_split? split
          exact ⟨front, rest, by simp⟩

/-- A word of some bytes is split off whatever follows it. -/
theorem append_of_splitWord {count : Nat} (positive : 0 < count) {bytes : Bytes}
    {taken : Bytes × Bytes} (h : Bytes.split? count bytes = some taken) :
    taken.1 ≠ [] ∧ bytes = taken.1 ++ taken.2 ∧
      ∀ more, Bytes.split? count (taken.1 ++ more) = some (taken.1, more) := by
  obtain ⟨size, same⟩ := Bytes.append_of_split? h
  refine ⟨?_, same, fun more => ?_⟩
  · intro empty
    rw [empty, List.length_nil] at size
    omega
  · rw [← size]
    exact Bytes.split?_append taken.1 more

/-- The same of any payload. -/
theorem append_of_read {wire : WireType} {bytes rest : Bytes} {payload : Payload}
    (h : read wire bytes = .ok (payload, rest)) :
    ∃ front, front ≠ [] ∧ bytes = front ++ rest ∧
      ∀ more, read wire (front ++ more) = .ok (payload, more) := by
  cases wire with
  | varint =>
      rw [read] at h
      cases word : Varint.read bytes with
      | none => simp [word] at h
      | some taken =>
          obtain ⟨front, nonempty, rfl, reads⟩ := Varint.append_of_read word
          simp only [word, Except.ok.injEq, Prod.mk.injEq] at h
          obtain ⟨rfl, rfl⟩ := h
          exact ⟨front, nonempty, rfl, fun more => by rw [read, reads more]⟩
  | fixed64 =>
      rw [read] at h
      cases split : Bytes.split? 8 bytes with
      | none => simp [split] at h
      | some taken =>
          obtain ⟨nonempty, rfl, splits⟩ := append_of_splitWord (by decide) split
          simp only [split, Except.ok.injEq, Prod.mk.injEq] at h
          obtain ⟨rfl, rfl⟩ := h
          exact ⟨_, nonempty, rfl, fun more => by rw [read, splits more]⟩
  | fixed32 =>
      rw [read] at h
      cases split : Bytes.split? 4 bytes with
      | none => simp [split] at h
      | some taken =>
          obtain ⟨nonempty, rfl, splits⟩ := append_of_splitWord (by decide) split
          simp only [split, Except.ok.injEq, Prod.mk.injEq] at h
          obtain ⟨rfl, rfl⟩ := h
          exact ⟨_, nonempty, rfl, fun more => by rw [read, splits more]⟩
  | lengthDelimited =>
      rw [read] at h
      cases taken : readDelimited bytes with
      | error fault => simp [taken] at h
      | ok split =>
          obtain ⟨front, nonempty, rfl, reads⟩ := append_of_readDelimited taken
          simp only [taken, Except.ok.injEq, Prod.mk.injEq] at h
          obtain ⟨rfl, rfl⟩ := h
          exact ⟨front, nonempty, rfl, fun more => by rw [read, reads more]⟩
  | startGroup => simp [read] at h
  | endGroup => simp [read] at h

end Payload

/-! ## Values passed over -/

/-- A skipper takes bytes off the front. -/
def SkipsFront (skip : Nat → WireType → Bytes → Except Malformed Bytes) : Prop :=
  ∀ number wire bytes rest, skip number wire bytes = .ok rest →
    ∃ front, bytes = front ++ rest ∧ ∀ more, skip number wire (front ++ more) = .ok more

/-- Skipping a group skips its first record, and then the rest of the group. -/
theorem skipGroup_succ {skip : Nat → WireType → Bytes → Except Malformed Bytes}
    {number inner limit : Nat} {wire : WireType} {bytes rest : Bytes} (nonempty : bytes ≠ [])
    (tag : Tag.read bytes = .ok (inner, wire, rest)) :
    skipGroup skip number (limit + 1) bytes =
      if wire = .endGroup then
        if inner = number then .ok rest
        else .error ((Malformed.here .unexpectedEndGroup).under (.field inner))
      else
        match skip inner wire rest with
        | .error error => .error (error.under (.field number))
        | .ok rest' => skipGroup skip number limit rest' := by
  cases bytes with
  | nil => exact absurd rfl nonempty
  | cons byte bytes =>
      rw [skipGroup]
      simp only [tag]
      cases wire <;> rfl

/-- A group that is passed over begins with its end tag, or with a value that is passed over in
front of the others. -/
theorem exists_tag_of_skipGroup {skip : Nat → WireType → Bytes → Except Malformed Bytes}
    {number limit : Nat} {bytes rest : Bytes} (h : skipGroup skip number limit bytes = .ok rest) :
    ∃ fewer inner wire after, limit = fewer + 1 ∧ Tag.read bytes = .ok (inner, wire, after) ∧
      (wire = .endGroup ∧ inner = number ∧ after = rest ∨
        wire ≠ .endGroup ∧ ∃ after', skip inner wire after = .ok after' ∧
          skipGroup skip number fewer after' = .ok rest) := by
  cases bytes with
  | nil => cases limit <;> simp [skipGroup] at h
  | cons byte bytes =>
      cases limit with
      | zero => simp [skipGroup] at h
      | succ fewer =>
          cases tag : Tag.read (byte :: bytes) with
          | error fault => simp [skipGroup, tag] at h
          | ok taken =>
              obtain ⟨inner, wire, after⟩ := taken
              rw [skipGroup_succ (by simp) tag] at h
              refine ⟨fewer, inner, wire, after, rfl, rfl, ?_⟩
              split at h
              · next ended =>
                  split at h
                  · next here =>
                      cases h
                      exact .inl ⟨ended, here, rfl⟩
                  · simp at h
              · next inside =>
                  cases skipped : skip inner wire after with
                  | error error => simp [skipped] at h
                  | ok after' =>
                      simp only [skipped] at h
                      exact .inr ⟨inside, after', rfl, h⟩

/-- A group is skipped from the front, if each of its records is. -/
theorem append_of_skipGroup {skip : Nat → WireType → Bytes → Except Malformed Bytes}
    (skips : SkipsFront skip) {number limit : Nat} {bytes rest : Bytes}
    (h : skipGroup skip number limit bytes = .ok rest) :
    ∃ front, bytes = front ++ rest ∧
      ∀ more limit', front.length ≤ limit' →
        skipGroup skip number limit' (front ++ more) = .ok more := by
  -- induction on the records of the group; the limit that was enough here counts them, but any
  -- limit as large as the number of bytes will do
  induction limit generalizing bytes with
  | zero => cases bytes <;> simp [skipGroup] at h
  | succ limit ih =>
      obtain ⟨_, inner, wire, after, same, tag, left⟩ := exists_tag_of_skipGroup h
      obtain rfl := Nat.succ.inj same
      obtain ⟨head, nonempty, rfl, reads⟩ := Tag.append_of_read tag
      -- at least the tag is in front, so one record is within any limit
      have room : ∀ limit', head.length ≤ limit' → ∃ fewer, limit' = fewer + 1 := by
        intro limit' enough
        have := List.length_pos_iff.2 nonempty
        exact ⟨limit' - 1, by omega⟩
      -- an end tag stops the group if it bears its number, any other record is passed over
      rcases left with ⟨ended, here, rfl⟩ | ⟨inside, after', skipped, more⟩
      · refine ⟨head, rfl, fun more limit' enough => ?_⟩
        obtain ⟨fewer, rfl⟩ := room limit' enough
        rw [skipGroup_succ (by simp [nonempty]) (reads more), if_pos ended, if_pos here]
      · obtain ⟨value, rfl, skips'⟩ := skips inner wire after after' skipped
        obtain ⟨others, rfl, others'⟩ := ih more
        refine ⟨head ++ (value ++ others), by simp, fun more limit' enough => ?_⟩
        simp only [List.length_append] at enough
        obtain ⟨fewer, rfl⟩ := room limit' (by omega)
        have := List.length_pos_iff.2 nonempty
        rw [List.append_assoc, List.append_assoc,
          skipGroup_succ (by simp [nonempty]) (reads (value ++ (others ++ more))),
          if_neg inside, skips' (others ++ more)]
        exact others' more fewer (by omega)

theorem skipValue_of_ne {wire : WireType} (start : wire ≠ .startGroup) (stop : wire ≠ .endGroup)
    (depth number : Nat) (bytes : Bytes) :
    skipValue depth number wire bytes =
      match Payload.read wire bytes with
      | .error fault => .error (.here fault)
      | .ok (_, rest) => .ok rest := by
  cases wire <;> first | contradiction | (cases depth <;> rfl)

theorem append_of_skipPayload {depth number : Nat} {wire : WireType} {bytes rest : Bytes}
    (start : wire ≠ .startGroup) (h : skipValue depth number wire bytes = .ok rest) :
    ∃ front, bytes = front ++ rest ∧
      ∀ more, skipValue depth number wire (front ++ more) = .ok more := by
  by_cases stop : wire = .endGroup
  · subst stop
    cases depth <;> simp [skipValue] at h
  · rw [skipValue_of_ne start stop] at h
    cases taken : Payload.read wire bytes with
    | error fault => simp [taken] at h
    | ok split =>
        obtain ⟨payload, after⟩ := split
        simp only [taken, Except.ok.injEq] at h
        subst h
        obtain ⟨front, -, same, reads⟩ := Payload.append_of_read taken
        refine ⟨front, same, fun more => ?_⟩
        rw [skipValue_of_ne start stop, reads more]

/-- A value that is passed over is passed over wherever it stands. -/
theorem append_of_skipValue (depth : Nat) : SkipsFront (skipValue depth) := by
  -- a group is passed over by a skipper of one level less, anything else by reading a payload
  induction depth with
  | zero =>
      intro number wire bytes rest h
      by_cases start : wire = .startGroup
      · simp [start, skipValue] at h
      · exact append_of_skipPayload start h
  | succ depth ih =>
      intro number wire bytes rest h
      by_cases start : wire = .startGroup
      · subst start
        simp only [skipValue] at h ⊢
        obtain ⟨front, same, skips⟩ := append_of_skipGroup ih h
        exact ⟨front, same, fun more => skips more _ (by simp)⟩
      · exact append_of_skipPayload start h

theorem skipValue_append {depth number : Nat} {wire : WireType} {value : Bytes}
    (h : skipValue depth number wire value = .ok []) (rest : Bytes) :
    skipValue depth number wire (value ++ rest) = .ok rest := by
  obtain ⟨front, rfl, skips⟩ := append_of_skipValue depth number wire _ _ h
  rw [List.append_nil]
  exact skips rest

/-- An end tag is no value to skip. -/
theorem ne_endGroup_of_skipValue {depth number : Nat} {wire : WireType} {bytes rest : Bytes}
    (h : skipValue depth number wire bytes = .ok rest) : wire ≠ .endGroup := by
  rintro rfl
  cases depth <;> simp [skipValue] at h

end ProtoWire
