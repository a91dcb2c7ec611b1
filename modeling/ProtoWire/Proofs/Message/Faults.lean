import ProtoWire.Proofs.Message.Item

/-!
# Faults of the bytes

A merge can fail for two reasons: the bytes are no message, or the table of a nested message is
missing. No reader of bytes gives the second reason.
-/

set_option autoImplicit false

namespace ProtoWire

/-- The fault is found in the bytes; it is not that of a missing table. -/
def InputFault.OfBytes (fault : InputFault) : Prop :=
  fault ≠ .nestedTable

section

variable {bytes : Bytes} {fault : InputFault} {error : Malformed}

/-- A length that is cut off, or is longer than what follows it, is a fault of the bytes. -/
theorem Payload.ofBytes_of_readDelimited (h : readDelimited bytes = .error fault) :
    fault.OfBytes := by
  rw [readDelimited] at h
  split at h
  · cases h
    simp [InputFault.OfBytes]
  · split at h <;> cases h
    simp [InputFault.OfBytes]

/-- So is a payload that is cut off, and a tag of a group has no payload. -/
theorem Payload.ofBytes_of_read {wire : WireType} (h : read wire bytes = .error fault) :
    fault.OfBytes := by
  cases wire with
  | lengthDelimited =>
      rw [read] at h
      split at h
      · next taken =>
          cases h
          exact ofBytes_of_readDelimited taken
      · cases h
  | startGroup | endGroup =>
      cases h
      simp [InputFault.OfBytes]
  | varint | fixed64 | fixed32 =>
      rw [read] at h
      split at h <;> cases h
      simp [InputFault.OfBytes]

/-- A kind refuses payloads of other wire types, and a string refuses bytes that are no text. -/
theorem Kind.ofBytes_of_ofPayload {kind : Kind} {payload : Payload}
    (h : kind.ofPayload payload = .error fault) : fault.OfBytes := by
  have cause : fault = .invalidUtf8 ∨ fault = .unexpectedWireType := by
    cases kind <;> cases payload <;> simp only [ofPayload] at h <;>
      first
        | (cases h; done)
        | (cases h; exact .inr rfl)
        | (split at h <;> cases h; exact .inl rfl)
  rcases cause with rfl | rfl <;> simp [InputFault.OfBytes]

/-- Reading a scalar fails in its payload, or in what the kind makes of the payload. -/
theorem Kind.ofBytes_of_read {kind : Kind} (h : kind.read bytes = .error fault) :
    fault.OfBytes := by
  rw [read] at h
  split at h
  · next taken =>
      cases h
      exact Payload.ofBytes_of_read taken
  · split at h
    · next taken =>
        cases h
        exact ofBytes_of_ofPayload taken
    · cases h

/-- A tag is cut off, or it has a number or a wire type that there is not. -/
theorem Tag.ofBytes_of_read (h : read bytes = .error fault) : fault.OfBytes := by
  rw [read] at h
  split at h
  · cases h
    simp [InputFault.OfBytes]
  · split at h
    · cases h
      simp [InputFault.OfBytes]
    · split at h <;> cases h
      simp [InputFault.OfBytes]

/-- Passing over a group fails at its end, or in one of the records inside. -/
theorem ofBytes_of_skipGroup {skip : Nat → WireType → Bytes → Except Malformed Bytes}
    (skips : ∀ number wire bytes error, skip number wire bytes = .error error →
      error.fault.OfBytes) {number limit : Nat}
    (h : skipGroup skip number limit bytes = .error error) : error.fault.OfBytes := by
  have ended : (Malformed.here .unterminatedGroup).fault.OfBytes := by
    simp [InputFault.OfBytes, Malformed.here]
  induction limit generalizing bytes with
  | zero =>
      cases bytes <;> simp only [skipGroup] at h <;> cases h <;> exact ended
  | succ limit ih =>
      cases bytes with
      | nil =>
          cases h
          exact ended
      | cons byte bytes =>
          cases tag : Tag.read (byte :: bytes) with
          | error fault =>
              simp only [skipGroup, tag] at h
              cases h
              exact Tag.ofBytes_of_read tag
          | ok taken =>
              obtain ⟨inner, wire, rest⟩ := taken
              rw [skipGroup_succ (by simp) tag] at h
              split at h
              · split at h <;> cases h
                simp [InputFault.OfBytes, Malformed.here, Malformed.under]
              · split at h
                · next skipped =>
                    cases h
                    have inside := skips _ _ _ _ skipped
                    exact inside
                · exact ih h

/-- Outside of groups, passing over a record fails like reading its payload. -/
theorem ofBytes_of_skipPayload {depth number : Nat} {wire : WireType} (start : wire ≠ .startGroup)
    (h : skipValue depth number wire bytes = .error error) : error.fault.OfBytes := by
  by_cases stop : wire = .endGroup
  · subst stop
    have fault : error.fault = .unexpectedEndGroup := by
      cases depth <;> simp only [skipValue] at h <;> cases h <;> rfl
    simp [InputFault.OfBytes, fault]
  · rw [skipValue_of_ne start stop] at h
    split at h
    · next taken =>
        cases h
        exact Payload.ofBytes_of_read taken
    · cases h

/-- However deep its groups nest, no table is needed to pass over a record. -/
theorem ofBytes_of_skipValue {depth number : Nat} {wire : WireType}
    (h : skipValue depth number wire bytes = .error error) : error.fault.OfBytes := by
  induction depth generalizing number wire bytes error with
  | zero =>
      by_cases start : wire = .startGroup
      · subst start
        cases h
        simp [InputFault.OfBytes, Malformed.here, Malformed.under]
      · exact ofBytes_of_skipPayload start h
  | succ depth ih =>
      by_cases start : wire = .startGroup
      · subst start
        exact ofBytes_of_skipGroup (fun _ _ _ _ skipped => ih skipped) h
      · exact ofBytes_of_skipPayload start h

/-- Values in one record fail like single values. -/
theorem FieldCodec.ofBytes_of_readPacked {kind : Kind} {position limit : Nat} {values : List Value}
    (h : readPacked kind position limit bytes = (values, some error)) : error.fault.OfBytes := by
  induction limit generalizing bytes position values with
  | zero => cases bytes <;> cases h
  | succ limit ih =>
      cases bytes with
      | nil => cases h
      | cons byte bytes =>
          rw [readPacked] at h
          split at h
          · next taken =>
              cases h
              exact Kind.ofBytes_of_read taken
          · simp only [Prod.mk.injEq] at h
            exact ih (Prod.ext rfl h.2)

theorem MessageOf.ofBytes_of_readPart {depth number : Nat} {wire : WireType} {parts : ItemParts}
    (h : readPart depth number wire parts bytes = .error error) : error.fault.OfBytes := by
  rw [readPart] at h
  split at h
  · split at h <;> cases h
    simp [InputFault.OfBytes, Malformed.here]
  · split at h
    · split at h
      · next taken =>
          cases h
          exact Payload.ofBytes_of_readDelimited taken
      · cases h
    · split at h
      · next skipped =>
          cases h
          exact ofBytes_of_skipValue skipped
      · cases h

/-- The parts of an item are taken as bytes, so that reading it needs no table either. -/
theorem MessageOf.ofBytes_of_readItem {depth : Nat} (h : readItem depth bytes = .error error) :
    error.fault.OfBytes := by
  have ended : (Malformed.here .unterminatedGroup).fault.OfBytes := by
    simp [InputFault.OfBytes, Malformed.here]
  have parts : ∀ limit parts bytes, readItemParts depth limit parts bytes = .error error →
      error.fault.OfBytes := by
    intro limit
    induction limit with
    | zero =>
        intro parts bytes h
        cases bytes <;> cases h <;> exact ended
    | succ limit ih =>
        intro parts bytes h
        cases bytes with
        | nil =>
            cases h
            exact ended
        | cons byte bytes =>
            cases tag : Tag.read (byte :: bytes) with
            | error fault =>
                simp only [readItemParts, tag] at h
                cases h
                exact Tag.ofBytes_of_read tag
            | ok taken =>
                obtain ⟨number, wire, rest⟩ := taken
                rw [readItemParts_succ (by simp) tag] at h
                split at h
                · cases h
                · split at h
                  · next part =>
                      cases h
                      exact ofBytes_of_readPart part
                  · exact ih _ _ h
  rw [readItem] at h
  split at h
  · next failed =>
      cases h
      exact parts _ _ _ failed
  · cases h
  · cases h

end

end ProtoWire
