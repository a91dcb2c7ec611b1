import ProtoWire.Proofs.Message.Decoding
import ProtoWire.Proofs.Message.Faults
import ProtoWire.Proofs.Registry.Coupling

/-!
# Records at the front of the input

A record that was read is read in the same way whatever follows it. This is shown for each reader,
from the scalars up to nested messages (`Coding.TakesFront`), and then for the records of both forms
(`Coding.Advances`), of which a run takes one after the other. In particular, what a reader leaves
is the end of what it was given.
-/

set_option autoImplicit false

namespace ProtoWire

/-! ## Readers of a front -/

/-- The same step with other bytes behind the record. -/
def Step.before (more : Bytes) : Step → Step
  | .next _ => .next more
  | .ended _ => .ended more
  | .failed error => .failed error

/-- What follows the record, unless the step failed. -/
def Step.rest? : Step → Option Bytes
  | .next rest | .ended rest => some rest
  | .failed _ => none

namespace Coding

/-- What the reader takes off the front it takes whatever follows, with the same result. -/
def TakesFront {α : Type} (reader : Bytes → Coding (α × Except Malformed Bytes)) : Prop :=
  ∀ store bytes result rest later, (reader bytes).run store = ((result, .ok rest), later) →
    ∃ front, bytes = front ++ rest ∧
      ∀ more, (reader (front ++ more)).run store = ((result, .ok more), later)

/-- The same of a reader that makes a step. -/
def StepsFront (reader : Bytes → Coding (Message × Step)) : Prop :=
  ∀ store bytes message outcome rest later,
    (reader bytes).run store = ((message, outcome), later) → outcome.rest? = some rest →
      ∃ front, bytes = front ++ rest ∧
        ∀ more, (reader (front ++ more)).run store = ((message, outcome.before more), later)

/-- The same of a reader of whole records, which takes at least one byte. -/
def Advances (reader : Bytes → Coding (Message × Step)) : Prop :=
  ∀ store bytes message outcome rest later,
    (reader bytes).run store = ((message, outcome), later) → outcome.rest? = some rest →
      ∃ front, front ≠ [] ∧ bytes = front ++ rest ∧
        ∀ more, (reader (front ++ more)).run store = ((message, outcome.before more), later)

/-- The merger, if there is one, takes groups off the front. -/
def TakesGroups (inside : Option Merger) : Prop :=
  ∀ merge, inside = some merge → ∀ number message, TakesFront (merge (some number) message)

/-- What is left after a record is the end of what there was. -/
theorem Advances.suffix {reader : Bytes → Coding (Message × Step)} (h : Advances reader)
    {store later : Store} {bytes rest : Bytes} {message : Message} {outcome : Step}
    (run : (reader bytes).run store = ((message, outcome), later))
    (left : outcome.rest? = some rest) : rest <:+ bytes := by
  obtain ⟨front, -, rfl, -⟩ := h _ _ _ _ _ _ run left
  exact List.suffix_append front rest

/-- What is asked before reading does not depend on the bytes. -/
theorem StepsFront.after {α : Type} {reader : α → Bytes → Coding (Message × Step)}
    (h : ∀ answer, StepsFront (reader answer)) (question : Coding α) :
    StepsFront fun bytes => question >>= fun answer => reader answer bytes := by
  intro store bytes message outcome rest later run left
  exact h (question.run store).1 (question.run store).2 bytes message outcome rest later run left

end Coding

open Coding (TakesFront StepsFront Advances TakesGroups run_bind run_pure)

/-! ## Values -/

theorem Kind.append_of_read {kind : Kind} {bytes rest : Bytes} {value : Value}
    (h : kind.read bytes = .ok (value, rest)) :
    ∃ front, bytes = front ++ rest ∧ ∀ more, kind.read (front ++ more) = .ok (value, more) := by
  rw [read] at h
  cases taken : Payload.read kind.wireType bytes with
  | error fault => simp [taken] at h
  | ok split =>
      obtain ⟨payload, after⟩ := split
      obtain ⟨front, -, rfl, reads⟩ := Payload.append_of_read taken
      simp only [taken] at h
      cases decoded : kind.ofPayload payload with
      | error fault => simp [decoded] at h
      | ok value' =>
          simp only [decoded, Except.ok.injEq, Prod.mk.injEq] at h
          obtain ⟨rfl, rfl⟩ := h
          refine ⟨front, rfl, fun more => ?_⟩
          rw [read, reads more]
          simp only [decoded]

namespace FieldCodec

variable {codec : FieldCodec} {wire : WireType} {inside : Option Merger}

theorem append_of_readItems {items after : List Value} {bytes rest : Bytes}
    (h : codec.readItems wire items bytes = (after, .ok rest)) :
    ∃ front, bytes = front ++ rest ∧
      ∀ more, codec.readItems wire items (front ++ more) = (after, .ok more) := by
  rw [readItems] at h
  split at h
  · next packed =>
      cases taken : Payload.readDelimited bytes with
      | error fault => simp [taken] at h
      | ok split =>
          obtain ⟨body, rest'⟩ := split
          obtain ⟨front, -, rfl, reads⟩ := Payload.append_of_readDelimited taken
          simp only [taken] at h
          -- the items are in the body, so what follows it plays no part
          cases read : readPacked codec.kind items.length body.length body with
          | mk values failure =>
              simp only [read] at h
              cases failure with
              | some error => simp at h
              | none =>
                  simp only [Prod.mk.injEq, Except.ok.injEq] at h
                  obtain ⟨rfl, rfl⟩ := h
                  refine ⟨front, rfl, fun more => ?_⟩
                  rw [readItems, if_pos packed, reads more]
                  simp only [read]
  · next single =>
      cases taken : codec.kind.read bytes with
      | error fault => simp [taken] at h
      | ok split =>
          obtain ⟨value, rest'⟩ := split
          obtain ⟨front, rfl, reads⟩ := Kind.append_of_read taken
          simp only [taken, Prod.mk.injEq, Except.ok.injEq] at h
          obtain ⟨rfl, rfl⟩ := h
          refine ⟨front, rfl, fun more => ?_⟩
          rw [readItems, if_neg single, reads more]

theorem append_of_readScalar {slot after : Option Value} {bytes rest : Bytes}
    (h : codec.readScalar wire slot bytes = (after, .ok rest)) :
    ∃ front, bytes = front ++ rest ∧
      ∀ more, codec.readScalar wire slot (front ++ more) = (after, .ok more) := by
  rw [readScalar] at h
  split at h
  · next repeated =>
      cases read : codec.readItems wire ((slot.map Value.items).getD []) bytes with
      | mk items outcome =>
          simp only [read, Prod.mk.injEq] at h
          obtain ⟨rfl, rfl⟩ := h
          obtain ⟨front, rfl, reads⟩ := append_of_readItems read
          refine ⟨front, rfl, fun more => ?_⟩
          rw [readScalar, if_pos repeated, reads more]
  · next single =>
      cases taken : codec.kind.read bytes with
      | error fault => simp [taken] at h
      | ok split =>
          obtain ⟨value, rest'⟩ := split
          obtain ⟨front, rfl, reads⟩ := Kind.append_of_read taken
          simp only [taken, Prod.mk.injEq, Except.ok.injEq] at h
          obtain ⟨rfl, rfl⟩ := h
          refine ⟨front, rfl, fun more => ?_⟩
          rw [readScalar, if_neg single, reads more]

/-- A message is framed by its length, or by the end tag of its group. -/
theorem takesFront_readNested (group : TakesGroups inside) (message : Message) :
    TakesFront (codec.readNested inside wire message) := by
  intro store bytes after rest later h
  cases inside with
  | none => cases h
  | some merge =>
      simp only [readNested] at h ⊢
      by_cases start : wire = .startGroup
      · simp only [start, if_true] at h ⊢
        exact group merge rfl codec.number message store bytes after rest later h
      · simp only [start, if_false] at h ⊢
        cases taken : Payload.readDelimited bytes with
        | error fault =>
            simp only [taken] at h
            cases h
        | ok split =>
            obtain ⟨body, rest'⟩ := split
            obtain ⟨front, -, rfl, reads⟩ := Payload.append_of_readDelimited taken
            simp only [taken, run_bind, run_pure] at h
            cases merged : (merge none message body).run store with
            | mk result store' =>
                obtain ⟨inner, outcome⟩ := result
                simp only [merged] at h
                cases outcome with
                | error error => cases h
                | ok last =>
                    cases h
                    refine ⟨front, rfl, fun more => ?_⟩
                    simp only [reads more, run_bind, run_pure, merged]
                    rfl

theorem takesFront_read (group : TakesGroups inside) (slot : Option Value) :
    TakesFront (codec.read inside wire slot) := by
  intro store bytes after rest later h
  simp only [read] at h ⊢
  cases scalar : codec.kind.isMessage with
  | false =>
      simp only [scalar, Bool.not_false, if_true, run_pure] at h ⊢
      obtain ⟨read, rfl⟩ := Prod.mk.inj h
      obtain ⟨front, rfl, reads⟩ := append_of_readScalar read
      exact ⟨front, rfl, fun more => Prod.ext (reads more) rfl⟩
  | true =>
      simp only [scalar, Bool.not_true, Bool.false_eq_true, if_false] at h ⊢
      cases value : codec.valueType with
      | none =>
          simp only [value] at h
          cases h
      | some type =>
          simp only [value] at h ⊢
          cases repeated : codec.arrangement.isRepeated with
          | true =>
              simp only [repeated, if_true, run_bind, run_pure] at h ⊢
              cases read : (codec.readNested inside wire type.newMessage bytes).run store with
              | mk result store' =>
                  obtain ⟨inner, outcome⟩ := result
                  simp only [read] at h
                  cases outcome with
                  | error error => cases h
                  | ok rest' =>
                      cases h
                      obtain ⟨front, rfl, reads⟩ := takesFront_readNested group _ _ _ _ _ _ read
                      refine ⟨front, rfl, fun more => ?_⟩
                      simp only [reads more]
                      rfl
          | false =>
              simp only [repeated, Bool.false_eq_true, if_false, run_bind, run_pure] at h ⊢
              cases read : (codec.readNested inside wire (startingMessage type slot) bytes).run
                  store with
              | mk result store' =>
                  obtain ⟨inner, outcome⟩ := result
                  simp only [read] at h
                  cases h
                  obtain ⟨front, rfl, reads⟩ := takesFront_readNested group _ _ _ _ _ _ read
                  refine ⟨front, rfl, fun more => ?_⟩
                  simp only [reads more]

end FieldCodec

namespace MessageOf

variable {inside : Option Merger} {depth : Nat} {table : FieldTable}

/-! ## Records -/

theorem stepsFront_mergePlace (group : TakesGroups inside) (place : Place) (message : Message)
    (wire : WireType) :
    StepsFront (mergePlace inside place message wire) := by
  intro store bytes after outcome rest later h left
  simp only [mergePlace, run_bind] at h ⊢
  cases read : (place.codec.read inside wire (place.held? message) bytes).run store with
  | mk result store' =>
      obtain ⟨slot, outcome'⟩ := result
      simp only [read] at h
      cases outcome' with
      | error error =>
          cases h
          cases left
      | ok rest' =>
          cases h
          cases left
          obtain ⟨front, rfl, reads⟩ := FieldCodec.takesFront_read group _ _ _ _ _ _ read
          refine ⟨front, rfl, fun more => ?_⟩
          simp only [reads more]
          rfl

/-- A record that is passed over is kept as it is, so that its bytes go into the message. -/
theorem stepsFront_mergeUnknown (head : Bytes) (number : Nat) (wire : WireType)
    (message : Message) :
    StepsFront fun bytes =>
      (return mergeUnknown depth message (head ++ bytes) number wire bytes) := by
  intro store bytes after outcome rest later h left
  simp only [run_pure, mergeUnknown] at h ⊢
  cases skipped : skipValue depth number wire bytes with
  | error error =>
      simp only [skipped] at h
      cases h
      cases left
  | ok rest' =>
      simp only [skipped] at h
      cases h
      cases left
      obtain ⟨front, rfl, skips⟩ := append_of_skipValue depth _ _ _ _ skipped
      refine ⟨front, rfl, fun more => ?_⟩
      simp only [skips more, ← List.append_assoc, Bytes.before_append]
      rfl

/-- A tag in front of what is read makes the record at least one byte long. -/
theorem advances_of_tag {reader : Bytes → Coding (Message × Step)}
    (noTag : ∀ store bytes fault, Tag.read bytes = .error fault →
      ((reader bytes).run store).1.2.rest? = none)
    (tagged : ∀ head number wire, (∀ more, Tag.read (head ++ more) = .ok (number, wire, more)) →
      StepsFront fun bytes => reader (head ++ bytes)) : Advances reader := by
  intro store bytes after outcome rest later h left
  cases tag : Tag.read bytes with
  | error fault =>
      have none := noTag store bytes fault tag
      rw [h] at none
      rw [none] at left
      cases left
  | ok taken =>
      obtain ⟨number, wire, bytes'⟩ := taken
      obtain ⟨head, nonempty, rfl, reads⟩ := Tag.append_of_read tag
      obtain ⟨front, rfl, reads'⟩ := tagged head number wire reads store bytes' after outcome rest
        later h left
      refine ⟨head ++ front, by simp [nonempty], by simp, fun more => ?_⟩
      rw [List.append_assoc]
      exact reads' more

theorem advances_mergeRecord (group : TakesGroups inside) (awaited : Option Nat)
    (message : Message) :
    Advances (mergeRecord inside depth table awaited message) := by
  apply advances_of_tag
  · intro store bytes fault tag
    rw [mergeRecord, tag]
    rfl
  · intro head number wire reads
    by_cases stop : wire = .endGroup
    -- the awaited end tag is all of its record
    · subst stop
      intro store bytes after outcome rest later h left
      simp only [mergeRecord, reads] at h ⊢
      split at h
      · next here =>
          cases h
          cases left
          exact ⟨[], rfl, fun more => by rw [if_pos here]; rfl⟩
      · cases h
        cases left
    · simp only [mergeRecord_eq (reads _) stop]
      cases declared : table.entry? number with
      | some entry =>
          simp only
          split
          · simp only [mergeField_eq]
            exact stepsFront_mergePlace group (.field entry) message wire
          · exact stepsFront_mergeUnknown head number wire message
      | none =>
          refine StepsFront.after (fun found => ?_) _
          cases found with
          | none => exact stepsFront_mergeUnknown head number wire message
          | some type =>
              refine StepsFront.after (fun codec => ?_) _
              split
              · simp only [mergeExtension_eq]
                exact stepsFront_mergePlace group (.extension type codec) message wire
              · exact stepsFront_mergeUnknown head number wire message

theorem advances_mergeSetRecord (message : Message) :
    Advances (mergeSetRecord inside depth message) := by
  apply advances_of_tag
  · intro store bytes fault tag
    rw [mergeSetRecord, tag]
    rfl
  · intro head number wire reads
    by_cases isItem : number = itemNumber ∧ wire = .startGroup
    · obtain ⟨rfl, rfl⟩ := isItem
      simp only [mergeSetRecord_item (reads _)]
      intro store bytes after outcome rest later h left
      cases item : readItem depth bytes with
      | error error =>
          simp only [item] at h
          cases h
          cases left
      | ok taken =>
          obtain ⟨parts, rest'⟩ := taken
          obtain ⟨front, rfl, reads'⟩ := append_of_readItem item
          cases parts with
          | none =>
              simp only [item, run_pure] at h
              cases h
              cases left
              refine ⟨front, rfl, fun more => ?_⟩
              simp only [reads' more, run_pure, ← List.append_assoc, Bytes.before_append]
              rfl
          | some named =>
              obtain ⟨number, body⟩ := named
              simp only [item, run_bind] at h
              cases found : (Coding.findExtension message.type number).run store with
              | mk answer store' =>
                  simp only [found] at h
                  cases answer with
                  | none =>
                      cases h
                      cases left
                      refine ⟨front, rfl, fun more => ?_⟩
                      simp only [reads' more, run_bind, found, run_pure, ← List.append_assoc,
                        Bytes.before_append]
                      rfl
                  | some type =>
                      simp only [run_bind] at h
                      cases merged : (mergeItem inside type message body).run store' with
                      | mk result store'' =>
                          obtain ⟨inner, failure⟩ := result
                          simp only [merged] at h
                          cases failure with
                          | some error =>
                              cases h
                              cases left
                          | none =>
                              cases h
                              cases left
                              refine ⟨front, rfl, fun more => ?_⟩
                              simp only [reads' more, run_bind, found, merged]
                              rfl
    · simp only [mergeSetRecord_other (reads _) isItem]
      exact stepsFront_mergeUnknown head number wire message

/-! ## Runs over records -/

section

variable {step : Message → Bytes → Coding (Message × Step)} {message after : Message}
  {bytes rest : Bytes} {store later : Store}

/-- The limit does not matter once there is one step for each byte. -/
theorem mergeRecords_congr (advances : ∀ message, Advances (step message))
    (atEnd : Except Malformed Bytes) {limit limit' : Nat} (enough : bytes.length ≤ limit)
    (enough' : bytes.length ≤ limit') :
    (mergeRecords step atEnd limit message bytes).run store =
      (mergeRecords step atEnd limit' message bytes).run store := by
  induction limit generalizing limit' message bytes store with
  | zero =>
      have none : bytes = [] := List.eq_nil_of_length_eq_zero (Nat.le_zero.1 enough)
      subst none
      cases limit' <;> rfl
  | succ limit ih =>
      cases bytes with
      | nil => cases limit' <;> rfl
      | cons byte bytes =>
          cases limit' with
          | zero => simp at enough'
          | succ limit' =>
              simp only [mergeRecords, run_bind]
              cases run : (step message (byte :: bytes)).run store with
              | mk result store' =>
                  obtain ⟨after, outcome⟩ := result
                  cases outcome with
                  | ended | failed => rfl
                  | next rest =>
                      obtain ⟨front, nonempty, same, -⟩ := advances message _ _ _ _ rest _ run rfl
                      -- each record takes a byte at least
                      have := List.length_pos_iff.2 nonempty
                      have length := congrArg List.length same
                      rw [List.length_append] at length
                      simp only [List.length_cons] at enough enough' length
                      exact ih (by omega) (by omega)

/-- A run over a first record and what follows it. -/
theorem run_mergeRecords_append {atEnd : Except Malformed Bytes} {limit : Nat} {front more : Bytes}
    {middle : Message} {outcome : Step} {store' : Store} (nonempty : front ≠ [])
    (enough : front.length ≤ limit)
    (first : (step message (front ++ more)).run store = ((middle, outcome), store')) :
    (mergeRecords step atEnd limit message (front ++ more)).run store =
      match outcome with
      | .next rest => (mergeRecords step atEnd (limit - 1) middle rest).run store'
      | .ended rest => ((middle, .ok rest), store')
      | .failed error => ((middle, .error error), store') := by
  cases front with
  | nil => exact absurd rfl nonempty
  | cons byte front =>
      cases limit with
      | zero => simp at enough
      | succ limit =>
          simp only [List.cons_append, mergeRecords, run_bind] at first ⊢
          simp only [first]
          cases outcome <;> rfl

/-- A run up to the end tag of a group. -/
theorem takesFront_mergeRecords (advances : ∀ message, Advances (step message))
    (error : Malformed) (message : Message) :
    TakesFront fun bytes => mergeRecords step (.error error) bytes.length message bytes := by
  have key : ∀ limit store bytes message after rest later,
      (mergeRecords step (.error error) limit message bytes).run store =
        ((after, .ok rest), later) →
        ∃ front, bytes = front ++ rest ∧ ∀ more limit', front.length ≤ limit' →
          (mergeRecords step (.error error) limit' message (front ++ more)).run store =
            ((after, .ok more), later) := by
    intro limit
    induction limit with
    | zero =>
        intro store bytes message after rest later h
        cases bytes <;> cases h
    | succ limit ih =>
        intro store bytes message after rest later h
        cases bytes with
        | nil => cases h
        | cons byte bytes =>
            simp only [mergeRecords, run_bind] at h
            cases run : (step message (byte :: bytes)).run store with
            | mk result store' =>
                obtain ⟨middle, outcome⟩ := result
                simp only [run] at h
                cases outcome with
                | failed error' => cases h
                | ended rest' =>
                    cases h
                    obtain ⟨front, nonempty, same, reads⟩ := advances message _ _ _ _ rest _ run rfl
                    refine ⟨front, same, fun more limit' enough => ?_⟩
                    rw [run_mergeRecords_append nonempty enough (reads more)]
                    rfl
                | next rest' =>
                    obtain ⟨front, nonempty, same, reads⟩ :=
                      advances message _ _ _ _ rest' _ run rfl
                    obtain ⟨others, rfl, reads'⟩ := ih _ _ _ _ _ _ h
                    refine ⟨front ++ others, by rw [same, List.append_assoc],
                      fun more limit' enough => ?_⟩
                    rw [List.length_append] at enough
                    have := List.length_pos_iff.2 nonempty
                    rw [List.append_assoc, run_mergeRecords_append nonempty (by omega)
                      (reads (others ++ more))]
                    exact reads' more _ (by omega)
  intro store bytes after rest later h
  obtain ⟨front, same, reads⟩ := key _ _ _ _ _ _ _ h
  exact ⟨front, same, fun more => reads more _ (by simp)⟩

end

/-! ## Messages -/

/-- A group takes its records and its end tag. -/
theorem takesFront_mergeBody (group : TakesGroups inside) (number : Nat) (message : Message) :
    TakesFront (mergeBody inside depth table (some number) message) :=
  takesFront_mergeRecords (fun message => advances_mergeRecord group (some number) message) _
    message.clearCachedSize

theorem takesFront_mergeInner (group : TakesGroups inside) (number : Nat) (message : Message) :
    TakesFront (mergeInner inside depth (some number) message) := by
  intro store bytes after rest later h
  simp only [mergeInner, run_bind] at h ⊢
  cases found : (Coding.table message.type).run store with
  | mk result store' =>
      simp only [found] at h
      cases result with
      | error error => cases h
      | ok table => exact takesFront_mergeBody group number message store' bytes after rest later h

theorem takesGroups_none : TakesGroups none := by
  simp [TakesGroups]

/-- Groups are taken off the front however deep they may nest. -/
theorem takesGroups_mergeAt (depth : Nat) : TakesGroups (some (mergeAt depth)) := by
  induction depth with
  | zero =>
      rintro _ ⟨⟩ number message
      exact takesFront_mergeInner takesGroups_none number message
  | succ depth ih =>
      rintro _ ⟨⟩ number message
      exact takesFront_mergeInner ih number message

end MessageOf

end ProtoWire
