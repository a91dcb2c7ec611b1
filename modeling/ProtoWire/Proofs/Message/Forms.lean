import ProtoWire.Proofs.Message.Marshaling
import ProtoWire.Proofs.Message.Rendering

/-!
# Renderings and wire forms

A wire form is either bytes or an error; a rendering also has the bytes that were written before
the error. Apart from these bytes they are the same (`MessageOf.Registered.agrees`), in a message
as in each of its fields and extensions, so that what was written without failure is the wire form
of what was written.
-/

set_option autoImplicit false

namespace ProtoWire

open Coding (Ensures)

/-! ## Outputs one after another -/

namespace Output

/-- An output that did not fail is its bytes. -/
theorem eq_ofBytes_of_toPiece {output : Output} {bytes : Bytes} (h : output.toPiece = .ok bytes) :
    output = ofBytes bytes := by
  obtain ⟨written, failure⟩ := output
  cases failure <;> simp [toPiece] at h
  rw [h]
  rfl

theorem toPiece_of_not_failed {output : Output} (h : output.failed = false) :
    output.toPiece = .ok output.bytes := by
  obtain ⟨bytes, failure⟩ := output
  cases failure with
  | none => rfl
  | some error => simp [failed] at h

/-- Outputs one after the other are pieces joined. -/
theorem toPiece_concat (outputs : List Output) :
    (concat outputs).toPiece = Piece.join (outputs.map toPiece) := by
  induction outputs with
  | nil => rfl
  | cons output outputs ih =>
      rw [concat, List.map_cons]
      exact toPiece_andThen_join ih

end Output

/-! ## Messages -/

namespace MessageOf

/-- Apart from what is written before a failure, the rendering of the message is its wire form,
of which the tally is the length. -/
structure Agrees (catalog : Catalog) (message : Message) : Prop where
  piece : (message.render catalog).toPiece = message.wireForm catalog
  length : (message.wireForm catalog).HasSize (message.tally catalog)

/-- Marshaling writes the rendering and the wire form. -/
theorem Registered.agrees {store : Store} {message : Message}
    (registered : message.Registered store) (sound : store.Sound) (keyed : message.Keyed) :
    message.Agrees store.catalog := by
  have untrusted : ∀ {P : Prop}, false = true → P := by simp
  obtain ⟨written, marshals, rendering⟩ :=
    ensures_marshalAt_render sound registered keyed (Nat.le_refl _) untrusted
  obtain ⟨written', marshals', form⟩ :=
    ensures_marshalAt sound registered (Nat.le_refl _) untrusted
  obtain rfl := marshals.run.symm.trans marshals'.run
  obtain ⟨sized, sizes, tally⟩ := tallies_measureAt sound registered (Nat.le_refl _) untrusted
  obtain ⟨sized', sizes', exact⟩ := measures_measureAt sound registered (Nat.le_refl _) untrusted
  obtain rfl := sizes.run.symm.trans sizes'.run
  exact ⟨by rw [← rendering.2, form], by rw [← tally.2]; exact exact.2.2⟩

end MessageOf

/-! ## Fields and extensions -/

section

variable {catalog : Catalog}

namespace FieldCodec

variable {codec : FieldCodec} {value : Value}

/-- A message in a value is rendered as it is written, if the messages in the value are. -/
theorem toPiece_renderNested (agrees : ∀ inner ∈ value.messages, inner.Agrees catalog) :
    (codec.renderNested (MessageOf.render catalog) catalog value).toPiece =
      codec.wireNested (MessageOf.wireForm catalog) value := by
  cases value with
  | message inner =>
      obtain ⟨piece, length⟩ := agrees inner (by simp)
      simp only [renderNested, wireNested]
      by_cases declared : codec.valueType = some inner.type
      · simp only [declared, ne_eq, not_true_eq_false, if_false]
        cases form : inner.wireForm catalog with
        | error error => split <;> simp [Output.toPiece_andThen, piece, form, Piece.join]
        | ok body =>
            rw [length body form]
            split <;> simp [Output.toPiece_andThen, piece, form, Piece.join]
      · simp only [declared, ne_eq, not_false_eq_true, if_true, Output.toPiece_failHere]
  | _ => rfl

/-- Nothing is lost between a value's form with the bytes before an error and its form without. -/
theorem toPiece_render (agrees : ∀ inner ∈ value.messages, inner.Agrees catalog) :
    (codec.render (MessageOf.render catalog) catalog value).toPiece =
      codec.wire (MessageOf.wireForm catalog) value := by
  simp only [render, wire]
  cases codec.kind.isMessage with
  | false => rfl
  | true =>
      cases codec.arrangement.isRepeated with
      | false => exact toPiece_renderNested agrees
      | true =>
          cases value with
          | list items =>
              simp only [Bool.not_true, Bool.false_eq_true, if_false, if_true]
              rw [renderEach, Output.toPiece_concat, List.map_map, wireEach, Piece.each]
              congr 1
              apply List.map_congr_left
              intro item mem
              have listed : item.1 ∈ items := by
                rw [(List.mem_zipIdx mem).2.2]
                exact List.getElem_mem _
              rw [Function.comp_apply, Output.toPiece_under, toPiece_renderNested fun inner h =>
                agrees inner (Value.mem_messages_of_mem_items listed h)]
          | _ => rfl

end FieldCodec

namespace MessageOf

/-- The same of an extension. -/
theorem toPiece_renderAttached {owner : MessageType} {entry : Attached}
    (agrees : ∀ inner ∈ entry.value.messages, inner.Agrees catalog) :
    (renderAttached (render catalog) catalog owner entry).toPiece =
      wireAttached (wireForm catalog) catalog owner entry := by
  rw [renderAttached, Output.toPiece_under, FieldCodec.toPiece_render agrees, wireAttached]

theorem toPiece_renderSlot {message : Message} {entry : FieldEntry}
    (agrees : ∀ inner ∈ message.children, inner.Agrees catalog) :
    (message.renderSlot (render catalog) catalog entry).toPiece =
      message.wireSlot (wireForm catalog) entry := by
  rw [renderSlot, wireSlot]
  cases held : message.slot? entry.position with
  | none => rfl
  | some value =>
      have inside : ∀ inner ∈ value.messages, inner.Agrees catalog := fun inner h =>
        agrees inner (mem_children_of_slot? held h)
      simp only [Output.toPiece_under, FieldCodec.toPiece_render inside]

theorem toPiece_renderItem {entry : Attached}
    (agrees : ∀ inner ∈ entry.value.messages, inner.Agrees catalog) :
    (renderItem (render catalog) catalog entry).toPiece = wireItem (wireForm catalog) entry := by
  rw [renderItem, wireItem]
  cases item : itemMessage entry with
  | error fault => rfl
  | ok inner =>
      obtain ⟨piece, length⟩ := agrees inner (mem_messages_of_itemMessage item)
      simp only
      cases found : catalog.table inner.type with
      | error error =>
          simp only [wireForm_of_error found]
          rfl
      | ok table =>
          cases form : inner.wireForm catalog with
          | error error => simp [Output.toPiece_andThen, piece, form, Piece.join]
          | ok body =>
              rw [length body form]
              simp [Output.toPiece_andThen, piece, form, Piece.join]

end MessageOf

end

end ProtoWire
