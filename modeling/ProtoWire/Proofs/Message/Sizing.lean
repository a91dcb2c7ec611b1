import ProtoWire.Proofs.Message.Access
import ProtoWire.Proofs.Message.Registered
import ProtoWire.Proofs.Message.WireForm
import ProtoWire.Proofs.Schema.Table

/-!
# Sizes are exact

Sizing a message whose wire form exists gives the length of the wire form, and leaves a message
that is `Sized`: each size kept in it, at every depth that writing visits, is the length of
the wire form of the message that keeps it. Both hold whatever the caches held before, and
sizing that trusts the caches of a sized message does the same (`measures_measureAt`).
-/

set_option autoImplicit false

namespace ProtoWire

/-! ## Lengths of joined pieces -/

namespace Piece

/-- A size is right for a piece if it is the number of its bytes, should it have any. -/
def HasSize (piece : Piece) (size : Nat) : Prop :=
  ∀ bytes, piece = .ok bytes → size = bytes.length

theorem hasSize_under {step : PathStep} {piece : Piece} {size : Nat} :
    (piece.under step).HasSize size ↔ piece.HasSize size := by
  simp only [HasSize, under_eq_ok_iff]

@[simp]
theorem hasSize_ok {bytes : Bytes} {size : Nat} :
    HasSize (.ok bytes) size ↔ size = bytes.length := by
  simp [HasSize]

/-- A piece that cannot be written has any size. -/
@[simp]
theorem hasSize_error {error : Unencodable} {size : Nat} : HasSize (.error error) size := by
  simp [HasSize]

theorem hasSize_join_nil : (join []).HasSize 0 := by
  simp

/-- Sizes add up as pieces are joined. -/
theorem hasSize_join_cons {piece : Piece} {pieces : List Piece} {first rest : Nat}
    (h : piece.HasSize first) (h' : (join pieces).HasSize rest) :
    (join (piece :: pieces)).HasSize (first + rest) := by
  intro bytes joined
  obtain ⟨front, back, eq, eq', rfl⟩ := join_cons_eq_ok_iff.1 joined
  rw [List.length_append, h front eq, h' back eq']

theorem hasSize_join_append {left right : List Piece} {first rest : Nat}
    (h : (join left).HasSize first) (h' : (join right).HasSize rest) :
    (join (left ++ right)).HasSize (first + rest) := by
  rw [join_append]
  have last := hasSize_join_cons h' hasSize_join_nil
  exact hasSize_join_cons h last

theorem hasSize_join_single (bytes : Bytes) : (join [.ok bytes]).HasSize bytes.length := by
  simp [join]

/-- The order of the pieces does not change their total length. -/
theorem length_join_perm {left right : List Piece} (perm : left.Perm right) {bytes : Bytes}
    (h : join left = .ok bytes) :
    ∃ bytes', join right = .ok bytes' ∧ bytes'.length = bytes.length := by
  -- an error anywhere would be one of the other order, too, so both orders have bytes
  induction perm generalizing bytes with
  | nil => exact ⟨bytes, h, rfl⟩
  | cons piece _ ih =>
      obtain ⟨first, rest, rfl, joined, rfl⟩ := join_cons_eq_ok_iff.1 h
      obtain ⟨rest', joined', same⟩ := ih joined
      exact ⟨first ++ rest', join_cons_eq_ok_iff.2 ⟨first, rest', rfl, joined', rfl⟩, by
        simp [same]⟩
  | swap a b pieces =>
      obtain ⟨first, others, rfl, joined, rfl⟩ := join_cons_eq_ok_iff.1 h
      obtain ⟨second, rest, rfl, joined', rfl⟩ := join_cons_eq_ok_iff.1 joined
      have inner := join_cons_eq_ok_iff.2 ⟨first, rest, rfl, joined', rfl⟩
      refine ⟨second ++ (first ++ rest), join_cons_eq_ok_iff.2 ⟨_, _, rfl, inner, rfl⟩, ?_⟩
      simp only [List.length_append]
      omega
  | trans _ _ ih ih' =>
      obtain ⟨middle, joined, same⟩ := ih h
      obtain ⟨last, joined', same'⟩ := ih' joined
      exact ⟨last, joined', same'.trans same⟩

theorem hasSize_join_perm {left right : List Piece} {size : Nat} (perm : left.Perm right)
    (h : (join left).HasSize size) : (join right).HasSize size := by
  intro bytes joined
  obtain ⟨bytes', joined', same⟩ := length_join_perm perm.symm joined
  rw [h bytes' joined', same]

end Piece

/-! ## Scalar fields -/

namespace FieldCodec

variable (codec : FieldCodec)

@[simp]
theorem length_tag : codec.tag.length = codec.tagSize := by
  rw [tag, tagSize, Tag.length_write]

theorem hasSize_writeRecord (value : Value) :
    (codec.writeRecord value).toPiece.HasSize (codec.recordSize value) := by
  rw [writeRecord, recordSize]
  cases codec.kind.payload? value <;> simp

theorem hasSize_writeRecords (position : Nat) (values : List Value) :
    (codec.writeRecords position values).toPiece.HasSize (codec.recordsSize values) := by
  induction values generalizing position with
  | nil => exact Piece.hasSize_join_nil
  | cons value values ih =>
      rw [writeRecords, recordsSize, Output.toPiece_andThen]
      refine Piece.hasSize_join_cons ?_ (Piece.hasSize_join_cons (ih _) Piece.hasSize_join_nil)
      rw [Output.toPiece_under, Piece.hasSize_under]
      exact codec.hasSize_writeRecord value

/-- A packed list is sized as it is written: its tag, its length and its payloads, or nothing if it
is empty. -/
theorem hasSize_writePacked (packed : codec.arrangement = .packed) (values : List Value) :
    (codec.writePacked values).toPiece.HasSize (codec.scalarSize (.list values)) := by
  simp only [writePacked, scalarSize, packed, Value.items]
  -- a list without items is not written at all, not even its tag
  cases values with
  | nil => exact Piece.hasSize_join_nil
  | cons value values =>
      rw [List.isEmpty_cons, if_neg Bool.false_ne_true]
      cases all : codec.payloads 0 (value :: values) with
      | error error => exact Piece.hasSize_error
      | ok payloads =>
          simp only [all, Output.toPiece_ofBytes, Piece.hasSize_ok, List.length_append, length_tag,
            Varint.length_write, Payload.length_flatMap_write]

/-- A field without presence takes no bytes if it holds a zero. -/
theorem hasSize_writeImplicit (implicit : codec.arrangement = .implicit) (value : Value) :
    (codec.writeScalar value).toPiece.HasSize (codec.scalarSize value) := by
  simp only [writeScalar, scalarSize, implicit]
  cases codec.kind.payload? value with
  | none => exact Piece.hasSize_error
  | some payload =>
      simp only
      by_cases zero : payload.isZero
      · rw [if_pos zero, if_pos zero]
        exact Piece.hasSize_join_nil
      · rw [if_neg zero, if_neg zero]
        simp

/-- The size of a scalar field is the number of bytes it is written in. -/
theorem hasSize_writeScalar (value : Value) :
    (codec.writeScalar value).toPiece.HasSize (codec.scalarSize value) := by
  -- the arrangements for repeated fields expect a list and fail on any other value
  cases arrangement : codec.arrangement with
  | implicit => exact codec.hasSize_writeImplicit arrangement value
  | explicit =>
      simp only [writeScalar, scalarSize, arrangement]
      exact codec.hasSize_writeRecord value
  | packed =>
      cases value with
      | list items =>
          have written := codec.hasSize_writePacked arrangement items
          simpa only [writeScalar, arrangement] using written
      | _ => simp [writeScalar, arrangement]
  | expanded =>
      cases value with
      | list items =>
          simp only [writeScalar, scalarSize, arrangement]
          exact codec.hasSize_writeRecords 0 items
      | _ => simp [writeScalar, arrangement]

end FieldCodec

/-! ## What sizing leaves -/

namespace FieldCodec

/-- The messages that coding a value visits. -/
def visited (codec : FieldCodec) (value : Value) : List Message :=
  if !codec.kind.isMessage then []
  else if codec.arrangement.isRepeated then (Value.items value).filterMap codec.instance?
  else (codec.instance? value).toList

/-- Only messages of the field's type are measured. -/
theorem eq_message_of_instance? {codec : FieldCodec} {value : Value} {inner : Message}
    (h : codec.instance? value = some inner) :
    value = .message inner ∧ codec.valueType = some inner.type := by
  cases value with
  | message message =>
      rw [instance?] at h
      split at h
      · next declared =>
          cases h
          exact ⟨rfl, declared⟩
      · simp at h
  | _ => simp [instance?] at h

/-- What is measured in a value are messages in it. -/
theorem mem_messages_of_mem_visited {codec : FieldCodec} {value : Value} {inner : Message}
    (h : inner ∈ codec.visited value) : inner ∈ value.messages := by
  rw [visited] at h
  split at h
  · simp at h
  · split at h
    · obtain ⟨item, mem, eq⟩ := List.mem_filterMap.1 h
      -- only a list has items
      cases value with
      | list items =>
          rw [(eq_message_of_instance? eq).1] at mem
          rw [Value.messages_list]
          exact List.mem_flatMap.2 ⟨_, mem, by simp⟩
      | _ => simp [Value.items] at mem
    · rw [Option.mem_toList] at h
      rw [(eq_message_of_instance? h).1]
      simp

end FieldCodec

namespace MessageOf

/-- The messages that coding an extension of a message of type `owner` visits. -/
def visitedAttached (catalog : Catalog) (isMessageSet : Bool) (owner : MessageType)
    (entry : Attached) : List Message :=
  if isMessageSet then (itemMessage entry).toOption.toList
  else (catalog.codec owner entry.type).visited entry.value

/-- The messages that coding a message visits. -/
def visited (catalog : Catalog) (message : Message) : List Message :=
  match catalog.table message.type with
  | .error _ => []
  | .ok table =>
      message.attached.flatMap (visitedAttached catalog table.isMessageSet message.type) ++
        if table.isMessageSet then []
        else
          table.writingOrder.flatMap fun entry =>
            (message.slot? entry.position).elim [] entry.codec.visited

/-- Each size kept in a message, and in the messages that coding it visits, is the length of a
wire form. -/
inductive Sized (catalog : Catalog) : Message → Prop
  | intro {message : Message} :
      (∀ size, message.cache = .filled size → (message.wireForm catalog).HasSize size) →
      (∀ inner ∈ message.visited catalog, Sized catalog inner) →
      Sized catalog message

/-- Sizing a message changes nothing but the caches, which are right afterwards, and so is the
size. -/
def Measures (store : Store) (measure : Message → Coding (Message × Nat)) (message : Message) :
    Prop :=
  Coding.Ensures store (measure message) fun sized =>
    sized.1.uncached = message.uncached ∧ Sized store.catalog sized.1 ∧
      (message.wireForm store.catalog).HasSize sized.2

end MessageOf

/-! ## Sizing fields -/

namespace FieldCodec

open Coding

variable {store : Store} {measure : Message → Coding (Message × Nat)} {codec : FieldCodec}

/-- A message in a value is measured, and the value is sized with its prefix or with its tags.
Nothing but caches changes. -/
theorem ensures_nestedSize {value : Value}
    (measures : ∀ inner, codec.instance? value = some inner → inner.Measures store measure) :
    Ensures store (codec.nestedSize measure value) fun sized =>
      sized.1.uncached = value.uncached ∧
        (∀ inner, codec.instance? sized.1 = some inner → inner.Sized store.catalog) ∧
        (codec.wireNested (MessageOf.wireForm store.catalog) value).HasSize sized.2 := by
  rw [nestedSize]
  cases held : codec.instance? value with
  | none =>
      -- what is no message of the field's type has the size zero, and writing it fails
      refine ensures_pure ⟨rfl, by simp [held], ?_⟩
      cases value with
      | message inner =>
          have foreign : codec.valueType ≠ some inner.type := by
            intro declared
            simp [instance?, declared] at held
          simp [wireNested, foreign]
      | _ => simp [wireNested]
  | some inner =>
      obtain ⟨rfl, declared⟩ := eq_message_of_instance? held
      apply (measures inner held).bind
      rintro ⟨sized, body⟩ ⟨same, right, size⟩
      -- sizing the message inside keeps its type, so it is visited again
      have type : sized.type = inner.type := by
        rw [← MessageOf.type_uncached, same, MessageOf.type_uncached]
      have inside : ∀ other, codec.instance? (.message sized) = some other →
          other.Sized store.catalog := by
        intro other found
        obtain ⟨eq, -⟩ := eq_message_of_instance? found
        cases eq
        exact right
      have same' : (Value.message sized).uncached = (Value.message inner).uncached := by
        rw [Value.uncached_message, same, Value.uncached_message]
      simp only [wireNested, declared, ne_eq, not_true_eq_false, if_false]
      cases form : inner.wireForm store.catalog with
      | error error =>
          split <;> exact ensures_pure ⟨same', inside, Piece.hasSize_error⟩
      | ok bytes =>
          have exact := size bytes form
          simp only at exact
          subst exact
          split
          -- a group ends with a tag as long as the one that it starts with
          · refine ensures_pure ⟨same', inside, ?_⟩
            simp only [Piece.hasSize_ok, List.length_append, length_tag, tagSize, endTag,
              Tag.length_write, Tag.size_eq]
            omega
          -- any other message stands behind the number of its bytes
          · refine ensures_pure ⟨same', inside, ?_⟩
            simp only [Piece.hasSize_ok, List.length_append, length_tag, Varint.length_write]

/-- The same item by item. -/
theorem ensures_sizeEach {items : List Value}
    (measures : ∀ inner ∈ items.filterMap codec.instance?, inner.Measures store measure) :
    Ensures store (sizeEach (codec.nestedSize measure) items) fun sized =>
      sized.1.map Value.uncached = items.map Value.uncached ∧
        (∀ inner ∈ sized.1.filterMap codec.instance?, inner.Sized store.catalog) ∧
        ∀ position, (Piece.join
          (codec.wireEach (MessageOf.wireForm store.catalog) position items)).HasSize sized.2 := by
  induction items with
  | nil => exact ensures_pure ⟨rfl, by simp, fun _ => Piece.hasSize_join_nil⟩
  | cons item items ih =>
      have first : ∀ inner, codec.instance? item = some inner → inner.Measures store measure :=
        fun inner found => measures inner (List.mem_filterMap.2 ⟨item, List.mem_cons_self, found⟩)
      have others : ∀ inner ∈ items.filterMap codec.instance?, inner.Measures store measure := by
        intro inner mem
        obtain ⟨other, inside, found⟩ := List.mem_filterMap.1 mem
        exact measures inner (List.mem_filterMap.2 ⟨other, List.mem_cons_of_mem _ inside, found⟩)
      rw [sizeEach]
      -- the first item is sized, then the others
      apply (ensures_nestedSize first).bind
      rintro ⟨sized, front⟩ ⟨same, right, size⟩
      apply (ih others).bind
      rintro ⟨rest, back⟩ ⟨same', right', size'⟩
      refine ensures_pure ⟨?_, ?_, ?_⟩
      · exact congrArg₂ List.cons same same'
      · intro inner mem
        obtain ⟨other, inside, found⟩ := List.mem_filterMap.1 mem
        rcases List.mem_cons.1 inside with rfl | inside
        · exact right inner found
        · exact right' inner (List.mem_filterMap.2 ⟨other, inside, found⟩)
      · intro position
        exact Piece.hasSize_join_cons (Piece.hasSize_under.2 size) (size' (position + 1))

/-- Sizing a value changes nothing but the caches in it, which are right afterwards, and so is
the size. -/
theorem ensures_size {value : Value}
    (measures : ∀ inner ∈ codec.visited value, inner.Measures store measure) :
    Ensures store (codec.size measure value) fun sized =>
      sized.1.uncached = value.uncached ∧
        (∀ inner ∈ codec.visited sized.1, inner.Sized store.catalog) ∧
        (codec.wire (MessageOf.wireForm store.catalog) value).HasSize sized.2 := by
  cases nested : codec.kind.isMessage with
  | false =>
      simp only [size, visited, wire, nested, Bool.not_false, if_true]
      exact ensures_pure ⟨rfl, by simp, codec.hasSize_writeScalar value⟩
  | true =>
      cases repeated : codec.arrangement.isRepeated with
      | false =>
          simp only [size, visited, wire, nested, repeated, Bool.not_true, Bool.false_eq_true,
            if_false, Option.mem_toList] at measures ⊢
          exact ensures_nestedSize measures
      | true =>
          cases value with
          | list items =>
              simp only [size, visited, wire, nested, repeated, Bool.not_true,
                Bool.false_eq_true, if_false, if_true, Value.items] at measures ⊢
              apply (ensures_sizeEach measures).bind
              rintro ⟨sized, total⟩ ⟨same, right, size⟩
              refine ensures_pure ⟨?_, right, size 0⟩
              rw [Value.uncached_list, Value.uncached_list, same]
          -- without a list there is nothing to visit, and writing fails
          | _ =>
              simp only [size, visited, wire, nested, repeated, Bool.not_true,
                Bool.false_eq_true, if_false, if_true]
              exact ensures_pure ⟨rfl, by simp [Value.items], by simp⟩

end FieldCodec

/-! ## Sizing messages -/

namespace MessageOf

open Coding

variable {store : Store} {measure : Message → Coding (Message × Nat)}

/-- What sizing the fields of some entries leaves of a message. -/
structure FieldsSized (catalog : Catalog) (entries : List FieldEntry) (message : Message)
    (sized : Message × Nat) : Prop where
  same : sized.1.uncached = message.uncached
  extensions : sized.1.extensions = message.extensions
  /-- Other slots are left alone. -/
  others : ∀ position, position ∉ entries.map (·.position) →
    sized.1.slot? position = message.slot? position
  right : ∀ entry ∈ entries, ∀ value, sized.1.slot? entry.position = some value →
    ∀ inner ∈ entry.codec.visited value, inner.Sized catalog
  size : (Piece.join (entries.map (message.wireSlot (wireForm catalog)))).HasSize sized.2

theorem fieldsSized_nil (catalog : Catalog) (message : Message) :
    FieldsSized catalog [] message (message, 0) :=
  ⟨rfl, rfl, fun _ _ => rfl, by simp, Piece.hasSize_join_nil⟩

section

variable {catalog : Catalog} {entry : FieldEntry} {entries : List FieldEntry}
  {message sized : Message} {first rest : Nat}

/-- An empty field takes no bytes. -/
theorem FieldsSized.cons_none (apart : entry.position ∉ entries.map (·.position))
    (empty : message.slot? entry.position = none)
    (h : FieldsSized catalog entries message (sized, rest)) :
    FieldsSized catalog (entry :: entries) message (sized, rest) := by
  refine ⟨h.same, h.extensions, ?_, ?_, ?_⟩
  · intro position outside
    exact h.others position fun mem => outside (List.mem_cons_of_mem _ mem)
  · intro other mem value found
    rcases List.mem_cons.1 mem with rfl | mem
    · -- the slot is still empty
      rw [h.others _ apart, empty] at found
      simp at found
    · exact h.right other mem value found
  · rw [List.map_cons, wireSlot, empty]
    have nothing : Piece.HasSize (.ok []) 0 := by simp
    have both := Piece.hasSize_join_cons nothing h.size
    rwa [Nat.zero_add] at both

/-- Putting a value into the slot of an entry leaves the slots of the others alone. -/
theorem slot?_putSlot_of_mem {position : Nat} (apart : position ∉ entries.map (·.position))
    (slot : Option Value) {other : FieldEntry} (mem : other ∈ entries) :
    (message.putSlot position slot).slot? other.position = message.slot? other.position := by
  apply slot?_putSlot_of_ne
  rintro rfl
  exact apart (List.mem_map_of_mem mem)

/-- A field that holds a value adds the size of its wire form, and puts the measured value back. -/
theorem FieldsSized.cons_some {value value' : Value}
    (apart : entry.position ∉ entries.map (·.position))
    (held : message.slot? entry.position = some value) (same : value'.uncached = value.uncached)
    (right : ∀ inner ∈ entry.codec.visited value', inner.Sized catalog)
    (size : (entry.codec.wire (wireForm catalog) value).HasSize first)
    (h : FieldsSized catalog entries (message.putSlot entry.position (some value'))
      (sized, rest)) :
    FieldsSized catalog (entry :: entries) message (sized, first + rest) := by
  have others := h.others
  refine ⟨?_, h.extensions, ?_, ?_, ?_⟩
  · -- up to caches, the value that was put back is the one that was there
    have kept : message.uncached.slot? entry.position = some value.uncached := by
      rw [slot?_uncached, held]
      rfl
    have same' := h.same
    simp only at same'
    rw [same', putSlot_uncached, Option.map_some, same, putSlot_slot? kept]
  · intro position outside
    rw [List.map_cons, List.mem_cons, not_or] at outside
    simp only at others
    rw [others position outside.2, slot?_putSlot_of_ne message outside.1]
  · intro other mem value'' found
    rcases List.mem_cons.1 mem with rfl | mem
    · simp only at others
      rw [others _ apart, slot?_putSlot_self message (lt_length_of_slot? held)] at found
      cases found
      exact right
    · exact h.right other mem value'' found
  · have size' := h.size
    rw [List.map_congr_left fun other mem =>
      wireSlot_congr (slot?_putSlot_of_mem apart (some value') mem)] at size'
    rw [List.map_cons]
    refine Piece.hasSize_join_cons ?_ size'
    rw [wireSlot, held]
    exact Piece.hasSize_under.2 size

end

/-- Fields are sized one after the other, in the order of writing. The positions differ, so that
none is measured twice. -/
theorem ensures_sizeFields {entries : List FieldEntry} {message : Message}
    (distinct : (entries.map (·.position)).Nodup)
    (measures : ∀ entry ∈ entries, ∀ value, message.slot? entry.position = some value →
      ∀ inner ∈ entry.codec.visited value, inner.Measures store measure) :
    Ensures store (sizeFields measure entries message)
      (FieldsSized store.catalog entries message) := by
  induction entries generalizing message with
  | nil => exact ensures_pure (fieldsSized_nil store.catalog message)
  | cons entry entries ih =>
      rw [List.map_cons, List.nodup_cons] at distinct
      obtain ⟨apart, distinct⟩ := distinct
      rw [sizeFields]
      cases held : message.slot? entry.position with
      | none =>
          have sized := ih distinct fun other mem => measures other (List.mem_cons_of_mem _ mem)
          exact sized.mono fun _ h => h.cons_none apart held
      | some value =>
          refine (FieldCodec.ensures_size
            (measures entry List.mem_cons_self value held)).bind ?_
          rintro ⟨value', first⟩ ⟨same, right, size⟩
          -- the other entries go on with the message in which the sized value stands
          have below : ∀ other ∈ entries, ∀ value'',
              (message.putSlot entry.position (some value')).slot? other.position = some value'' →
              ∀ inner ∈ other.codec.visited value'', inner.Measures store measure := by
            intro other mem value'' found
            rw [slot?_putSlot_of_mem apart (some value') mem] at found
            exact measures other (List.mem_cons_of_mem _ mem) value'' found
          apply (ih distinct below).bind
          rintro ⟨sized, rest⟩ h
          exact ensures_pure (h.cons_some apart held same right size)

/-- What sizing some extensions leaves of them, given the messages that it visits in an
extension and the piece that the extension is. -/
structure AttachedSized (catalog : Catalog) (visited : Attached → List Message)
    (piece : Attached → Piece) (entries : List Attached) (sized : List Attached × Nat) :
    Prop where
  same : sized.1.map AttachedOf.uncached = entries.map AttachedOf.uncached
  right : ∀ entry ∈ sized.1, ∀ inner ∈ visited entry, inner.Sized catalog
  size : (Piece.join (entries.map piece)).HasSize sized.2

theorem attachedSized_nil (catalog : Catalog) (visited : Attached → List Message)
    (piece : Attached → Piece) : AttachedSized catalog visited piece [] ([], 0) :=
  ⟨rfl, by simp, Piece.hasSize_join_nil⟩

/-- An extension in front adds the size of its own form. -/
theorem AttachedSized.cons {catalog : Catalog} {visited : Attached → List Message}
    {piece : Attached → Piece} {entry sized : Attached} {entries rest : List Attached}
    {first others : Nat} (h : AttachedSized catalog visited piece entries (rest, others))
    (same : sized.uncached = entry.uncached)
    (right : ∀ inner ∈ visited sized, inner.Sized catalog) (size : (piece entry).HasSize first) :
    AttachedSized catalog visited piece (entry :: entries) (sized :: rest, first + others) := by
  refine ⟨?_, ?_, Piece.hasSize_join_cons size h.size⟩
  · exact congrArg₂ List.cons same h.same
  · intro other mem
    rcases List.mem_cons.1 mem with rfl | mem
    · exact right
    · exact h.right other mem

/-- Extensions are sized one after the other, each by the codec in the catalog. -/
theorem ensures_sizeAttached (sound : store.Sound) {owner : MessageType}
    (held : store.Holds owner) {entries : List Attached}
    (declared : ∀ entry ∈ entries, store.Declares owner.registry entry.type)
    (measures : ∀ entry ∈ entries, ∀ inner ∈ visitedAttached store.catalog false owner entry,
      inner.Measures store measure) :
    Ensures store (sizeAttached measure owner entries)
      (AttachedSized store.catalog (visitedAttached store.catalog false owner)
        (wireAttached (wireForm store.catalog) store.catalog owner) entries) := by
  induction entries with
  | nil => exact ensures_pure (attachedSized_nil _ _ _)
  | cons entry entries ih =>
      rw [sizeAttached]
      apply (yields_extensionCodec sound held (declared entry List.mem_cons_self)).bind_ensures
      apply (FieldCodec.ensures_size (measures entry List.mem_cons_self)).bind
      rintro ⟨value, first⟩ ⟨same, right, size⟩
      refine (ih (fun other mem => declared other (List.mem_cons_of_mem _ mem))
        fun other mem => measures other (List.mem_cons_of_mem _ mem)).bind ?_
      rintro ⟨rest, others⟩ h
      -- the value was put back as the value of the same extension
      refine ensures_pure (h.cons ?_ right (Piece.hasSize_under.2 size))
      exact congrArg (AttachedOf.mk entry.type) same

theorem mem_visitedAttached_item {catalog : Catalog} {owner : MessageType} {entry : Attached}
    {inner : Message} :
    inner ∈ visitedAttached catalog true owner entry ↔ itemMessage entry = .ok inner := by
  rw [visitedAttached, if_pos rfl, Option.mem_toList]
  cases itemMessage entry <;> simp [Except.toOption]

/-- An item is its four tags, its number, the length of its body and the body. -/
theorem hasSize_wireItem {form : Message → Piece} {entry : Attached} {inner : Message}
    (item : itemMessage entry = .ok inner) {body : Nat} (h : (form inner).HasSize body) :
    (wireItem form entry).HasSize
      (itemTags + Varint.size entry.type.number + Varint.size body + body) := by
  simp only [wireItem, item]
  cases inside : form inner with
  | error error => exact Piece.hasSize_error
  | ok bytes =>
      obtain rfl := h bytes inside
      -- the four tags of an item are of one byte each
      have one : ∀ number wire, number < 16 → (Tag.write number wire).length = 1 := by
        intro number wire small
        rw [Tag.length_write, Tag.size_eq, Varint.size_of_lt (by omega)]
      simp only [Piece.hasSize_ok, List.length_append, Varint.length_write, itemTags,
        one itemNumber _ (by decide), one itemTypeNumber _ (by decide),
        one itemMessageNumber _ (by decide)]
      omega

/-- Items of a message set are sized one after the other. What is no item has no wire form, and so
it may count for nothing. -/
theorem ensures_sizeItems (sound : store.Sound) {owner : MessageType}
    (held : store.Holds owner) {entries : List Attached}
    (declared : ∀ entry ∈ entries, store.Declares owner.registry entry.type)
    (measures : ∀ entry ∈ entries, ∀ inner ∈ visitedAttached store.catalog true owner entry,
      inner.Measures store measure) :
    Ensures store (sizeItems measure owner entries)
      (AttachedSized store.catalog (visitedAttached store.catalog true owner)
        (fun entry => (wireItem (wireForm store.catalog) entry).under (.field entry.type.number))
        entries) := by
  induction entries with
  | nil => exact ensures_pure (attachedSized_nil _ _ _)
  | cons entry entries ih =>
      have rest := ih (fun other mem => declared other (List.mem_cons_of_mem _ mem))
        fun other mem => measures other (List.mem_cons_of_mem _ mem)
      rw [sizeItems]
      apply (yields_extensionCodec sound held (declared entry List.mem_cons_self)).bind_ensures
      -- an extension without a message of its type counts for nothing, and writing it fails
      cases item : itemMessage entry with
      | error fault =>
          apply rest.bind
          rintro ⟨rest, others⟩ h
          apply ensures_pure
          rw [← Nat.zero_add others]
          refine h.cons rfl ?_ (by simp [wireItem, item])
          intro other mem
          rw [mem_visitedAttached_item, item] at mem
          simp at mem
      | ok inner =>
          have inside := measures entry List.mem_cons_self inner (mem_visitedAttached_item.2 item)
          apply inside.bind
          rintro ⟨sized, body⟩ ⟨same, right, size⟩
          apply rest.bind
          rintro ⟨rest, others⟩ h
          refine ensures_pure (h.cons ?_ ?_ ?_)
          · rw [AttachedOf.uncached, AttachedOf.uncached, (itemMessage_eq_ok_iff.1 item).1,
              Value.uncached_message, Value.uncached_message, same]
          · intro other mem
            rw [mem_visitedAttached_item, itemMessage_eq_ok_iff] at mem
            obtain ⟨eq, -⟩ := mem
            cases eq
            exact right
          · exact Piece.hasSize_under.2 (hasSize_wireItem item size)

/-! ## Whole messages -/

theorem mem_visited_of_attached {catalog : Catalog} {message inner : Message} {table : FieldTable}
    (found : catalog.table message.type = .ok table) {entry : Attached}
    (mem : entry ∈ message.attached)
    (h : inner ∈ visitedAttached catalog table.isMessageSet message.type entry) :
    inner ∈ message.visited catalog := by
  simp only [visited, found]
  exact List.mem_append_left _ (List.mem_flatMap.2 ⟨entry, mem, h⟩)

theorem mem_visited_of_slot? {catalog : Catalog} {message inner : Message} {table : FieldTable}
    (found : catalog.table message.type = .ok table) (regular : table.isMessageSet = false)
    {entry : FieldEntry} (mem : entry ∈ table.writingOrder) {value : Value}
    (held : message.slot? entry.position = some value) (h : inner ∈ entry.codec.visited value) :
    inner ∈ message.visited catalog := by
  simp only [visited, found, regular]
  refine List.mem_append_right _ (List.mem_flatMap.2 ⟨entry, mem, ?_⟩)
  rw [held]
  exact h

theorem mem_messages_of_mem_visitedAttached {catalog : Catalog} {isMessageSet : Bool}
    {owner : MessageType} {entry : Attached} {inner : Message}
    (h : inner ∈ visitedAttached catalog isMessageSet owner entry) :
    inner ∈ entry.value.messages := by
  cases isMessageSet with
  | true =>
      rw [mem_visitedAttached_item, itemMessage_eq_ok_iff] at h
      simp [h.1]
  | false => exact FieldCodec.mem_messages_of_mem_visited h

/-- What is measured in a message are messages inside it. -/
theorem mem_children_of_mem_visited {catalog : Catalog} {message inner : Message}
    (h : inner ∈ message.visited catalog) : inner ∈ message.children := by
  simp only [visited] at h
  split at h
  · simp at h
  -- extensions are visited first, then fields
  · rcases List.mem_append.1 h with h | h
    · obtain ⟨entry, mem, inside⟩ := List.mem_flatMap.1 h
      exact mem_children_of_attached mem
        (mem_messages_of_mem_visitedAttached inside)
    · split at h
      · simp at h
      · obtain ⟨entry, -, inside⟩ := List.mem_flatMap.1 h
        cases held : message.slot? entry.position with
        | none => simp [held] at inside
        | some value =>
            rw [held] at inside
            exact mem_children_of_slot? held
              (FieldCodec.mem_messages_of_mem_visited inside)

/-- The message with some other extensions, if it has a place for extensions. -/
def withAttached (message : Message) (entries : List Attached) : Message :=
  { message with extensions := message.extensions.map fun _ => entries }

theorem mem_of_mem_attached_withAttached {message : Message} {entries : List Attached}
    {entry : Attached} (h : entry ∈ (message.withAttached entries).attached) :
    entry ∈ entries := by
  simp only [attached, withAttached] at h
  cases place : message.extensions with
  | none => simp [place] at h
  | some before => simpa [place] using h

/-- Extensions that differ in caches only make no other message of it. -/
theorem uncached_withAttached {message : Message} {entries : List Attached}
    (same : entries.map AttachedOf.uncached = message.attached.map AttachedOf.uncached) :
    (message.withAttached entries).uncached = message.uncached := by
  simp only [uncached_eq, withAttached, Option.map_map]
  congr 1
  cases place : message.extensions with
  | none => rfl
  | some before =>
      simp only [attached, place, Option.getD_some] at same
      simp [same]

theorem uncached_storeSize (message : Message) (size : Nat) :
    (message.storeSize size).uncached = message.uncached := by
  simp only [uncached_eq, storeSize]
  cases message.cache <;> rfl

theorem eq_of_filled_storeSize {message : Message} {size kept : Nat}
    (h : (message.storeSize size).cache = .filled kept) : kept = size := by
  simp only [storeSize] at h
  cases cache : message.cache with
  | absent => simp [cache, SizeCache.store] at h
  | empty => simpa [cache, SizeCache.store, eq_comm] using h
  | filled before => simpa [cache, SizeCache.store, eq_comm] using h

/-- A message whose visited messages are sized is sized once it keeps its own size. -/
theorem sized_storeSize {catalog : Catalog} {message : Message} {size : Nat}
    (right : ∀ inner ∈ message.visited catalog, inner.Sized catalog)
    (h : (message.wireForm catalog).HasSize size) : (message.storeSize size).Sized catalog := by
  refine .intro ?_ right
  intro kept filled
  rw [eq_of_filled_storeSize filled, wireForm_congr (uncached_storeSize message size)]
  exact h

section

variable (sound : store.Sound) {message : Message} (registered : message.Registered store)
  {table : FieldTable} (found : store.catalog.table message.type = .ok table)
  (measures : ∀ inner ∈ message.visited store.catalog, inner.Measures store measure)

include sound registered found measures

/-- The message set is sized by its items, the caches of their messages being right then. -/
theorem ensures_sizeBody_set (isSet : table.isMessageSet = true) :
    Ensures store (sizeBody measure table message) fun sized =>
      sized.1.uncached = message.uncached ∧ sized.1.Sized store.catalog ∧
        (message.wireForm store.catalog).HasSize sized.2 := by
  have form := wireForm_eq store.catalog message
  simp only [wireBody, found, wirePieces, isSet, if_true] at form
  have inside : ∀ entry ∈ message.attached,
      ∀ inner ∈ visitedAttached store.catalog true message.type entry,
      inner.Measures store measure := by
    intro entry mem inner h
    rw [← isSet] at h
    exact measures inner (mem_visited_of_attached found mem h)
  rw [sizeBody, if_pos isSet]
  refine (ensures_sizeItems sound registered.holds (fun _ mem => registered.declares mem)
    inside).bind ?_
  rintro ⟨entries, items⟩ ⟨same, right, size⟩
  have kept : (message.withAttached entries).uncached = message.uncached :=
    uncached_withAttached same
  -- items are sized in the order in which they are attached, and written by number
  have total : (message.wireForm store.catalog).HasSize
      (items + (message.unknown.getD []).length) := by
    rw [form]
    exact Piece.hasSize_join_append
      (Piece.hasSize_join_perm (message.perm_attachedByNumber.symm.map _) size)
      (Piece.hasSize_join_single _)
  have sized : ((message.withAttached entries).storeSize
      (items + (message.unknown.getD []).length)).Sized store.catalog := by
    refine sized_storeSize ?_ ?_
    · intro inner h
      simp only [visited, withAttached, found, isSet, if_true, List.append_nil] at h
      obtain ⟨entry, mem, inside⟩ := List.mem_flatMap.1 h
      exact right entry (mem_of_mem_attached_withAttached mem) inner inside
    · rw [wireForm_congr kept]
      exact total
  exact ensures_pure ⟨(uncached_storeSize _ _).trans kept, sized, total⟩

/-- A message that is no message set is sized by its extensions and its fields. -/
theorem ensures_sizeBody_regular (regular : table.isMessageSet = false) :
    Ensures store (sizeBody measure table message) fun sized =>
      sized.1.uncached = message.uncached ∧ sized.1.Sized store.catalog ∧
        (message.wireForm store.catalog).HasSize sized.2 := by
  have form := wireForm_eq store.catalog message
  simp only [wireBody, found, wirePieces, regular, Bool.false_eq_true, if_false] at form
  have inside : ∀ entry ∈ message.attached,
      ∀ inner ∈ visitedAttached store.catalog false message.type entry,
      inner.Measures store measure := by
    intro entry mem inner h
    rw [← regular] at h
    exact measures inner (mem_visited_of_attached found mem h)
  rw [sizeBody, if_neg (by simp [regular])]
  refine (ensures_sizeAttached sound registered.holds (fun _ mem => registered.declares mem)
    inside).bind ?_
  rintro ⟨entries, extensions⟩ ⟨same, right, size⟩
  have kept : (message.withAttached entries).uncached = message.uncached :=
    uncached_withAttached same
  have fields : ∀ entry ∈ table.writingOrder, ∀ value,
      (message.withAttached entries).slot? entry.position = some value →
      ∀ inner ∈ entry.codec.visited value, inner.Measures store measure := by
    intro entry mem value held inner h
    exact measures inner (mem_visited_of_slot? found regular mem held h)
  have distinct := (sound.builds_of_table registered.holds found).nodup_positions
  apply (ensures_sizeFields distinct fields).bind
  rintro ⟨sized, rest⟩ ⟨same', place, -, right', size'⟩
  have total : (message.wireForm store.catalog).HasSize
      (extensions + rest + (message.unknown.getD []).length) := by
    rw [form]
    exact Piece.hasSize_join_append (Piece.hasSize_join_append
      (Piece.hasSize_join_perm (message.perm_attachedByNumber.symm.map _) size) size')
      (Piece.hasSize_join_single _)
  have whole : sized.uncached = message.uncached := same'.trans kept
  have type : sized.type = message.type := by
    rw [← type_uncached, whole, type_uncached]
  refine ensures_pure ⟨(uncached_storeSize _ _).trans whole, sized_storeSize ?_ ?_, total⟩
  · -- what is visited again are messages of the sized extensions and of the sized slots
    intro inner h
    simp only [visited, type, found, regular] at h
    rcases List.mem_append.1 h with h | h
    · obtain ⟨entry, mem, inside⟩ := List.mem_flatMap.1 h
      have mem' : entry ∈ (message.withAttached entries).attached := by
        rw [attached, place] at mem
        exact mem
      exact right entry (mem_of_mem_attached_withAttached mem') inner inside
    · obtain ⟨entry, mem, inside⟩ := List.mem_flatMap.1 h
      cases held : sized.slot? entry.position with
      | none => simp [held] at inside
      | some value =>
          rw [held] at inside
          exact right' entry mem value held inner inside
  · rw [wireForm_congr whole]
    exact total

/-- The content of a message is sized as it is written. -/
theorem ensures_sizeBody :
    Ensures store (sizeBody measure table message) fun sized =>
      sized.1.uncached = message.uncached ∧ sized.1.Sized store.catalog ∧
        (message.wireForm store.catalog).HasSize sized.2 := by
  cases isSet : table.isMessageSet with
  | true => exact ensures_sizeBody_set sound registered found measures isSet
  | false => exact ensures_sizeBody_regular sound registered found measures isSet

end

theorem Sized.of_mem {catalog : Catalog} {message inner : Message} (h : message.Sized catalog)
    (inside : inner ∈ message.visited catalog) : inner.Sized catalog := by
  cases h with
  | intro _ below => exact below inner inside

/-- What sizing a message returns: the table's defect only if the cache was not asked. -/
structure SizedWith (catalog : Catalog) (trust : Bool) (message : Message)
    (sized : Message × Except Unbuildable Nat) : Prop where
  same : sized.1.uncached = message.uncached
  right : sized.1.Sized catalog
  size : ∀ bytes, message.wireForm catalog = .ok bytes → sized.2 = .ok bytes.length
  outcome : trust = false → ∃ size, sized.2 = (catalog.table message.type).map fun _ => size

/-- A message is measured as it is written, if the messages inside are. A kept size is trusted only
where it is right. -/
theorem ensures_measureWith (sound : store.Sound) {trust : Bool} {message : Message}
    (registered : message.Registered store)
    (trusted : trust = true → message.Sized store.catalog)
    (measures : ∀ inner ∈ message.visited store.catalog, inner.Measures store measure) :
    Ensures store (measureWith measure trust message)
      (SizedWith store.catalog trust message) := by
  rw [measureWith]
  cases asked : (if trust then message.cache.get? else none) with
  | some size =>
      -- the cache is only asked by those who may trust it
      cases trust with
      | false => simp at asked
      | true =>
          have right := trusted rfl
          have filled : message.cache = .filled size := by
            rw [if_pos rfl] at asked
            cases cache : message.cache <;> simp [cache, SizeCache.get?] at asked
            rw [asked]
          refine ensures_pure ⟨rfl, right, ?_, by simp⟩
          intro bytes form
          cases right with
          | intro own _ => rw [own size filled bytes form]
  | none =>
      -- the message is sized anew
      apply (yields_table sound registered.holds).bind_ensures
      cases found : store.catalog.table message.type with
      | error error =>
          refine ensures_pure ⟨rfl, .intro ?_ ?_, ?_, fun _ => ⟨0, by rw [found]; rfl⟩⟩
          -- without a table the message has no wire form, so any size is right for it
          · intro size _
            rw [wireForm_of_error found]
            exact Piece.hasSize_error
          · intro inner h
            simp [visited, found] at h
          · intro bytes form
            rw [wireForm_of_error found] at form
            simp at form
      | ok table =>
          apply (ensures_sizeBody sound registered found measures).bind
          rintro ⟨sized, size⟩ ⟨same, right, exact⟩
          refine ensures_pure ⟨same, right, ?_, fun _ => ⟨size, by rw [found]; rfl⟩⟩
          intro bytes form
          exact congrArg Except.ok (exact bytes form)

/-- A message without a table has no wire form, so that its size may be taken for zero. -/
theorem SizedWith.orZero {catalog : Catalog} {trust : Bool} {message : Message}
    {sized : Message × Except Unbuildable Nat} (h : SizedWith catalog trust message sized) :
    (orZero sized).1.uncached = message.uncached ∧ (orZero sized).1.Sized catalog ∧
      (message.wireForm catalog).HasSize (orZero sized).2 := by
  refine ⟨h.same, h.right, fun bytes form => ?_⟩
  rw [MessageOf.orZero, h.size bytes form]
  rfl

/-- Sizing a nested message is exact, with caches that are right or without. -/
theorem measures_measureAt (sound : store.Sound) {trust : Bool} {depth : Nat} {message : Message}
    (registered : message.Registered store) (bound : message.height ≤ depth)
    (trusted : trust = true → message.Sized store.catalog) :
    message.Measures store (measureAt trust depth) := by
  -- the messages that are visited lie lower, so the depth is enough for them
  induction depth generalizing message with
  | zero =>
      refine Ensures.map _
        ((ensures_measureWith sound registered trusted ?_).mono fun _ => SizedWith.orZero)
      intro inner h
      have := height_lt_of_mem (mem_children_of_mem_visited h)
      omega
  | succ depth ih =>
      refine Ensures.map _
        ((ensures_measureWith sound registered trusted ?_).mono fun _ => SizedWith.orZero)
      intro inner h
      have inside := mem_children_of_mem_visited h
      have := height_lt_of_mem inside
      exact ih (registered.of_mem inside) (by omega) fun trusts => (trusted trusts).of_mem h

/-- Sizing a message, with caches that are right or without. -/
theorem ensures_size (sound : store.Sound) {trust : Bool} {message : Message}
    (registered : message.Registered store)
    (trusted : trust = true → message.Sized store.catalog) :
    Ensures store (message.size trust) (SizedWith store.catalog trust message) := by
  apply ensures_measureWith sound registered trusted
  intro inner h
  have inside := mem_children_of_mem_visited h
  have := height_lt_of_mem inside
  exact measures_measureAt sound (registered.of_mem inside) (by omega)
    fun trusts => (trusted trusts).of_mem h

end MessageOf

end ProtoWire
