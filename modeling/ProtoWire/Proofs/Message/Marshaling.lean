import ProtoWire.Proofs.Message.Sizing

/-!
# Encodings are wire forms

Marshaling writes the wire form of a message, or fails with the error that the wire form is,
whether the lengths of nested messages are worked out anew or taken from caches that are
right (`ensures_marshalAt`). So the size of a message is the number of bytes that marshaling
writes, each length prefix is that of the bytes behind it (`size_of_marshal`), and encoding in
two passes is the same as marshaling without caches, whatever the caches held before
(`encode_eq_marshal`).
-/

set_option autoImplicit false

namespace ProtoWire

namespace MessageOf

/-- The writer writes the wire form of a message, at once or after it was measured, and the
measured size is right. -/
def Writes (store : Store) (nested : NestedWriter) (message : Message) : Prop :=
  Coding.Ensures store (nested.write message)
      (fun written => written.2.toPiece = message.wireForm store.catalog) ∧
    Coding.Ensures store (nested.measure message) fun sized =>
      (message.wireForm store.catalog).HasSize sized.2 ∧
        Coding.Ensures store (nested.write sized.1) fun written =>
          written.2.toPiece = message.wireForm store.catalog

end MessageOf

/-! ## Fields -/

namespace FieldCodec

open Coding

variable {store : Store} {nested : NestedWriter} {codec : FieldCodec}

theorem ensures_writeNested {value : Value}
    (writes : ∀ inner, codec.instance? value = some inner → inner.Writes store nested) :
    Ensures store (codec.writeNested nested value) fun written =>
      written.2.toPiece = codec.wireNested (MessageOf.wireForm store.catalog) value := by
  cases value with
  | message inner =>
      simp only [writeNested, wireNested]
      by_cases declared : codec.valueType = some inner.type
      · simp only [declared, ne_eq, not_true_eq_false, if_false]
        obtain ⟨write, measure⟩ := writes inner (by simp [instance?, declared])
        -- a group is written between its tags, any other message behind its length
        by_cases group : codec.kind = .group
        · simp only [group, if_true]
          apply write.bind
          rintro ⟨after, body⟩ eq
          apply ensures_pure
          simp only at eq
          rw [Output.toPiece_andThen, Output.toPiece_andThen, eq]
          cases inner.wireForm store.catalog <;> simp [Piece.join]
        · simp only [group, if_false]
          apply measure.bind
          rintro ⟨sized, size⟩ ⟨exact, write'⟩
          -- the message is written as measuring has left it
          apply write'.bind
          rintro ⟨after, body⟩ eq
          apply ensures_pure
          simp only at eq exact
          rw [Output.toPiece_andThen, eq]
          cases form : inner.wireForm store.catalog with
          | error error => rfl
          | ok bytes =>
              obtain rfl := exact bytes form
              simp [Piece.join]
      · simp only [declared, ne_eq, not_false_eq_true, if_true]
        exact ensures_pure rfl
  | _ => exact ensures_pure rfl

theorem ensures_writeEach (position : Nat) {items : List Value}
    (writes : ∀ inner ∈ items.filterMap codec.instance?, inner.Writes store nested) :
    Ensures store (writeEach (codec.writeNested nested) position items) fun written =>
      written.2.toPiece =
        .join (codec.wireEach (MessageOf.wireForm store.catalog) position items) := by
  induction items generalizing position with
  | nil => exact ensures_pure rfl
  | cons item items ih =>
      have first : ∀ inner, codec.instance? item = some inner → inner.Writes store nested :=
        fun inner found => writes inner (List.mem_filterMap.2 ⟨item, List.mem_cons_self, found⟩)
      have others : ∀ inner ∈ items.filterMap codec.instance?, inner.Writes store nested := by
        intro inner mem
        obtain ⟨other, inside, found⟩ := List.mem_filterMap.1 mem
        exact writes inner (List.mem_filterMap.2 ⟨other, List.mem_cons_of_mem _ inside, found⟩)
      have head : ∀ output : Output,
          output.toPiece = codec.wireNested (MessageOf.wireForm store.catalog) item →
          (output.under (.index position)).toPiece =
            (codec.wireNested (MessageOf.wireForm store.catalog) item).under (.index position) :=
        fun output eq => by rw [Output.toPiece_under, eq]
      rw [writeEach]
      apply (ensures_writeNested first).bind
      rintro ⟨value, output⟩ eq
      simp only [wireEach, Piece.each, List.zipIdx_cons, List.map_cons, ← head output eq]
      -- after a failure nothing more is written
      split
      · next failed => exact ensures_pure (Output.toPiece_of_failed failed _)
      · apply (ih (position + 1) others).bind
        rintro ⟨values, rest⟩ eq'
        exact ensures_pure (Output.toPiece_andThen_join eq')

/-- A field is written in its wire form. -/
theorem ensures_write {value : Value}
    (writes : ∀ inner ∈ codec.visited value, inner.Writes store nested) :
    Ensures store (codec.write nested value) fun written =>
      written.2.toPiece = codec.wire (MessageOf.wireForm store.catalog) value := by
  cases message : codec.kind.isMessage with
  | false =>
      simp only [write, wire, message, Bool.not_false, if_true]
      exact ensures_pure rfl
  | true =>
      cases repeated : codec.arrangement.isRepeated with
      | false =>
          simp only [write, visited, wire, message, repeated, Bool.not_true, Bool.false_eq_true,
            if_false, Option.mem_toList] at writes ⊢
          exact ensures_writeNested writes
      | true =>
          cases value with
          | list items =>
              simp only [write, visited, wire, message, repeated, Bool.not_true,
                Bool.false_eq_true, if_false, if_true, Value.items] at writes ⊢
              apply (ensures_writeEach 0 writes).bind
              rintro ⟨values, output⟩ eq
              exact ensures_pure eq
          -- what is no list is refused
          | _ =>
              simp only [write, wire, message, repeated, Bool.not_true, Bool.false_eq_true,
                if_false, if_true]
              exact ensures_pure rfl

end FieldCodec

/-! ## Messages -/

namespace MessageOf

open Coding

variable {store : Store} {nested : NestedWriter}

theorem ensures_writeFields {entries : List FieldEntry} {message : Message}
    (distinct : (entries.map (·.position)).Nodup)
    (writes : ∀ entry ∈ entries, ∀ value, message.slot? entry.position = some value →
      ∀ inner ∈ entry.codec.visited value, inner.Writes store nested) :
    Ensures store (writeFields nested entries message) fun written =>
      written.2.toPiece =
        .join (entries.map (message.wireSlot (wireForm store.catalog))) := by
  induction entries generalizing message with
  | nil => exact ensures_pure rfl
  | cons entry entries ih =>
      rw [List.map_cons, List.nodup_cons] at distinct
      obtain ⟨apart, distinct⟩ := distinct
      rw [writeFields, List.map_cons]
      cases held : message.slot? entry.position with
      | none =>
          refine (ih distinct fun other mem =>
            writes other (List.mem_cons_of_mem _ mem)).mono ?_
          intro written eq
          rw [eq, wireSlot, held, Piece.join]
          cases Piece.join _ <;> simp
      | some value =>
          apply (FieldCodec.ensures_write (writes entry List.mem_cons_self value held)).bind
          rintro ⟨value', output⟩ eq
          -- the piece of the field is what was written for it
          have head : message.wireSlot (wireForm store.catalog) entry =
              (output.under (.field entry.number)).toPiece := by
            simp only at eq
            rw [wireSlot, held, Output.toPiece_under, eq]
          simp only [head]
          split
          · next failed => exact ensures_pure (Output.toPiece_of_failed failed _)
          · refine (ih distinct ?_).bind ?_
            · intro other mem value'' found
              rw [slot?_putSlot_of_mem apart (some value') mem] at found
              exact writes other (List.mem_cons_of_mem _ mem) value'' found
            · rintro ⟨after, rest⟩ eq'
              refine ensures_pure (Output.toPiece_andThen_join ?_)
              simp only at eq'
              rw [eq', List.map_congr_left fun other mem =>
                wireSlot_congr (slot?_putSlot_of_mem apart (some value') mem)]

theorem ensures_writeAttached (sound : store.Sound) {owner : MessageType}
    (held : store.Holds owner) {entries : List Attached}
    (declared : ∀ entry ∈ entries, store.Declares owner.registry entry.type)
    (writes : ∀ entry ∈ entries, ∀ inner ∈ visitedAttached store.catalog false owner entry,
      inner.Writes store nested) :
    Ensures store (writeAttached nested owner entries) fun written =>
      written.2.toPiece =
        .join (entries.map (wireAttached (wireForm store.catalog) store.catalog owner)) := by
  induction entries with
  | nil => exact ensures_pure rfl
  | cons entry entries ih =>
      rw [writeAttached, List.map_cons]
      apply (yields_extensionCodec sound held (declared entry List.mem_cons_self)).bind_ensures
      apply (FieldCodec.ensures_write (writes entry List.mem_cons_self)).bind
      rintro ⟨value, output⟩ eq
      have head : wireAttached (wireForm store.catalog) store.catalog owner entry =
          (output.under (.field entry.type.number)).toPiece := by
        simp only at eq
        rw [wireAttached, Output.toPiece_under, eq]
      simp only [head]
      split
      · next failed => exact ensures_pure (Output.toPiece_of_failed failed _)
      · refine (ih (fun other mem => declared other (List.mem_cons_of_mem _ mem))
          fun other mem => writes other (List.mem_cons_of_mem _ mem)).bind ?_
        rintro ⟨rest, others⟩ eq'
        exact ensures_pure (Output.toPiece_andThen_join eq')

theorem ensures_writeItem (sound : store.Sound) {entry : Attached}
    (held : ∀ inner, itemMessage entry = .ok inner → store.Holds inner.type)
    (writes : ∀ inner, itemMessage entry = .ok inner → inner.Writes store nested) :
    Ensures store (writeItem nested entry) fun written =>
      written.1.type = entry.type ∧
        written.2.toPiece = wireItem (wireForm store.catalog) entry := by
  rw [writeItem, wireItem]
  cases item : itemMessage entry with
  | error fault => exact ensures_pure ⟨rfl, rfl⟩
  | ok inner =>
      obtain ⟨-, measure⟩ := writes inner item
      apply (yields_table sound (held inner item)).bind_ensures
      cases found : store.catalog.table inner.type with
      -- without a table the item fails as its wire form does
      | error error =>
          refine ensures_pure ⟨rfl, ?_⟩
          simp only [wireForm_of_error found]
          rfl
      | ok table =>
          apply measure.bind
          rintro ⟨sized, size⟩ ⟨exact, write⟩
          apply write.bind
          rintro ⟨after, body⟩ eq
          refine ensures_pure ⟨rfl, ?_⟩
          simp only at eq exact
          rw [Output.toPiece_andThen, Output.toPiece_andThen, eq]
          cases form : inner.wireForm store.catalog with
          | error error => simp [form, Piece.join]
          | ok bytes =>
              obtain rfl := exact bytes form
              simp [form, Piece.join]

theorem ensures_writeItems (sound : store.Sound) {owner : MessageType}
    (held : store.Holds owner) {entries : List Attached}
    (declared : ∀ entry ∈ entries, store.Declares owner.registry entry.type)
    (held' : ∀ entry ∈ entries, ∀ inner, itemMessage entry = .ok inner → store.Holds inner.type)
    (writes : ∀ entry ∈ entries, ∀ inner, itemMessage entry = .ok inner →
      inner.Writes store nested) :
    Ensures store (writeItems nested owner entries) fun written =>
      written.2.toPiece =
        .join (entries.map fun entry =>
          (wireItem (wireForm store.catalog) entry).under (.field entry.type.number)) := by
  induction entries with
  | nil => exact ensures_pure rfl
  | cons entry entries ih =>
      rw [writeItems, List.map_cons]
      apply (yields_extensionCodec sound held (declared entry List.mem_cons_self)).bind_ensures
      refine (ensures_writeItem sound (held' entry List.mem_cons_self)
        (writes entry List.mem_cons_self)).bind ?_
      rintro ⟨⟨type, value⟩, output⟩ ⟨type_eq, eq⟩
      obtain rfl : type = entry.type := type_eq
      have head : (wireItem (wireForm store.catalog) entry).under (.field entry.type.number) =
          (output.under (.field entry.type.number)).toPiece := by
        simp only at eq
        rw [Output.toPiece_under, eq]
      simp only [head]
      split
      · next failed => exact ensures_pure (Output.toPiece_of_failed failed _)
      · refine (ih (fun other mem => declared other (List.mem_cons_of_mem _ mem))
          (fun other mem => held' other (List.mem_cons_of_mem _ mem))
          fun other mem => writes other (List.mem_cons_of_mem _ mem)).bind ?_
        rintro ⟨rest, others⟩ eq'
        exact ensures_pure (Output.toPiece_andThen_join eq')

/-- A message's content is written in its wire form. -/
theorem ensures_writeBody (sound : store.Sound) {message : Message}
    (registered : message.Registered store) {table : FieldTable}
    (found : store.catalog.table message.type = .ok table)
    (writes : ∀ inner ∈ message.visited store.catalog, inner.Writes store nested) :
    Ensures store (writeBody nested table message) fun written =>
      written.2.toPiece = message.wireForm store.catalog := by
  have declared : ∀ entry ∈ message.attachedByNumber,
      store.Declares message.type.registry entry.type := by
    intro entry mem
    rw [mem_attachedByNumber] at mem
    exact registered.declares mem
  have inside : ∀ entry ∈ message.attachedByNumber,
      ∀ inner ∈ visitedAttached store.catalog table.isMessageSet message.type entry,
      inner.Writes store nested := by
    intro entry mem inner h
    rw [mem_attachedByNumber] at mem
    exact writes inner (mem_visited_of_attached found mem h)
  have form := wireForm_eq store.catalog message
  simp only [wireBody, found, wirePieces] at form
  rw [writeBody]
  cases isMessageSet : table.isMessageSet with
  | true =>
      simp only [isMessageSet, if_true] at form inside ⊢
      -- items are messages, whose types are registered
      have held : ∀ entry ∈ message.attachedByNumber, ∀ inner,
          itemMessage entry = .ok inner → store.Holds inner.type := by
        intro entry mem inner item
        rw [mem_attachedByNumber] at mem
        have inside := mem_messages_of_itemMessage item
        exact (registered.of_mem (mem_children_of_attached mem inside)).holds
      refine (ensures_writeItems sound registered.holds declared held fun entry mem inner item =>
        inside entry mem inner (mem_visitedAttached_item.2 item)).bind ?_
      rintro ⟨visited, items⟩ eq
      apply ensures_pure
      simp only at eq
      rw [form, Output.toPiece_andThen, eq, Piece.join_append]
      simp [Piece.join]
  | false =>
      simp only [isMessageSet, Bool.false_eq_true, if_false] at form inside ⊢
      apply (ensures_writeAttached sound registered.holds declared inside).bind
      rintro ⟨visited, first⟩ eq
      simp only at eq
      rw [form, List.append_assoc, Piece.join_append, ← eq]
      simp only
      split
      · next failed => exact ensures_pure (Output.toPiece_of_failed failed _)
      · refine (ensures_writeFields (sound.builds_of_table registered.holds found).nodup_positions
          ?_).bind ?_
        · intro entry mem value held inner h
          exact writes inner (mem_visited_of_slot? found isMessageSet mem held h)
        · rintro ⟨after, fields⟩ eq'
          apply ensures_pure
          -- what was visited in the extensions is put back, which the slots do not notice
          have same : (message.refreshAttached visited).wireSlot (wireForm store.catalog) =
              message.wireSlot (wireForm store.catalog) := funext fun entry => wireSlot_congr rfl
          simp only [same] at eq'
          rw [Output.toPiece_andThen, Output.toPiece_andThen, eq', Piece.join_append]
          simp [Piece.join]

theorem ensures_writeInner (sound : store.Sound) {message : Message}
    (registered : message.Registered store)
    (writes : ∀ inner ∈ message.visited store.catalog, inner.Writes store nested) :
    Ensures store (writeInner nested message) fun written =>
      written.2.toPiece = message.wireForm store.catalog := by
  rw [writeInner]
  apply (yields_table sound registered.holds).bind_ensures
  cases found : store.catalog.table message.type with
  | error error => exact ensures_pure (wireForm_of_error found).symm
  | ok table => exact ensures_writeBody sound registered found writes

/-- If messages up to some height are written in their wire forms, then the messages that coding
a higher one visits are, too, whether they were measured before or not. -/
theorem writes_of_marshalAt (sound : store.Sound) {trust : Bool} {depth : Nat}
    (marshals : ∀ message : Message, message.Registered store → message.height ≤ depth →
      (trust = true → message.Sized store.catalog) →
      Ensures store (marshalAt trust depth message) fun written =>
        written.2.toPiece = message.wireForm store.catalog)
    {message inner : Message} (registered : message.Registered store)
    (bound : message.height ≤ depth + 1) (trusted : trust = true → message.Sized store.catalog)
    (h : inner ∈ message.visited store.catalog) :
    inner.Writes store ⟨measureAt trust depth, marshalAt trust depth⟩ := by
  have inside := mem_children_of_mem_visited h
  have lower := height_lt_of_mem inside
  have registered' := registered.of_mem inside
  have trusted' := fun trusts => (trusted trusts).of_mem h
  refine ⟨marshals inner registered' (by omega) trusted', ?_⟩
  apply (measures_measureAt sound registered' (by omega) trusted').mono
  rintro ⟨sized, size⟩ ⟨same, right, exact⟩
  refine ⟨exact, ?_⟩
  -- measuring has filled caches only, with sizes that are right
  rw [← wireForm_congr same]
  exact marshals sized (registered'.congr same.symm) (by rw [height_congr same]; omega)
    fun _ => right

/-- A nested message is written in its wire form, with caches that are right or without. -/
theorem ensures_marshalAt (sound : store.Sound) {trust : Bool} {depth : Nat} {message : Message}
    (registered : message.Registered store) (bound : message.height ≤ depth)
    (trusted : trust = true → message.Sized store.catalog) :
    Ensures store (marshalAt trust depth message) fun written =>
      written.2.toPiece = message.wireForm store.catalog := by
  -- the lowest messages visit no others
  induction depth generalizing message with
  | zero =>
      apply ensures_writeInner sound registered
      intro inner h
      have := height_lt_of_mem (mem_children_of_mem_visited h)
      omega
  | succ depth ih =>
      apply ensures_writeInner sound registered
      intro inner h
      exact writes_of_marshalAt sound (fun _ => ih) registered bound trusted h

/-! ## Encoding -/

/-- What marshaling leaves, as the bytes or the failure. -/
def Marshaled.outcome (marshaled : Marshaled) : Except Failure Bytes :=
  match marshaled.failure with
  | none => .ok marshaled.bytes
  | some failure => .error failure

/-- Marshaling with caches that are right or without writes the encoding that the wire form
is, or fails with its error. -/
theorem ensures_marshal (sound : store.Sound) {trust : Bool} {message : Message}
    (registered : message.Registered store)
    (trusted : trust = true → message.Sized store.catalog) :
    Ensures store (message.marshal trust) fun marshaled =>
      marshaled.outcome = message.encoding store.catalog := by
  rw [marshal]
  apply (yields_table sound registered.holds).bind_ensures
  cases found : store.catalog.table message.type with
  | error error =>
      apply ensures_pure
      rw [encoding, found]
      rfl
  | ok table =>
      refine (ensures_writeBody sound registered found fun inner h => ?_).bind ?_
      · exact writes_of_marshalAt sound (fun _ => ensures_marshalAt sound) registered
          (Nat.le_succ _) trusted h
      · rintro ⟨after, output⟩ eq
        apply ensures_pure
        simp only at eq
        rw [encoding, found]
        simp only
        rw [← eq, Marshaled.outcome, Output.toPiece]
        cases output.failure <;> rfl

/-- Encoding in two passes writes what the wire form is. -/
theorem ensures_encode (sound : store.Sound) {message : Message}
    (registered : message.Registered store) :
    Ensures store message.encode fun encoded => encoded.2 = message.encoding store.catalog := by
  have distrusted : false = true → message.Sized store.catalog := by simp
  rw [encode]
  apply (ensures_size sound registered distrusted).bind
  rintro ⟨sized, size⟩ h
  obtain ⟨total, outcome⟩ := h.outcome rfl
  simp only at outcome
  -- the first pass changes caches only
  have encoding_eq : sized.encoding store.catalog = message.encoding store.catalog := by
    have type : sized.type = message.type := by
      rw [← type_uncached, h.same, type_uncached]
    rw [encoding, encoding, type, wireForm_congr h.same]
  cases found : store.catalog.table message.type with
  | error error =>
      rw [outcome, found]
      apply ensures_pure
      rw [encoding, found]
  | ok table =>
      rw [outcome, found]
      refine (ensures_marshal sound (registered.congr h.same.symm) fun _ => h.right).bind ?_
      intro marshaled eq
      rw [encoding_eq, Marshaled.outcome] at eq
      rw [← eq]
      cases marshaled.failure with
      | none => exact ensures_pure rfl
      | some failure => exact ensures_pure rfl

theorem wireForm_of_encoding {catalog : Catalog} {message : Message} {bytes : Bytes}
    (h : message.encoding catalog = .ok bytes) : message.wireForm catalog = .ok bytes := by
  rw [encoding] at h
  split at h
  · simp at h
  · cases form : message.wireForm catalog with
    | error error => simp [form, Except.mapError] at h
    | ok bytes' => simpa [form, Except.mapError] using h

/-- If marshaling without caches succeeds, then it has written the wire form, in which every
length prefix is the length of the bytes behind it, and sizing gives the number of the bytes. -/
theorem size_of_marshal (reachable : store.Reachable) {message : Message}
    (registered : message.Registered store)
    (success : ((message.marshal false).run store).1.failure = none) :
    message.wireForm store.catalog = .ok ((message.marshal false).run store).1.bytes ∧
      ((message.size false).run store).1.2 =
        .ok ((message.marshal false).run store).1.bytes.length := by
  have distrusted : false = true → message.Sized store.catalog := by simp
  have marshaled := (ensures_marshal reachable.sound registered distrusted).run.1
  rw [Marshaled.outcome, success] at marshaled
  have form := wireForm_of_encoding marshaled.symm
  have sized := (ensures_size reachable.sound registered distrusted).run.1
  exact ⟨form, sized.size _ form⟩

theorem size_of_marshal_node :
    node.wireForm nodeStore.catalog =
        .ok [162, 6, 1, 120, 8, 5, 18, 11, 8, 255, 255, 255, 255, 255, 255, 255, 255, 255, 1] ∧
      ((node.size false).run nodeStore).1.2 = .ok 19 := by
  have exact := size_of_marshal reachable_nodeStore registered_node (by decide)
  have bytes : ((node.marshal false).run nodeStore).1.bytes =
      [162, 6, 1, 120, 8, 5, 18, 11, 8, 255, 255, 255, 255, 255, 255, 255, 255, 255, 1] := by
    decide
  rw [bytes] at exact
  exact exact

/-- Encoding in two passes gives the bytes that marshaling without caches gives, or the same
failure, and the first pass has found the number of the bytes. -/
theorem encode_eq_marshal (reachable : store.Reachable) {message : Message}
    (registered : message.Registered store) :
    (message.encode.run store).1.2 = ((message.marshal false).run store).1.outcome ∧
      ∀ bytes, (message.encode.run store).1.2 = .ok bytes →
        ((message.size false).run store).1.2 = .ok bytes.length := by
  have distrusted : false = true → message.Sized store.catalog := by simp
  have marshaled := (ensures_marshal reachable.sound registered distrusted).run.1
  have encoded := (ensures_encode reachable.sound registered).run.1
  have sized := (ensures_size reachable.sound registered distrusted).run.1
  refine ⟨encoded.trans marshaled.symm, ?_⟩
  intro bytes eq
  rw [encoded] at eq
  exact sized.size bytes (wireForm_of_encoding eq)

theorem encode_eq_marshal_node :
    (node.encode.run nodeStore).1.2 =
        .ok [162, 6, 1, 120, 8, 5, 18, 11, 8, 255, 255, 255, 255, 255, 255, 255, 255, 255, 1] ∧
      ((node.size false).run nodeStore).1.2 = .ok 19 := by
  obtain ⟨same, size⟩ := encode_eq_marshal reachable_nodeStore registered_node
  have outcome : ((node.marshal false).run nodeStore).1.outcome =
      .ok [162, 6, 1, 120, 8, 5, 18, 11, 8, 255, 255, 255, 255, 255, 255, 255, 255, 255, 1] := by
    decide
  rw [outcome] at same
  exact ⟨same, size _ same⟩

end MessageOf

end ProtoWire
