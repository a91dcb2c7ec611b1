import ProtoWire.Proofs.Message.Tally

/-!
# What marshaling writes

The rendering of a message is the output of marshaling it if no cache is trusted: the bytes, also
those that are written before a failure, and the failure. It is computed from the message without
its caches (`render_uncached`). Marshaling writes the rendering, with caches that keep tallies or
without caches, and leaves caches that keep tallies (`ensures_marshal_render`).
-/

set_option autoImplicit false

namespace ProtoWire

/-! ## Renderings -/

/-- Outputs one after another, up to the first that failed. -/
def Output.concat : List Output → Output
  | [] => .empty
  | output :: outputs => output.andThen (concat outputs)

theorem Output.andThen_of_failed {output : Output} (h : output.failed = true) (rest : Output) :
    output.andThen rest = output := by
  rw [andThen, if_pos h]

namespace FieldCodec

/-- One value of a message or group field, given the renderings of messages. -/
def renderNested (form : Message → Output) (catalog : Catalog) (codec : FieldCodec) :
    Value → Output
  | .message inner =>
      if codec.valueType ≠ some inner.type then .failHere .wrongMessageType
      else if codec.kind = .group then
        ((Output.ofBytes codec.tag).andThen (form inner)).andThen (.ofBytes codec.endTag)
      else
        (Output.ofBytes (codec.tag ++ Varint.write (inner.tally catalog))).andThen (form inner)
  | _ => .failHere (.wrongVariant codec.kind)

/-- The values of a list; the first has the given position. -/
def renderEach (form : Message → Output) (catalog : Catalog) (codec : FieldCodec)
    (position : Nat) (items : List Value) : Output :=
  .concat ((items.zipIdx position).map fun item =>
    (codec.renderNested form catalog item.1).under (.index item.2))

/-- A field with its tags. -/
def render (form : Message → Output) (catalog : Catalog) (codec : FieldCodec)
    (value : Value) : Output :=
  if !codec.kind.isMessage then codec.writeScalar value
  else if codec.arrangement.isRepeated then
    match value with
    | .list items => codec.renderEach form catalog 0 items
    | _ => .failHere .notAList
  else codec.renderNested form catalog value

end FieldCodec

namespace MessageOf

/-- One item of a message set. -/
def renderItem (form : Message → Output) (catalog : Catalog) (entry : Attached) : Output :=
  match itemMessage entry with
  | .error fault => .failHere fault
  | .ok inner =>
      match catalog.table inner.type with
      | .error _ => .failHere .nestedTable
      | .ok _ =>
          ((Output.ofBytes (Tag.write itemNumber .startGroup ++
            (Tag.write itemTypeNumber .varint ++ Varint.write entry.type.number) ++
            (Tag.write itemMessageNumber .lengthDelimited ++
              Varint.write (inner.tally catalog)))).andThen (form inner)).andThen
            (.ofBytes (Tag.write itemNumber .endGroup))

/-- One extension of a message of type `owner`. -/
def renderAttached (form : Message → Output) (catalog : Catalog) (owner : MessageType)
    (entry : Attached) : Output :=
  ((catalog.codec owner entry.type).render form catalog entry.value).under
    (.field entry.type.number)

/-- What a message holds in the field of an entry. -/
def renderSlot (form : Message → Output) (catalog : Catalog) (message : Message)
    (entry : FieldEntry) : Output :=
  match message.slot? entry.position with
  | none => .empty
  | some value => (entry.codec.render form catalog value).under (.field entry.number)

/-- The content of a message. -/
def renderBody (form : Message → Output) (catalog : Catalog) (table : FieldTable)
    (message : Message) : Output :=
  let unknown := Output.ofBytes (message.unknown.getD [])
  if table.isMessageSet then
    (Output.concat (message.attachedByNumber.map fun entry =>
      (renderItem form catalog entry).under (.field entry.type.number))).andThen unknown
  else
    (Output.concat (message.attachedByNumber.map
      (renderAttached form catalog message.type))).andThen
      ((Output.concat (table.writingOrder.map (message.renderSlot form catalog))).andThen unknown)

/-- A message, given the renderings of the messages inside it. -/
def renderInner (form : Message → Output) (catalog : Catalog) (message : Message) : Output :=
  match catalog.table message.type with
  | .error _ => .failHere .nestedTable
  | .ok table => message.renderBody form catalog table

/-- The rendering of a message in which messages nest this deeply. -/
def renderAt (catalog : Catalog) : Nat → Message → Output
  | 0, message => message.renderInner (fun _ => .empty) catalog
  | depth + 1, message => message.renderInner (renderAt catalog depth) catalog

/-- The rendering of a message. -/
def render (catalog : Catalog) (message : Message) : Output :=
  message.renderAt catalog message.height

end MessageOf

/-! ## Renderings without caches -/

namespace FieldCodec

variable {catalog : Catalog} {codec : FieldCodec} {form form' : Message → Output}

theorem renderNested_uncached {value : Value}
    (same : ∀ inner ∈ value.messages, form inner = form' inner.uncached) :
    codec.renderNested form catalog value = codec.renderNested form' catalog value.uncached := by
  cases value with
  | message inner =>
      rw [Value.uncached_message]
      simp only [renderNested, MessageOf.type_uncached, MessageOf.tally_uncached,
        same inner (by simp)]
  | list items => rw [Value.uncached_list]; rfl
  | _ => rfl

/-- A value has the rendering that it has without caches, given the same of the messages in it. -/
theorem render_uncached {value : Value}
    (same : ∀ inner ∈ value.messages, form inner = form' inner.uncached) :
    codec.render form catalog value = codec.render form' catalog value.uncached := by
  simp only [render, writeScalar_uncached, renderNested_uncached same]
  cases value with
  | message inner => rw [Value.uncached_message]
  | list items =>
      have each : codec.renderEach form catalog 0 items =
          codec.renderEach form' catalog 0 (items.map Value.uncached) := by
        rw [renderEach, renderEach, List.zipIdx_map, List.map_map]
        congr 1
        apply List.map_congr_left
        intro item mem
        have inside : item.1 ∈ items := by
          rw [(List.mem_zipIdx mem).2.2]
          exact List.getElem_mem _
        exact congrArg _ (renderNested_uncached fun inner h =>
          same inner (Value.mem_messages_of_mem_items inside h))
      rw [Value.uncached_list]
      simp only [each]
  | _ => rfl

end FieldCodec

namespace MessageOf

variable {catalog : Catalog} {form form' : Message → Output}

theorem renderItem_uncached {entry : Attached}
    (same : ∀ inner ∈ entry.value.messages, form inner = form' inner.uncached) :
    renderItem form catalog entry = renderItem form' catalog entry.uncached := by
  rw [renderItem, renderItem, itemMessage_uncached]
  cases item : itemMessage entry with
  | error fault => rfl
  | ok inner =>
      have inside := mem_messages_of_itemMessage item
      simp only [Except.map, type_uncached, tally_uncached, same inner inside]
      rfl

theorem renderSlot_uncached {message : Message} {entry : FieldEntry}
    (same : ∀ inner ∈ message.children, form inner = form' inner.uncached) :
    message.renderSlot form catalog entry = message.uncached.renderSlot form' catalog entry := by
  rw [renderSlot, renderSlot, slot?_uncached]
  cases held : message.slot? entry.position with
  | none => rfl
  | some value =>
      exact congrArg (Output.under (.field entry.number))
        (FieldCodec.render_uncached fun inner inside =>
          same inner (mem_children_of_slot? held inside))

/-- The same of a message, given it of the messages inside. -/
theorem renderInner_uncached {message : Message}
    (same : ∀ inner ∈ message.children, form inner = form' inner.uncached) :
    message.renderInner form catalog = message.uncached.renderInner form' catalog := by
  have attached : ∀ entry ∈ message.attachedByNumber, ∀ inner ∈ entry.value.messages,
      form inner = form' inner.uncached := fun entry mem inner inside =>
    same inner (mem_children_of_attached (mem_attachedByNumber.1 mem) inside)
  have items : (message.attachedByNumber.map fun entry =>
        (renderItem form catalog entry).under (.field entry.type.number)) =
      message.uncached.attachedByNumber.map fun entry =>
        (renderItem form' catalog entry).under (.field entry.type.number) := by
    rw [attachedByNumber_uncached, List.map_map]
    apply List.map_congr_left
    intro entry mem
    exact congrArg _ (renderItem_uncached (attached entry mem))
  have extensions : message.attachedByNumber.map (renderAttached form catalog message.type) =
      message.uncached.attachedByNumber.map (renderAttached form' catalog message.type) := by
    rw [attachedByNumber_uncached, List.map_map]
    apply List.map_congr_left
    intro entry mem
    exact congrArg _ (FieldCodec.render_uncached (attached entry mem))
  have slots : message.renderSlot form catalog = message.uncached.renderSlot form' catalog :=
    funext fun _ => renderSlot_uncached same
  simp only [renderInner, renderBody, type_uncached, unknown_uncached, items, extensions, slots]

/-- Any depth will do that is enough, and caches have no part in the rendering. -/
theorem renderAt_uncached {depth depth' : Nat} {message : Message}
    (bound : message.height ≤ depth) (bound' : message.height ≤ depth') :
    message.renderAt catalog depth = message.uncached.renderAt catalog depth' := by
  induction depth generalizing depth' message with
  | zero =>
      -- a message of height zero has no messages inside
      have childless : ∀ inner ∈ message.children, False := by
        intro inner mem
        have := height_lt_of_mem mem
        omega
      cases depth' <;>
        exact renderInner_uncached fun inner mem => (childless inner mem).elim
  | succ depth ih =>
      cases depth' with
      | zero =>
          refine renderInner_uncached fun inner mem => ?_
          have := height_lt_of_mem mem
          omega
      | succ depth' =>
          refine renderInner_uncached fun inner mem => ?_
          have := height_lt_of_mem mem
          exact ih (by omega) (by omega)

theorem render_uncached (catalog : Catalog) (message : Message) :
    message.uncached.render catalog = message.render catalog := by
  rw [render, render, height_uncached]
  exact (renderAt_uncached (Nat.le_refl _) (Nat.le_refl _)).symm

theorem render_congr {a b : Message} (h : a.uncached = b.uncached) :
    a.render catalog = b.render catalog := by
  rw [← render_uncached, h, render_uncached]

/-- The rendering of a message is made of the renderings of the messages inside it. -/
theorem render_eq (catalog : Catalog) (message : Message) :
    message.render catalog = message.renderInner (render catalog) catalog := by
  have whole : message.render catalog = message.uncached.renderInner (render catalog) catalog := by
    rw [render]
    cases height : message.height with
    | zero =>
        refine renderInner_uncached fun inner mem => ?_
        have := height_lt_of_mem mem
        omega
    | succ depth =>
        refine renderInner_uncached fun inner mem => ?_
        have := height_lt_of_mem mem
        rw [render, height_uncached]
        exact renderAt_uncached (by omega) (Nat.le_refl _)
  rw [whole]
  exact (renderInner_uncached fun inner _ => (render_uncached catalog inner).symm).symm

theorem renderSlot_congr {a b : Message} (h : a.uncached = b.uncached) :
    a.renderSlot (render catalog) catalog = b.renderSlot (render catalog) catalog := by
  have blind : ∀ message : Message, message.renderSlot (render catalog) catalog =
      message.uncached.renderSlot (render catalog) catalog := by
    intro message
    funext entry
    exact renderSlot_uncached fun inner _ => (render_uncached catalog inner).symm
  rw [blind a, h, blind b]

end MessageOf

/-! ## Writing -/

/-- The writer writes the rendering of the message, at once or after it was measured. -/
structure MessageOf.Renders (store : Store) (nested : NestedWriter) (message : Message) : Prop where
  write : Coding.Ensures store (nested.write message) fun written =>
    message.Kept store.catalog written.1 ∧ written.2 = message.render store.catalog
  measure : Coding.Ensures store (nested.measure message) fun sized =>
    sized.2 = message.tally store.catalog ∧
      Coding.Ensures store (nested.write sized.1) fun written =>
        message.Kept store.catalog written.1 ∧ written.2 = message.render store.catalog

namespace FieldCodec

open Coding

variable {store : Store} {nested : NestedWriter} {codec : FieldCodec}

theorem ensures_writeNested_render {value : Value}
    (renders : ∀ inner ∈ value.messages, inner.Renders store nested) :
    Ensures store (codec.writeNested nested value) fun written =>
      value.Kept store.catalog written.1 ∧
        written.2 =
          codec.renderNested (MessageOf.render store.catalog) store.catalog value := by
  cases value with
  | message inner =>
      obtain ⟨write, measure⟩ := renders inner (by simp)
      simp only [writeNested, renderNested]
      by_cases declared : codec.valueType = some inner.type
      · simp only [declared, ne_eq, not_true_eq_false, if_false]
        by_cases group : codec.kind = .group
        · simp only [group, if_true]
          apply write.bind
          rintro ⟨after, body⟩ ⟨kept, eq⟩
          simp only at eq
          subst eq
          exact ensures_pure ⟨kept.inValue, rfl⟩
        · simp only [group, if_false]
          apply measure.bind
          rintro ⟨sized, size⟩ ⟨exact, write'⟩
          simp only at exact
          subst exact
          -- the message is written as measuring has left it
          apply write'.bind
          rintro ⟨after, body⟩ ⟨kept, eq⟩
          simp only at eq
          subst eq
          exact ensures_pure ⟨kept.inValue, rfl⟩
      · simp only [declared, ne_eq, not_false_eq_true, if_true]
        exact ensures_pure ⟨.refl _ _, rfl⟩
  | _ => exact ensures_pure ⟨.refl _ _, rfl⟩

theorem ensures_writeEach_render (position : Nat) {items : List Value}
    (renders : ∀ item ∈ items, ∀ inner ∈ item.messages, inner.Renders store nested) :
    Ensures store (writeEach (codec.writeNested nested) position items) fun written =>
      (Value.list items).Kept store.catalog (.list written.1) ∧
        written.2 =
          codec.renderEach (MessageOf.render store.catalog) store.catalog position items := by
  induction items generalizing position with
  | nil => exact ensures_pure ⟨.refl _ _, rfl⟩
  | cons item items ih =>
      rw [writeEach]
      apply (ensures_writeNested_render (renders item List.mem_cons_self)).bind
      rintro ⟨value, output⟩ ⟨kept, eq⟩
      simp only at eq
      subst eq
      simp only [renderEach, List.zipIdx_cons, List.map_cons, Output.concat]
      -- after a failure nothing more is written, and the items behind stay as they are
      split
      · next failed =>
          exact ensures_pure ⟨kept.cons_list (.refl _ _), (Output.andThen_of_failed failed _).symm⟩
      · apply (ih (position + 1) fun other mem => renders other (List.mem_cons_of_mem _ mem)).bind
        rintro ⟨values, rest⟩ ⟨kept', eq'⟩
        exact ensures_pure ⟨kept.cons_list kept', congrArg (Output.andThen _) eq'⟩

/-- A field is written in its rendering. -/
theorem ensures_write_render {value : Value}
    (renders : ∀ inner ∈ value.messages, inner.Renders store nested) :
    Ensures store (codec.write nested value) fun written =>
      value.Kept store.catalog written.1 ∧
        written.2 = codec.render (MessageOf.render store.catalog) store.catalog value := by
  cases message : codec.kind.isMessage with
  | false =>
      simp only [write, render, message, Bool.not_false, if_true]
      exact ensures_pure ⟨.refl _ _, rfl⟩
  | true =>
      cases repeated : codec.arrangement.isRepeated with
      | false =>
          simp only [write, render, message, repeated, Bool.not_true, Bool.false_eq_true, if_false]
          exact ensures_writeNested_render renders
      | true =>
          simp only [write, render, message, repeated, Bool.not_true, Bool.false_eq_true, if_false,
            if_true]
          cases value with
          | list items =>
              have inside : ∀ item ∈ items, ∀ inner ∈ item.messages,
                  inner.Renders store nested :=
                fun item mem inner h => renders inner (Value.mem_messages_of_mem_items mem h)
              apply (ensures_writeEach_render 0 inside).bind
              rintro ⟨values, output⟩ ⟨kept, eq⟩
              exact ensures_pure ⟨kept, eq⟩
          -- what is no list is refused
          | _ => exact ensures_pure ⟨.refl _ _, rfl⟩

end FieldCodec

namespace MessageOf

open Coding

variable {store : Store} {nested : NestedWriter}

theorem ensures_writeFields_render {entries : List FieldEntry} {message : Message}
    (distinct : (entries.map (·.position)).Nodup)
    (renders : ∀ entry ∈ entries, ∀ value, message.slot? entry.position = some value →
      ∀ inner ∈ value.messages, inner.Renders store nested) :
    Ensures store (writeFields nested entries message) fun written =>
      message.KeptInside store.catalog written.1 ∧
        written.2 = .concat
          (entries.map (message.renderSlot (render store.catalog) store.catalog)) := by
  induction entries generalizing message with
  | nil => exact ensures_pure ⟨.refl _ _, rfl⟩
  | cons entry entries ih =>
      rw [List.map_cons, List.nodup_cons] at distinct
      obtain ⟨apart, distinct⟩ := distinct
      rw [writeFields, List.map_cons, Output.concat, renderSlot]
      cases held : message.slot? entry.position with
      | none =>
          simp only [Output.empty_andThen]
          exact ih distinct fun other mem => renders other (List.mem_cons_of_mem _ mem)
      | some value =>
          apply (FieldCodec.ensures_write_render
            (renders entry List.mem_cons_self value held)).bind
          rintro ⟨value', output⟩ ⟨kept, eq⟩
          simp only at eq
          subst eq
          have put := keptInside_putSlot held kept
          simp only
          split
          · next failed => exact ensures_pure ⟨put, (Output.andThen_of_failed failed _).symm⟩
          · have below : ∀ other ∈ entries, ∀ value'',
                (message.putSlot entry.position (some value')).slot? other.position =
                  some value'' →
                ∀ inner ∈ value''.messages, inner.Renders store nested := by
              intro other mem value'' found
              rw [slot?_putSlot_of_mem apart (some value') mem] at found
              exact renders other (List.mem_cons_of_mem _ mem) value'' found
            apply (ih distinct below).bind
            rintro ⟨after, rest⟩ ⟨kept', eq'⟩
            rw [renderSlot_congr put.same] at eq'
            exact ensures_pure ⟨put.trans kept', congrArg (Output.andThen _) eq'⟩

theorem ensures_writeAttached_render (sound : store.Sound) {owner : MessageType}
    (held : store.Holds owner) {entries : List Attached}
    (declared : ∀ entry ∈ entries, store.Declares owner.registry entry.type)
    (renders : ∀ entry ∈ entries, ∀ inner ∈ entry.value.messages, inner.Renders store nested) :
    Ensures store (writeAttached nested owner entries) fun written =>
      EntriesKept store.catalog entries written.1 ∧
        written.2 = .concat
          (entries.map (renderAttached (render store.catalog) store.catalog owner)) := by
  induction entries with
  | nil => exact ensures_pure ⟨.refl _ _, rfl⟩
  | cons entry entries ih =>
      rw [writeAttached, List.map_cons, Output.concat, renderAttached]
      apply (yields_extensionCodec sound held (declared entry List.mem_cons_self)).bind_ensures
      apply (FieldCodec.ensures_write_render (renders entry List.mem_cons_self)).bind
      rintro ⟨value, output⟩ ⟨kept, eq⟩
      simp only at eq
      subst eq
      simp only
      split
      · next failed =>
          exact ensures_pure ⟨.cons kept (.refl _ _), (Output.andThen_of_failed failed _).symm⟩
      · refine (ih (fun other mem => declared other (List.mem_cons_of_mem _ mem))
          fun other mem => renders other (List.mem_cons_of_mem _ mem)).bind ?_
        rintro ⟨rest, others⟩ ⟨kept', eq'⟩
        exact ensures_pure ⟨.cons kept kept', congrArg (Output.andThen _) eq'⟩

theorem ensures_writeItem_render (sound : store.Sound) {entry : Attached}
    (held : ∀ inner ∈ entry.value.messages, store.Holds inner.type)
    (renders : ∀ inner ∈ entry.value.messages, inner.Renders store nested) :
    Ensures store (writeItem nested entry) fun written =>
      (∃ value, written.1 = ⟨entry.type, value⟩ ∧ entry.value.Kept store.catalog value) ∧
        written.2 = renderItem (render store.catalog) store.catalog entry := by
  rw [writeItem, renderItem]
  cases item : itemMessage entry with
  | error fault => exact ensures_pure ⟨⟨entry.value, rfl, .refl _ _⟩, rfl⟩
  | ok inner =>
      have value := (itemMessage_eq_ok_iff.1 item).1
      have inside : inner ∈ entry.value.messages := by simp [value]
      apply (yields_table sound (held inner inside)).bind_ensures
      simp only
      cases store.catalog.table inner.type with
      | error error => exact ensures_pure ⟨⟨entry.value, rfl, .refl _ _⟩, rfl⟩
      | ok table =>
          apply (renders inner inside).measure.bind
          rintro ⟨sized, size⟩ ⟨exact, write⟩
          simp only at exact
          subst exact
          apply write.bind
          rintro ⟨after, body⟩ ⟨kept, eq⟩
          simp only at eq
          subst eq
          refine ensures_pure ⟨⟨.message after, rfl, ?_⟩, rfl⟩
          rw [value]
          exact kept.inValue

theorem ensures_writeItems_render (sound : store.Sound) {owner : MessageType}
    (held : store.Holds owner) {entries : List Attached}
    (declared : ∀ entry ∈ entries, store.Declares owner.registry entry.type)
    (held' : ∀ entry ∈ entries, ∀ inner ∈ entry.value.messages, store.Holds inner.type)
    (renders : ∀ entry ∈ entries, ∀ inner ∈ entry.value.messages, inner.Renders store nested) :
    Ensures store (writeItems nested owner entries) fun written =>
      EntriesKept store.catalog entries written.1 ∧
        written.2 = .concat (entries.map fun entry =>
          (renderItem (render store.catalog) store.catalog entry).under
            (.field entry.type.number)) := by
  induction entries with
  | nil => exact ensures_pure ⟨.refl _ _, rfl⟩
  | cons entry entries ih =>
      rw [writeItems, List.map_cons, Output.concat]
      apply (yields_extensionCodec sound held (declared entry List.mem_cons_self)).bind_ensures
      refine (ensures_writeItem_render sound (held' entry List.mem_cons_self)
        (renders entry List.mem_cons_self)).bind ?_
      rintro ⟨_, output⟩ ⟨⟨value, rfl, kept⟩, eq⟩
      simp only at eq
      subst eq
      simp only
      split
      · next failed =>
          exact ensures_pure ⟨.cons kept (.refl _ _), (Output.andThen_of_failed failed _).symm⟩
      · refine (ih (fun other mem => declared other (List.mem_cons_of_mem _ mem))
          (fun other mem => held' other (List.mem_cons_of_mem _ mem))
          fun other mem => renders other (List.mem_cons_of_mem _ mem)).bind ?_
        rintro ⟨rest, others⟩ ⟨kept', eq'⟩
        exact ensures_pure ⟨.cons kept kept', congrArg (Output.andThen _) eq'⟩

/-! ### Messages -/

/-- No number is attached twice, to the message or to any message inside it. -/
def Keyed (message : Message) : Prop :=
  message.Throughout fun inner => (inner.attached.map (·.type.number)).Nodup

theorem keyed_uncached {message : Message} : message.uncached.Keyed ↔ message.Keyed := by
  have numbers : ∀ message : Message, message.uncached.attached.map (·.type.number) =
      message.attached.map (·.type.number) := by
    intro message
    rw [attached_uncached, List.map_map]
    rfl
  induction message using MessageOf.induction with
  | step message ih =>
      constructor
      · rintro ⟨distinct, below⟩
        rw [numbers] at distinct
        refine .intro distinct fun inner mem => (ih inner mem).1 (below _ ?_)
        rw [children_uncached]
        exact List.mem_map_of_mem mem
      · rintro ⟨distinct, below⟩
        rw [← numbers] at distinct
        refine .intro distinct fun inner mem => ?_
        rw [children_uncached] at mem
        obtain ⟨before, mem', rfl⟩ := List.mem_map.1 mem
        exact (ih before mem').2 (below before mem')

theorem Keyed.congr {a b : Message} (keyed : a.Keyed) (h : a.uncached = b.uncached) : b.Keyed := by
  rw [← keyed_uncached, ← h, keyed_uncached]
  exact keyed

/-- What was written in ascending order of number finds back to the extensions it was, since no
two of them have one number. -/
theorem keptInside_refreshAttached {catalog : Catalog} {message : Message}
    {visited : List Attached} (distinct : (message.attached.map (·.type.number)).Nodup)
    (kept : EntriesKept catalog message.attachedByNumber visited) :
    message.KeptInside catalog (message.refreshAttached visited) := by
  let refresh (entry : Attached) : Attached :=
    (visited.find? fun other => other.type.number == entry.type.number).getD entry
  -- the entry found under the number of an extension is that extension, coded, if any is found
  have found : ∀ entry ∈ message.attached,
      (refresh entry).uncached = entry.uncached ∧
        (refresh entry = entry ∨ refresh entry ∈ visited) := by
    intro entry mem
    simp only [refresh]
    cases search : visited.find? fun other => other.type.number == entry.type.number with
    | none => exact ⟨rfl, .inl rfl⟩
    | some other =>
        have listed : other ∈ visited := List.mem_of_find?_eq_some search
        have number : other.type.number = entry.type.number := by
          simpa using List.find?_some search
        have mem' : other.uncached ∈ message.attachedByNumber.map AttachedOf.uncached := by
          rw [← kept.same]
          exact List.mem_map_of_mem listed
        obtain ⟨before, mem'', same⟩ := List.mem_map.1 mem'
        rw [mem_attachedByNumber] at mem''
        have numbers := congrArg (fun entry : Attached => entry.type.number) same
        have number' : before.type.number = entry.type.number := numbers.trans number
        obtain rfl := List.inj_on_of_nodup_map distinct mem'' mem number'
        exact ⟨same.symm, .inr listed⟩
  have entries : EntriesKept catalog message.attached (message.attached.map refresh) := by
    refine ⟨?_, ?_⟩
    · rw [List.map_map]
      exact List.map_congr_left fun entry mem => (found entry mem).1
    · intro right other mem
      obtain ⟨entry, mem', rfl⟩ := List.mem_map.1 mem
      rcases (found entry mem').2 with same | listed
      · rw [same]
        exact right entry mem'
      · refine kept.tallied (fun entry mem => right entry ?_) _ listed
        rwa [mem_attachedByNumber] at mem
  have eq : message.refreshAttached visited =
      message.withAttached (message.attached.map refresh) := by
    simp only [refreshAttached, withAttached, attached]
    cases message.extensions <;> rfl
  rw [eq]
  exact keptInside_withAttached entries

/-- A message's content is written in its rendering. -/
theorem ensures_writeBody_render (sound : store.Sound) {message : Message}
    (registered : message.Registered store) (keyed : message.Keyed) {table : FieldTable}
    (found : store.catalog.table message.type = .ok table)
    (renders : ∀ inner ∈ message.children, inner.Renders store nested) :
    Ensures store (writeBody nested table message) fun written =>
      message.Kept store.catalog written.1 ∧ written.2 = message.render store.catalog := by
  have declared : ∀ entry ∈ message.attachedByNumber,
      store.Declares message.type.registry entry.type := by
    intro entry mem
    rw [mem_attachedByNumber] at mem
    exact registered.declares mem
  have child : ∀ entry ∈ message.attachedByNumber, ∀ inner ∈ entry.value.messages,
      inner ∈ message.children := fun entry mem inner h =>
    mem_children_of_attached (mem_attachedByNumber.1 mem) h
  have inside : ∀ entry ∈ message.attachedByNumber, ∀ inner ∈ entry.value.messages,
      inner.Renders store nested :=
    fun entry mem inner h => renders inner (child entry mem inner h)
  have form := render_eq store.catalog message
  simp only [renderInner, found, renderBody] at form
  rw [writeBody]
  cases isSet : table.isMessageSet with
  | true =>
      rw [isSet, if_pos rfl] at form
      simp only [if_true]
      have held : ∀ entry ∈ message.attachedByNumber, ∀ inner ∈ entry.value.messages,
          store.Holds inner.type :=
        fun entry mem inner h => (registered.of_mem (child entry mem inner h)).holds
      apply (ensures_writeItems_render sound registered.holds declared held inside).bind
      rintro ⟨visited, items⟩ ⟨kept, eq⟩
      simp only at eq
      rw [eq, ← form]
      exact ensures_pure ⟨(keptInside_refreshAttached keyed.here kept).kept, rfl⟩
  | false =>
      rw [isSet, if_neg Bool.false_ne_true] at form
      simp only [Bool.false_eq_true, if_false]
      apply (ensures_writeAttached_render sound registered.holds declared inside).bind
      rintro ⟨visited, first⟩ ⟨kept, eq⟩
      simp only at eq
      subst eq
      have refreshed := keptInside_refreshAttached keyed.here kept
      simp only
      split
      · next failed =>
          refine ensures_pure ⟨refreshed.kept, ?_⟩
          rw [form, Output.andThen_of_failed failed]
      · have distinct := (sound.builds_of_table registered.holds found).nodup_positions
        -- what was visited in the extensions is put back, which the slots do not notice
        have slots : ∀ entry ∈ table.writingOrder, ∀ value,
            (message.refreshAttached visited).slot? entry.position = some value →
            ∀ inner ∈ value.messages, inner.Renders store nested :=
          fun entry _ value held inner h =>
            renders inner (mem_children_of_slot? held h)
        apply (ensures_writeFields_render distinct slots).bind
        rintro ⟨after, fields⟩ ⟨kept', eq'⟩
        simp only at eq'
        rw [eq', renderSlot_congr refreshed.same, ← form]
        exact ensures_pure ⟨(refreshed.trans kept').kept, rfl⟩

theorem ensures_writeInner_render (sound : store.Sound) {message : Message}
    (registered : message.Registered store) (keyed : message.Keyed)
    (renders : ∀ inner ∈ message.children, inner.Renders store nested) :
    Ensures store (writeInner nested message) fun written =>
      message.Kept store.catalog written.1 ∧ written.2 = message.render store.catalog := by
  rw [writeInner]
  apply (yields_table sound registered.holds).bind_ensures
  cases found : store.catalog.table message.type with
  | error error =>
      refine ensures_pure ⟨.refl _ _, ?_⟩
      rw [render_eq, renderInner, found]
  | ok table => exact ensures_writeBody_render sound registered keyed found renders

/-- If messages up to some height are written in their renderings, then the messages inside a
higher one are, too, whether they were measured before or not. -/
theorem renders_of_marshalAt (sound : store.Sound) {trust : Bool} {depth : Nat}
    (marshals : ∀ message : Message, message.Registered store → message.Keyed →
      message.height ≤ depth → (trust = true → message.Tallied store.catalog) →
      Ensures store (marshalAt trust depth message) fun written =>
        message.Kept store.catalog written.1 ∧ written.2 = message.render store.catalog)
    {message inner : Message} (registered : message.Registered store) (keyed : message.Keyed)
    (bound : message.height ≤ depth + 1) (trusted : trust = true → message.Tallied store.catalog)
    (mem : inner ∈ message.children) :
    inner.Renders store ⟨measureAt trust depth, marshalAt trust depth⟩ := by
  have lower := height_lt_of_mem mem
  have registered' := registered.of_mem mem
  have keyed' : inner.Keyed := keyed.of_mem mem
  have trusted' := fun trusts => (trusted trusts).of_mem mem
  refine ⟨marshals inner registered' keyed' (by omega) trusted', ?_⟩
  apply (tallies_measureAt sound registered' (by omega) trusted').mono
  rintro ⟨sized, size⟩ ⟨kept, exact⟩
  refine ⟨exact, ?_⟩
  -- measuring has changed caches only, and left those that writing trusts right
  have same := kept.same
  simp only at same
  have written := marshals sized (registered'.congr same.symm) (keyed'.congr same.symm)
    (by rw [height_congr same]; omega) fun trusts => kept.tallied (trusted' trusts)
  refine written.mono fun written h => ⟨kept.trans h.1, ?_⟩
  rw [h.2, render_congr same]

/-- A nested message is written in its rendering, with caches that keep tallies or without. -/
theorem ensures_marshalAt_render (sound : store.Sound) {trust : Bool} {depth : Nat}
    {message : Message} (registered : message.Registered store) (keyed : message.Keyed)
    (bound : message.height ≤ depth) (trusted : trust = true → message.Tallied store.catalog) :
    Ensures store (marshalAt trust depth message) fun written =>
      message.Kept store.catalog written.1 ∧ written.2 = message.render store.catalog := by
  -- the lowest messages have no others inside
  induction depth generalizing message with
  | zero =>
      apply ensures_writeInner_render sound registered keyed
      intro inner mem
      have := height_lt_of_mem mem
      omega
  | succ depth ih =>
      apply ensures_writeInner_render sound registered keyed
      intro inner mem
      exact renders_of_marshalAt sound (fun _ => ih) registered keyed bound trusted mem

/-- What marshaling a message returns, bytes and failure. -/
def rendered (catalog : Catalog) (message : Message) : Bytes × Option Failure :=
  match catalog.table message.type with
  | .error error => ([], some (.build error))
  | .ok _ => ((message.render catalog).bytes, (message.render catalog).failure.map .encode)

/-- Marshaling a message writes its rendering, with caches that keep tallies or without. -/
theorem ensures_marshal_render (sound : store.Sound) {trust : Bool} {message : Message}
    (registered : message.Registered store) (keyed : message.Keyed)
    (trusted : trust = true → message.Tallied store.catalog) :
    Ensures store (message.marshal trust) fun marshaled =>
      message.Kept store.catalog marshaled.message ∧
        (marshaled.bytes, marshaled.failure) = message.rendered store.catalog := by
  rw [marshal, rendered]
  apply (yields_table sound registered.holds).bind_ensures
  cases found : store.catalog.table message.type with
  | error error => exact ensures_pure ⟨.refl _ _, rfl⟩
  | ok table =>
      have inside : ∀ inner ∈ message.children, inner.Renders store
          ⟨measureAt trust message.height, marshalAt trust message.height⟩ :=
        fun inner mem => renders_of_marshalAt sound (fun _ => ensures_marshalAt_render sound)
          registered keyed (Nat.le_succ _) trusted mem
      apply (ensures_writeBody_render sound registered keyed found inside).bind
      rintro ⟨after, output⟩ ⟨kept, eq⟩
      simp only at eq
      subst eq
      exact ensures_pure ⟨kept, rfl⟩

/-- Encoding a message changes nothing but caches, which keep tallies if they did before. -/
theorem ensures_encode_kept (sound : store.Sound) {message : Message}
    (registered : message.Registered store) (keyed : message.Keyed)
    (tallied : message.Tallied store.catalog) :
    Ensures store message.encode fun encoded => message.Kept store.catalog encoded.1 := by
  rw [encode]
  have distrusted : false = true → message.Tallied store.catalog := by simp
  apply (ensures_size_tally sound registered distrusted).bind
  rintro ⟨sized, size⟩ ⟨kept, -⟩
  cases size with
  | error error => exact ensures_pure kept
  | ok size =>
      have same := kept.same
      simp only at same
      -- the second pass trusts what the first one has left
      refine (ensures_marshal_render sound (registered.congr same.symm) (keyed.congr same.symm)
        fun _ => kept.tallied tallied).bind ?_
      rintro marshaled ⟨kept', -⟩
      cases marshaled.failure <;> exact ensures_pure (kept.trans kept')

end MessageOf

end ProtoWire
