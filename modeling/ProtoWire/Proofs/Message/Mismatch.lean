import ProtoWire.Proofs.Message.RoundTrip
import ProtoWire.Proofs.Message.Stopping

/-!
# Where marshaling fails

If the tables that a message needs can be built, then marshaling fails just if some value in it
does not match its declaration. It fails at the first such value in the order of writing: the error
has the way there as its path, and what was written are the extensions and fields in front of it
and what stands in front of it in its own field, at each level of messages (`MessageOf.Fails`,
`MessageOf.marshal_fails_iff`).

An extension is written by the codec that is kept under its name. If that is the codec of another
registry's extension then marshaling fails on a value that matches its declaration
(`MessageOf.marshal_label_mixedStore`).
-/

set_option autoImplicit false

namespace ProtoWire

namespace AttachedOf

/-- What may stop the writing of an item of a message set, and what is written in front of it: the
head of the item if it is the message in it, and nothing otherwise. -/
inductive StopsItem (catalog : Catalog) (entry : Attached) : Bytes → Culprit → Prop
  | notMessage : (∀ inner, entry.value ≠ .message inner) →
      StopsItem catalog entry [] (.value .itemNotMessage)
  | otherType {inner : Message} : entry.value = .message inner →
      entry.type.valueType ≠ some inner.type →
      StopsItem catalog entry [] (.value .wrongMessageType)
  | inside {inner : Message} : entry.value = .message inner →
      entry.type.valueType = some inner.type →
      StopsItem catalog entry
        (Tag.write MessageOf.itemNumber .startGroup ++
          (Tag.write MessageOf.itemTypeNumber .varint ++ Varint.write entry.type.number) ++
          (Tag.write MessageOf.itemMessageNumber .lengthDelimited ++
            Varint.write (inner.tally catalog)))
        (.message inner)

variable {catalog : Catalog} {entry : Attached} {before : Bytes}

theorem StopsItem.not_matches {fault : ValueFault}
    (h : entry.StopsItem catalog before (.value fault)) : ¬ entry.Matches true := by
  rintro ⟨inner, value, declared⟩
  cases h with
  | notMessage other => exact other inner value
  | otherType value' other =>
      rw [value] at value'
      cases value'
      exact other declared

theorem StopsItem.of_message {inner : Message}
    (h : entry.StopsItem catalog before (.message inner)) :
    inner ∈ entry.value.messages ∧ entry.type.valueType = some inner.type := by
  cases h with
  | inside value declared => exact ⟨by simp [value], declared⟩

/-- An item ends at itself, or at the message in it. -/
theorem ends_renderItem
    (tables : ∀ inner, entry.type.valueType = some inner.type → entry.value = .message inner →
      ∃ table, catalog.table inner.type = .ok table) :
    (MessageOf.renderItem (MessageOf.render catalog) catalog entry).Ends catalog
      (entry.Matches true ∧ entry.value.Written catalog) fun steps before culprit =>
        steps = [] ∧ entry.StopsItem catalog before culprit := by
  obtain ⟨type, value⟩ := entry
  cases value with
  | message inner =>
      by_cases declared : type.valueType = some inner.type
      · obtain ⟨table, found⟩ := tables inner declared rfl
        simp only [MessageOf.renderItem, MessageOf.itemMessage, declared, if_true, found]
        refine ((Output.ends_framed _ inner).andThen_ofBytes _).mono ?_ ?_
        · intro written
          exact ⟨⟨inner, rfl, declared⟩, by simpa [Value.Written] using written⟩
        · rintro steps before culprit ⟨rfl, rfl, rfl⟩
          exact ⟨rfl, .inside rfl declared⟩
      · simp only [MessageOf.renderItem, MessageOf.itemMessage, declared, if_false]
        exact Output.ends_failHere ⟨rfl, .otherType rfl declared⟩
  | _ => exact Output.ends_failHere ⟨rfl, .notMessage (by simp)⟩

end AttachedOf

namespace MessageOf

/-! ## Messages -/

/-- What may stop the writing of a message, the way there, and what is written in front of it:
extensions in ascending order of number, then fields in the order of writing. -/
inductive Stops (catalog : Catalog) (table : FieldTable) (message : Message) :
    Path → Bytes → Culprit → Prop
  | extension {front back : List Attached} {entry : Attached} {steps : Path}
      {written before : Bytes} {culprit : Culprit} : table.isMessageSet = false →
      message.attachedByNumber = front ++ entry :: back →
      Piece.join (front.map (wireAttached (wireForm catalog) catalog message.type)) =
        .ok written →
      entry.type.codec.Stops catalog entry.value steps before culprit →
      Stops catalog table message (.field entry.type.number :: steps) (written ++ before) culprit
  | field {front back : List FieldEntry} {entry : FieldEntry} {value : Value} {steps : Path}
      {attached written before : Bytes} {culprit : Culprit} : table.isMessageSet = false →
      Piece.join
          (message.attachedByNumber.map (wireAttached (wireForm catalog) catalog message.type)) =
        .ok attached →
      table.writingOrder = front ++ entry :: back →
      Piece.join (front.map (message.wireSlot (wireForm catalog))) = .ok written →
      message.slot? entry.position = some value →
      entry.codec.Stops catalog value steps before culprit →
      Stops catalog table message (.field entry.number :: steps) (attached ++ (written ++ before))
        culprit
  | item {front back : List Attached} {entry : Attached} {written before : Bytes}
      {culprit : Culprit} : table.isMessageSet = true →
      message.attachedByNumber = front ++ entry :: back →
      Piece.join (front.map (wireItem (wireForm catalog))) = .ok written →
      entry.StopsItem catalog before culprit →
      Stops catalog table message [.field entry.type.number] (written ++ before) culprit

variable {store : Store} {catalog : Catalog} {registry : Registry} {table : FieldTable}
  {message inner : Message} {steps : Path} {before : Bytes}

theorem mem_attached_of_split {front back : List Attached} {entry : Attached}
    (split : message.attachedByNumber = front ++ entry :: back) : entry ∈ message.attached := by
  rw [← mem_attachedByNumber, split]
  exact List.mem_append_right _ List.mem_cons_self

/-- If the message stops at a value by itself then not all values match. -/
theorem Stops.not_matches {fault : ValueFault} (builds : registry.Builds message.type table)
    (h : message.Stops catalog table steps before (.value fault)) : ¬ message.Matches table := by
  intro matching
  cases h with
  | extension regular split _ stops =>
      have matched := matching.attached _ (mem_attached_of_split split)
      rw [AttachedOf.Matches, if_neg (by simp [regular])] at matched
      exact stops.not_matches matched
  | field _ _ split _ held stops =>
      have listed := builds.perm_writingOrder.mem_iff.1
        (split ▸ List.mem_append_right _ List.mem_cons_self)
      exact stops.not_matches (matching.fields _ listed _ held)
  | item isSet split _ stops =>
      have matched := matching.attached _ (mem_attached_of_split split)
      rw [isSet] at matched
      exact stops.not_matches matched

/-- The values of a field or of an extension of the message are of the type. -/
def LeadsTo (table : FieldTable) (message : Message) (type : MessageType) : Prop :=
  (∃ entry ∈ table.entries, entry.codec.valueType = some type) ∨
    ∃ entry ∈ message.attached, entry.type.valueType = some type

/-- If the message stops inside another one then that is a child of it, of a declared type. -/
theorem Stops.of_message (builds : registry.Builds message.type table)
    (h : message.Stops catalog table steps before (.message inner)) :
    inner ∈ message.children ∧ message.LeadsTo table inner.type := by
  cases h with
  | extension _ split _ stops =>
      obtain ⟨inside, declared⟩ := stops.of_message
      have listed := mem_attached_of_split split
      exact ⟨mem_children_of_attached listed inside, .inr ⟨_, listed, declared⟩⟩
  | field _ _ split _ held stops =>
      obtain ⟨inside, declared⟩ := stops.of_message
      have listed := builds.perm_writingOrder.mem_iff.1
        (split ▸ List.mem_append_right _ List.mem_cons_self)
      exact ⟨mem_children_of_slot? held inside, .inl ⟨_, listed, declared⟩⟩
  | item _ split _ stops =>
      obtain ⟨inside, declared⟩ := stops.of_message
      have listed := mem_attached_of_split split
      exact ⟨mem_children_of_attached listed inside, .inr ⟨_, listed, declared⟩⟩

/-- If the values in slots and in extensions are written whole then the messages inside are. -/
theorem written_children (builds : registry.Builds message.type table)
    (slots : message.slots.length = message.type.fields.length)
    (fields : ∀ entry ∈ table.writingOrder, ∀ value, message.slot? entry.position = some value →
      value.Written catalog)
    (attached : ∀ entry ∈ message.attached, entry.value.Written catalog) :
    ∀ inner ∈ message.children, (inner.render catalog).failed = false := by
  intro inner mem
  obtain ⟨value, held, inside⟩ := List.mem_flatMap.1 mem
  rcases mem_values_iff.1 held with ⟨position, slot⟩ | ⟨entry, listed, rfl⟩
  · have bound := lt_length_of_slot? slot
    rw [slots, ← builds.mem_positions_iff] at bound
    obtain ⟨entry, listed, rfl⟩ := List.mem_map.1 bound
    exact fields entry listed value slot inner inside
  · exact attached entry listed inner inside

section

variable (agrees : ∀ inner ∈ message.children, inner.Agrees catalog)

include agrees

theorem ends_renderAttached
    (codecs : ∀ entry ∈ message.attached,
      catalog.codec message.type entry.type = entry.type.codec ∧ entry.type.codec.Legal) :
    (Output.concat (message.attachedByNumber.map
      (renderAttached (render catalog) catalog message.type))).Ends catalog
      (∀ entry ∈ message.attachedByNumber,
        entry.type.codec.Matches entry.value ∧ entry.value.Written catalog)
      (Output.StopsAmong (wireAttached (wireForm catalog) catalog message.type)
        (fun entry steps before culprit => ∃ inside, steps = .field entry.type.number :: inside ∧
          entry.type.codec.Stops catalog entry.value inside before culprit)
        message.attachedByNumber) := by
  have below : ∀ entry ∈ message.attachedByNumber, ∀ inner ∈ entry.value.messages,
      inner.Agrees catalog := fun entry mem inner inside =>
    agrees inner (mem_children_of_attached (mem_attachedByNumber.1 mem) inside)
  apply Output.ends_concat_map
  · intro entry mem
    exact toPiece_renderAttached (below entry mem)
  · intro entry mem
    obtain ⟨own, legal⟩ := codecs entry (mem_attachedByNumber.1 mem)
    rw [renderAttached, own]
    exact (FieldCodec.ends_render legal (below entry mem)).under _

theorem ends_renderSlots (builds : registry.Builds message.type table) :
    (Output.concat (table.writingOrder.map
      (message.renderSlot (render catalog) catalog))).Ends catalog
      (∀ entry ∈ table.writingOrder, ∀ value, message.slot? entry.position = some value →
        entry.codec.Matches value ∧ value.Written catalog)
      (Output.StopsAmong (message.wireSlot (wireForm catalog))
        (fun entry steps before culprit => ∃ value inside,
          message.slot? entry.position = some value ∧ steps = .field entry.number :: inside ∧
          entry.codec.Stops catalog value inside before culprit)
        table.writingOrder) := by
  apply Output.ends_concat_map
  · exact fun entry _ => toPiece_renderSlot agrees
  · intro entry mem
    have legal := builds.legal_of_mem (builds.perm_writingOrder.mem_iff.1 mem)
    rw [renderSlot]
    cases held : message.slot? entry.position with
    | none => exact Output.ends_ofBytes [] (by simp)
    | some value =>
        have ends := FieldCodec.ends_render legal fun inner inside =>
          agrees inner (mem_children_of_slot? held inside)
        refine (ends.under (.field entry.number)).mono ?_ ?_
        · rintro holds _ ⟨⟩
          exact holds
        · rintro steps before culprit ⟨inside, path, stops⟩
          exact ⟨value, inside, rfl, path, stops⟩

theorem ends_renderItems
    (tables : ∀ inner ∈ message.children, message.LeadsTo table inner.type →
      ∃ table, catalog.table inner.type = .ok table) :
    (Output.concat (message.attachedByNumber.map fun entry =>
      (renderItem (render catalog) catalog entry).under (.field entry.type.number))).Ends catalog
      (∀ entry ∈ message.attachedByNumber, entry.Matches true ∧ entry.value.Written catalog)
      (Output.StopsAmong
        (fun entry => (wireItem (wireForm catalog) entry).under (.field entry.type.number))
        (fun entry steps before culprit => ∃ inside, steps = .field entry.type.number :: inside ∧
          inside = [] ∧ entry.StopsItem catalog before culprit)
        message.attachedByNumber) := by
  have below : ∀ entry ∈ message.attachedByNumber, ∀ inner ∈ entry.value.messages,
      inner ∈ message.children := fun entry mem inner inside =>
    mem_children_of_attached (mem_attachedByNumber.1 mem) inside
  apply Output.ends_concat_map
  · intro entry mem
    rw [Output.toPiece_under, toPiece_renderItem fun inner inside =>
      agrees inner (below entry mem inner inside)]
  · intro entry mem
    refine (AttachedOf.ends_renderItem fun inner declared value => ?_).under _
    have inside : inner ∈ entry.value.messages := by simp [value]
    exact tables inner (below entry mem inner inside)
      (.inr ⟨entry, mem_attachedByNumber.1 mem, declared⟩)

/-- A message is written whole if its values match and the messages inside it are written whole,
and otherwise stops at the first culprit. -/
theorem ends_render (found : catalog.table message.type = .ok table)
    (builds : registry.Builds message.type table)
    (slots : message.slots.length = message.type.fields.length)
    (codecs : ∀ entry ∈ message.attached,
      catalog.codec message.type entry.type = entry.type.codec ∧ entry.type.codec.Legal)
    (tables : ∀ inner ∈ message.children, message.LeadsTo table inner.type →
      ∃ table, catalog.table inner.type = .ok table) :
    (message.render catalog).Ends catalog
      (message.Matches table ∧ ∀ inner ∈ message.children, (inner.render catalog).failed = false)
      (message.Stops catalog table) := by
  rw [render_eq, renderInner, found]
  simp only [renderBody]
  cases isSet : table.isMessageSet with
  | true =>
      refine ((ends_renderItems agrees tables).andThen_ofBytes _).mono ?_ ?_
      · intro all
        -- a message set has no fields
        have fields := (builds.shape_of_messageSet isSet).2.2
        have unset : ∀ position, message.slot? position = none := by
          intro position
          rw [fields] at slots
          simp [slot?, List.length_eq_zero_iff.1 slots]
        refine ⟨⟨?_, ?_⟩, written_children builds slots ?_ ?_⟩
        · simp [unset]
        · intro entry mem
          rw [isSet]
          exact (all entry (mem_attachedByNumber.2 mem)).1
        · simp [unset]
        · exact fun entry mem => (all entry (mem_attachedByNumber.2 mem)).2
      · rintro steps before culprit
          ⟨front, entry, back, written, behind, split, joined, rfl, inside, rfl, rfl, stops⟩
        exact .item isSet split (Piece.join_map_under_eq_ok_iff.1 joined) stops
  | false =>
      refine ((ends_renderAttached agrees codecs).andThen
        ((ends_renderSlots agrees builds).andThen_ofBytes _)).mono ?_ ?_
      · rintro ⟨attached, fields⟩
        refine ⟨⟨?_, ?_⟩, written_children builds slots ?_ ?_⟩
        · intro entry mem value held
          exact (fields entry (builds.perm_writingOrder.mem_iff.2 mem) value held).1
        · intro entry mem
          rw [AttachedOf.Matches, if_neg (by simp [isSet])]
          exact (attached entry (mem_attachedByNumber.2 mem)).1
        · exact fun entry mem value held => (fields entry mem value held).2
        · exact fun entry mem => (attached entry (mem_attachedByNumber.2 mem)).2
      · rintro steps before culprit
          (⟨front, entry, back, written, behind, split, joined, rfl, inside, rfl, stops⟩ |
            ⟨attached, rest, whole, rfl, front, entry, back, written, behind, split, joined, rfl,
              value, inside, held, rfl, stops⟩)
        · exact .extension isSet split joined stops
        · refine .field isSet ?_ split joined held stops
          rw [← whole, Output.toPiece_concat, List.map_map]
          congr 1
          apply List.map_congr_left
          intro other mem
          exact (toPiece_renderAttached fun inner inside =>
            agrees inner (mem_children_of_attached (mem_attachedByNumber.1 mem) inside)).symm

end

/-! ## Messages inside messages -/

/-- The types that a message reaches: its own, those of the fields of types that it reaches, those
of its extensions, and those that a message inside it reaches, if it reaches the type of that. -/
inductive Reaches (catalog : Catalog) : Message → MessageType → Prop
  | self (message : Message) : Reaches catalog message message.type
  | field {message : Message} {type valueType : MessageType} {table : FieldTable}
      {entry : FieldEntry} : Reaches catalog message type → catalog.table type = .ok table →
      entry ∈ table.entries → entry.codec.valueType = some valueType →
      Reaches catalog message valueType
  | extension {message : Message} {entry : Attached} {valueType : MessageType} :
      entry ∈ message.attached → entry.type.valueType = some valueType →
      Reaches catalog message valueType
  | inside {message inner : Message} {type : MessageType} : inner ∈ message.children →
      Reaches catalog message inner.type → Reaches catalog inner type →
      Reaches catalog message type

theorem LeadsTo.reaches {type : MessageType} (h : message.LeadsTo table type)
    (found : catalog.table message.type = .ok table) : message.Reaches catalog type := by
  rcases h with ⟨entry, mem, value⟩ | ⟨entry, mem, value⟩
  · exact .field (.self message) found mem value
  · exact .extension mem value

/-- All types that a message reaches are in one registry. -/
theorem Reaches.mem_types {type : MessageType} (h : message.Reaches store.catalog type)
    (sound : store.Sound) (registered : message.Registered store) :
    type ∈ (store.registry message.type.registry).types := by
  induction h with
  | self message => exact registered.holds
  | field _ found mem value ih =>
      obtain ⟨held, home⟩ := sound.home_of_mem (ih registered)
      rw [← home]
      exact (sound.builds_of_table held found).mem_types_of_mem mem value
  | extension mem value =>
      exact (sound.registry _).extensionValueType _ (registered.declares mem) _ value
  | inside mem _ _ ih ih' =>
      rw [← (sound.home_of_mem (ih registered)).2]
      exact ih' (registered.of_mem mem)

/-- Where the writing of a message fails, and what is written before: it stops at a value by
itself, or at a message inside that fails. -/
inductive Fails (catalog : Catalog) : Message → Unencodable → Bytes → Prop
  | value {message : Message} {table : FieldTable} {steps : Path} {before : Bytes}
      {fault : ValueFault} : catalog.table message.type = .ok table →
      message.Stops catalog table steps before (.value fault) →
      Fails catalog message ⟨fault, steps⟩ before
  | inside {message inner : Message} {table : FieldTable} {steps : Path} {before bytes : Bytes}
      {error : Unencodable} : catalog.table message.type = .ok table →
      message.Stops catalog table steps before (.message inner) → Fails catalog inner error bytes →
      Fails catalog message { error with path := steps ++ error.path } (before ++ bytes)

/-- The extensions of its own registry that the message carries, also in messages inside, are coded
by their own codecs there. -/
def OwnCoded (store : Store) (message : Message) : Prop :=
  message.Carries fun type =>
    store.Declares message.type.registry type → store.Native message.type.registry type

/-- It suffices that its registry codes all of its extensions by their own codecs. -/
theorem ownCoded_of_registry (own : ∀ type, store.Declares message.type.registry type →
    (store.registry message.type.registry).codecOf type = type.codec) : message.OwnCoded store :=
  throughout_of_forall fun _ _ _ declared => ⟨declared, own _ declared⟩

/-- The message is written whole and is matched, or it fails where it should and is not. -/
def Decided (catalog : Catalog) (message : Message) : Prop :=
  ((message.render catalog).failed = false ∧ message.Matched catalog) ∨
    ∃ error bytes, message.render catalog = ⟨bytes, some error⟩ ∧
      message.Fails catalog error bytes ∧ ¬ message.Matched catalog

theorem decided (sound : store.Sound) (registered : message.Registered store)
    (keyed : message.Keyed) (shaped : message.Shaped)
    (own : message.OwnCoded store)
    (tables : ∀ type, message.Reaches store.catalog type →
      ∃ table, store.catalog.table type = .ok table) : message.Decided store.catalog := by
  induction message using MessageOf.induction with
  | step message ih =>
      obtain ⟨table, found⟩ := tables message.type (.self message)
      have builds := sound.builds_of_table registered.holds found
      have codecs : ∀ entry ∈ message.attached,
          store.catalog.codec message.type entry.type = entry.type.codec ∧
            entry.type.codec.Legal := by
        intro entry mem
        have declared := registered.declares mem
        exact ⟨(own.here entry mem declared).coded, sound.legal_codec ⟨_, declared⟩⟩
      have agrees : ∀ inner ∈ message.children, inner.Agrees store.catalog := fun inner mem =>
        (registered.of_mem mem).agrees sound (keyed.of_mem mem)
      -- messages of declared types inherit all hypotheses
      have inside : ∀ inner ∈ message.children, message.LeadsTo table inner.type →
          inner.Decided store.catalog := by
        intro inner mem leads
        have reaches := leads.reaches found
        -- they are of the same registry
        have home := (sound.home_of_mem (reaches.mem_types sound registered)).2
        have own' : inner.OwnCoded store := by
          rw [OwnCoded, home]
          exact own.of_mem mem
        exact ih inner mem (registered.of_mem mem) (keyed.of_mem mem) (shaped.of_mem mem) own'
          fun type h => tables type (.inside mem reaches h)
      have ends := ends_render agrees found builds shaped.slots codecs fun inner _ leads =>
        tables inner.type (leads.reaches found)
      rcases ends with ⟨written, matching, children⟩ | ⟨steps, before, culprit, stops, failed, eq⟩
      · refine .inl ⟨written, .intro ⟨table, found, matching⟩ fun inner mem => ?_⟩
        have leads := matching.of_mem_children builds shaped.slots mem
        rcases inside inner mem leads with ⟨-, matched⟩ | ⟨error, bytes, fails, -⟩
        · exact matched
        · have whole := children inner mem
          rw [fails] at whole
          cases whole
      · right
        cases culprit with
        | value fault =>
            refine ⟨⟨fault, steps⟩, before, ?_, .value found stops, ?_⟩
            · simpa [Culprit.output, Output.failHere, Output.fail, Output.behind,
                Unencodable.here] using eq
            · intro matched
              obtain ⟨table', found', matching⟩ := matched.here
              rw [found, Except.ok.injEq] at found'
              subst found'
              exact stops.not_matches builds matching
        | message inner =>
            obtain ⟨mem, leads⟩ := stops.of_message builds
            simp only [Culprit.output] at failed eq
            rcases inside inner mem leads with ⟨written, -⟩ | ⟨error, bytes, fails, here, differs⟩
            · simp [written] at failed
            · rw [fails] at eq
              refine ⟨_, _, eq, .inside found stops here, ?_⟩
              exact fun matched => differs (matched.of_mem mem)

/-- Marshaling fails just if some value does not match its declaration, at any depth, and then fails
at the first one in the order of writing. What it has appended by then is what is to be written
before that value. -/
theorem marshal_fails_iff (reachable : store.Reachable) (registered : message.Registered store)
    (keyed : message.Keyed) (shaped : message.Shaped)
    (own : message.OwnCoded store)
    (tables : ∀ type, message.Reaches store.catalog type →
      ∃ table, store.catalog.table type = .ok table) :
    (((message.marshal false).run store).1.failure ≠ none ↔ ¬ message.Matched store.catalog) ∧
      ∀ failure, ((message.marshal false).run store).1.failure = some failure →
        ∃ error, failure = .encode error ∧
          message.Fails store.catalog error ((message.marshal false).run store).1.bytes := by
  have sound := reachable.sound
  have distrusted : false = true → message.Tallied store.catalog := by simp
  have marshaled := (ensures_marshal_render sound registered keyed distrusted).run.1.2
  obtain ⟨table, found⟩ := tables message.type (.self message)
  rw [rendered, found] at marshaled
  obtain ⟨bytes, failure⟩ := Prod.mk.inj marshaled
  rw [bytes, failure]
  rcases decided sound registered keyed shaped own tables with
    ⟨written, matched⟩ | ⟨error, front, eq, fails, differs⟩
  · have none : (message.render store.catalog).failure = none := by
      simpa [Output.failed] using written
    simp [none, matched]
  · simp [eq, differs, fails]

/-- A node whose weight is a text, with a label. -/
def textNode : Message :=
  ⟨nodeType, [some (.string "y"), none], .empty, some [], some [⟨labelType, .string "z"⟩]⟩

/-- A node with a weight and a label that holds the node with the text. -/
def textHolder : Message :=
  ⟨nodeType, [some (.int32 5), some (.message textNode)], .empty, some [],
    some [⟨labelType, .string "x"⟩]⟩

theorem children_textHolder : textHolder.children = [textNode] ∧ textNode.children = [] := by
  simp [textHolder, textNode, children, values, attached, Value.messages]

theorem registered_textHolder : textHolder.Registered nodeStore := by
  have labeled : ∀ message : Message, message.attached.map (·.type) = [labelType] →
      ∀ entry ∈ message.attached, nodeStore.Declares ⟨0⟩ entry.type := by
    intro message types entry mem
    have listed : entry.type ∈ message.attached.map (·.type) := List.mem_map_of_mem mem
    rw [types] at listed
    exact listed
  obtain ⟨outer, inner⟩ := children_textHolder
  refine .intro (List.mem_singleton_self _) (labeled _ rfl) ?_
  rw [outer, List.forall_mem_singleton]
  refine .intro (List.mem_singleton_self _) (labeled _ rfl) ?_
  simp [inner]

theorem keyed_textHolder : textHolder.Keyed := by
  obtain ⟨outer, inner⟩ := children_textHolder
  rw [Keyed, throughout_iff, outer, List.forall_mem_singleton, throughout_iff, inner]
  exact ⟨by decide, by decide, by simp⟩

theorem shaped_textHolder : textHolder.Shaped := by
  obtain ⟨outer, inner⟩ := children_textHolder
  refine .intro rfl rfl ?_
  rw [outer, List.forall_mem_singleton]
  refine .intro rfl rfl ?_
  simp [inner]

/-- The label and the weight of the holder are written, and the label of the node inside. -/
theorem marshal_fails_iff_textHolder :
    ¬ textHolder.Matched nodeStore.catalog ∧
      ((textHolder.marshal false).run nodeStore).1.failure =
        some (.encode ⟨.wrongVariant .int32, [.field 2, .field 1]⟩) ∧
      textHolder.Fails nodeStore.catalog ⟨.wrongVariant .int32, [.field 2, .field 1]⟩
        [162, 6, 1, 120, 8, 5, 18, 4, 162, 6, 1, 122] := by
  have tables : ∀ type, textHolder.Reaches nodeStore.catalog type →
      ∃ table, nodeStore.catalog.table type = .ok table := by
    intro type reaches
    have listed := reaches.mem_types reachable_nodeStore.sound registered_textHolder
    rw [List.mem_singleton.1 listed]
    exact ⟨_, rfl⟩
  obtain ⟨fails, place⟩ := marshal_fails_iff reachable_nodeStore registered_textHolder
    keyed_textHolder shaped_textHolder (ownCoded_of_registry fun _ _ => rfl) tables
  have failure : ((textHolder.marshal false).run nodeStore).1.failure =
      some (.encode ⟨.wrongVariant .int32, [.field 2, .field 1]⟩) := by decide
  have bytes : ((textHolder.marshal false).run nodeStore).1.bytes =
      [162, 6, 1, 120, 8, 5, 18, 4, 162, 6, 1, 122] := by decide
  obtain ⟨error, ⟨⟩, fails'⟩ := place _ failure
  rw [bytes] at fails'
  exact ⟨fails.1 (by simp [failure]), failure, fails'⟩

/-- After another registry's extension was encoded under the name of the label, marshaling fails on
a label that matches its declaration. -/
theorem marshal_label_mixedStore :
    mixedStore.Reachable ∧
      (nodeType.newMessage.attach ⟨labelType, .string "x"⟩).Registered mixedStore ∧
      (∀ type, (nodeType.newMessage.attach ⟨labelType, .string "x"⟩).Reaches
        mixedStore.catalog type → ∃ table, mixedStore.catalog.table type = .ok table) ∧
      (nodeType.newMessage.attach ⟨labelType, .string "x"⟩).WellTyped mixedStore.catalog
        maxNesting ∧
      (nodeType.newMessage.attach ⟨labelType, .string "x"⟩).Matched mixedStore.catalog ∧
      (((nodeType.newMessage.attach ⟨labelType, .string "x"⟩).marshal false).run
        mixedStore).1.failure = some (.encode ⟨.wrongVariant .int32, [.field 100]⟩) := by
  have held : mixedStore.Holds nodeType := List.mem_singleton_self nodeType
  have sound := reachable_mixedStore.sound
  have builds := sound.builds_of_table held rfl
  have typed : (nodeType.newMessage.attach ⟨labelType, .string "x"⟩).WellTyped
      mixedStore.catalog maxNesting :=
    wellTyped_iff.2 ⟨_, rfl, (typed_newMessage builds).attach rfl ⟨rfl, rfl, rfl, rfl⟩⟩
  have registered := typed.registered sound held
  refine ⟨reachable_mixedStore, registered, ?_, typed, typed.matched sound held, by decide⟩
  intro type reaches
  have listed := reaches.mem_types sound registered
  rw [List.mem_singleton.1 listed]
  exact ⟨_, rfl⟩

end MessageOf

end ProtoWire
