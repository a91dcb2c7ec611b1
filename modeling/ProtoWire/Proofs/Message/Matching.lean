import ProtoWire.Proofs.Message.Throughout
import ProtoWire.Proofs.Registry.Coupling

/-!
# Values that match their declarations

Slots and extensions are dynamic: a message may hold any value in them. A value matches its field
or extension if it is of the kind and cardinality that was declared, and if the messages in it
are of the declared type (`FieldCodec.Matches`, `AttachedOf.Matches`). In a message set, whose
items are single messages, an extension holds one message whatever its cardinality. A message is
matched if all values in it match, at every depth (`MessageOf.Matched`). Unlike a well-typed
message it may break its oneofs and hold any unknown bytes, and a group may be a message set.
-/

set_option autoImplicit false

namespace ProtoWire

namespace FieldCodec

/-- One value of a field: a scalar of its kind or a message of its type. -/
def MatchesOne (codec : FieldCodec) : Value → Prop
  | .message inner => codec.kind.isMessage = true ∧ codec.valueType = some inner.type
  | value => (codec.kind.payload? value).isSome = true

/-- A value of a field: a list for a repeated field, a single value for any other. -/
def Matches (codec : FieldCodec) (value : Value) : Prop :=
  if codec.arrangement.isRepeated then
    ∃ items, value = .list items ∧ ∀ item ∈ items, codec.MatchesOne item
  else codec.MatchesOne value

variable {codec : FieldCodec} {value : Value} {inner : Message}

theorem matches_iff_matchesOne (single : codec.arrangement.isRepeated = false) :
    codec.Matches value ↔ codec.MatchesOne value := by
  rw [Matches, single, if_neg Bool.false_ne_true]

theorem matches_iff_items (repeated : codec.arrangement.isRepeated = true) :
    codec.Matches value ↔
      ∃ items, value = .list items ∧ ∀ item ∈ items, codec.MatchesOne item := by
  rw [Matches, if_pos repeated]

/-- Values that fit a field match it. -/
theorem FitsOne.matchesOne {inside : Message → Prop} (h : codec.FitsOne inside value) :
    codec.MatchesOne value := by
  cases value with
  | message inner => exact ⟨h.1, h.2.1⟩
  | _ => exact h

theorem Fits.matches {inside : Message → Prop} (h : codec.Fits inside value) :
    codec.Matches value := by
  cases repeated : codec.arrangement.isRepeated with
  | false => exact (matches_iff_matchesOne repeated).2 ((fits_iff_fitsOne repeated).1 h).matchesOne
  | true =>
      obtain ⟨items, rfl, all⟩ := (fits_iff_items repeated).1 h
      exact (matches_iff_items repeated).2 ⟨items, rfl, fun item mem => (all item mem).matchesOne⟩

theorem MatchesOne.valueType_of_mem (h : codec.MatchesOne value) (mem : inner ∈ value.messages) :
    codec.valueType = some inner.type := by
  cases value with
  | message message =>
      rw [Value.messages_message, List.mem_singleton] at mem
      subst mem
      exact h.2
  -- no kind has lists for single values
  | list items =>
      have scalar : (codec.kind.payload? (.list items)).isSome = true := h
      cases kind : codec.kind <;> simp [kind, Kind.payload?] at scalar
  | _ => simp [Value.messages] at mem

/-- The messages in a value that matches are of the declared type. -/
theorem Matches.valueType_of_mem (h : codec.Matches value) (mem : inner ∈ value.messages) :
    codec.valueType = some inner.type := by
  cases repeated : codec.arrangement.isRepeated with
  | false => exact ((matches_iff_matchesOne repeated).1 h).valueType_of_mem mem
  | true =>
      obtain ⟨items, rfl, all⟩ := (matches_iff_items repeated).1 h
      rw [Value.messages_list] at mem
      obtain ⟨item, listed, deep⟩ := List.mem_flatMap.1 mem
      exact (all item listed).valueType_of_mem deep

end FieldCodec

/-- A value of an extension: in a message set a single message of its type, in any other message a
value of its codec. -/
def AttachedOf.Matches (inSet : Bool) (entry : Attached) : Prop :=
  if inSet then
    ∃ inner, entry.value = .message inner ∧ entry.type.valueType = some inner.type
  else entry.type.codec.Matches entry.value

theorem AttachedOf.Matches.valueType_of_mem {inSet : Bool} {entry : Attached} {inner : Message}
    (h : entry.Matches inSet) (mem : inner ∈ entry.value.messages) :
    entry.type.valueType = some inner.type := by
  cases inSet with
  | false => exact FieldCodec.Matches.valueType_of_mem h mem
  | true =>
      obtain ⟨message, value, type⟩ := h
      rw [value, Value.messages_message, List.mem_singleton] at mem
      rw [mem]
      exact type

namespace MessageOf

/-- Every field that is set, and every extension, holds a value that matches it. -/
structure Matches (table : FieldTable) (message : Message) : Prop where
  fields : ∀ entry ∈ table.entries, ∀ value, message.slot? entry.position = some value →
    entry.codec.Matches value
  attached : ∀ entry ∈ message.attached, entry.Matches table.isMessageSet

/-- All values match in the message and in the messages inside it, whose tables are there. -/
def Matched (catalog : Catalog) (message : Message) : Prop :=
  message.Throughout fun inner =>
    ∃ table, catalog.table inner.type = .ok table ∧ inner.Matches table

variable {store : Store} {message inner : Message} {table : FieldTable}

/-- A child of a message is in the slot of a field, or in an extension, of the child's type. -/
theorem Matches.of_mem_children (h : message.Matches table) {registry : Registry}
    (builds : registry.Builds message.type table)
    (slots : message.slots.length = message.type.fields.length) (mem : inner ∈ message.children) :
    (∃ entry ∈ table.entries, entry.codec.valueType = some inner.type) ∨
      ∃ entry ∈ message.attached, entry.type.valueType = some inner.type := by
  obtain ⟨value, held, inside⟩ := List.mem_flatMap.1 mem
  rcases mem_values_iff.1 held with ⟨position, slot⟩ | ⟨entry, listed, rfl⟩
  · have bound := lt_length_of_slot? slot
    rw [slots] at bound
    obtain ⟨entry, listed, valueType, -, rfl⟩ :=
      builds.exists_entry (List.getElem?_eq_getElem bound)
    exact .inl ⟨_, listed, (h.fields _ listed value slot).valueType_of_mem inside⟩
  · exact .inr ⟨entry, listed, (h.attached entry listed).valueType_of_mem inside⟩

/-- The children of a registered message whose values match are of registered types. -/
theorem Matches.holds_of_mem (h : message.Matches table) (sound : store.Sound)
    (held : store.Holds message.type) (found : store.catalog.table message.type = .ok table)
    (known : ∀ entry ∈ message.attached, store.Knows entry.type)
    (slots : message.slots.length = message.type.fields.length) (mem : inner ∈ message.children) :
    store.Holds inner.type := by
  have builds := sound.builds_of_table held found
  rcases h.of_mem_children builds slots mem with ⟨entry, listed, value⟩ | ⟨entry, listed, value⟩
  · exact sound.holds_of_mem (builds.mem_types_of_mem listed value)
  · exact sound.holds_value (known entry listed) value

/-- Well-typed messages are matched. -/
theorem WellTyped.matched {depth : Nat} (h : message.WellTyped store.catalog depth)
    (sound : store.Sound) (held : store.Holds message.type) : message.Matched store.catalog := by
  induction message using MessageOf.induction generalizing depth with
  | step message ih =>
      obtain ⟨table, found, typed⟩ := wellTyped_iff.1 h
      have matching : message.Matches table := by
        refine ⟨fun entry mem value slot => (typed.fits entry mem value slot).matches, ?_⟩
        intro entry mem
        obtain ⟨-, fits⟩ := typed.attached entry mem
        rw [AttachedOf.Matches]
        split at fits
        · next inSet =>
            obtain ⟨inner, value, type, -⟩ := fits
            rw [if_pos inSet]
            exact ⟨inner, value, type⟩
        · next regular =>
            rw [if_neg regular]
            exact fits.2.2.matches
      refine .intro ⟨table, found, matching⟩ fun inner mem => ?_
      obtain ⟨lower, -, wellTyped, held', -⟩ := h.of_mem sound held mem
      exact ih inner mem wellTyped held'

end MessageOf

end ProtoWire
