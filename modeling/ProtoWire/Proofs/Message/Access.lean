import Mathlib.Data.List.Nodup
import ProtoWire.Proofs.Message.Tree

/-!
# Slots and extensions after a change

What the slots and the attached extensions of a message hold after one of them was changed.
-/

set_option autoImplicit false

namespace ProtoWire

/-- A cache is emptied once. -/
theorem SizeCache.clear_clear (cache : SizeCache) : cache.clear.clear = cache.clear := by
  cases cache <;> rfl

namespace MessageOf

section

variable {V : Type} (message : MessageOf V)

theorem slot?_eq_some_iff {position : Nat} {value : V} :
    message.slot? position = some value ↔ message.slots[position]? = some (some value) := by
  rw [slot?, Option.join_eq_some_iff]

theorem congr_slots {a b : MessageOf V} (slots : a.slots = b.slots) (type : a.type = b.type)
    (cache : a.cache = b.cache) (unknown : a.unknown = b.unknown)
    (extensions : a.extensions = b.extensions) : a = b := by
  obtain ⟨_, _, _, _, _⟩ := a
  obtain ⟨_, _, _, _, _⟩ := b
  simp only at slots type cache unknown extensions
  subst slots type cache unknown extensions
  rfl

/-- The slots of two messages are the same if they hold the same, position by position. -/
theorem slots_ext {a b : MessageOf V} (length : a.slots.length = b.slots.length)
    (same : ∀ position, a.slot? position = b.slot? position) : a.slots = b.slots := by
  apply List.ext_getElem length
  intro position left right
  have eq := same position
  rw [slot?, slot?, List.getElem?_eq_getElem left, List.getElem?_eq_getElem right] at eq
  exact eq

/-- What is held is held at a position that the message has. -/
theorem lt_length_of_slot? {message : MessageOf V} {position : Nat} {value : V}
    (h : message.slot? position = some value) : position < message.slots.length :=
  (List.getElem?_eq_some_iff.1 (message.slot?_eq_some_iff.1 h)).1

/-- Putting a slot changes what is held at its position, if the message has the position. -/
theorem slot?_putSlot (position other : Nat) (slot : Option V) :
    (message.putSlot position slot).slot? other =
      if other = position ∧ position < message.slots.length then slot
      else message.slot? other := by
  rw [slot?, putSlot, List.getElem?_set]
  by_cases same : other = position
  · subst same
    -- putting a slot beyond the last changes nothing
    by_cases inside : other < message.slots.length
    · simp [inside]
    · simp [inside, slot?]
  · simp [same, Ne.symm same, slot?]

theorem slot?_putSlot_of_ne {position other : Nat} (h : other ≠ position) (slot : Option V) :
    (message.putSlot position slot).slot? other = message.slot? other := by
  rw [slot?_putSlot, if_neg (fun same => h same.1)]

theorem slot?_putSlot_self {position : Nat} (h : position < message.slots.length)
    (slot : Option V) : (message.putSlot position slot).slot? position = slot := by
  rw [slot?_putSlot, if_pos ⟨rfl, h⟩]

/-- Putting back what is held changes nothing. -/
theorem putSlot_slot? {message : MessageOf V} {position : Nat} {value : V}
    (h : message.slot? position = some value) :
    message.putSlot position (some value) = message := by
  rw [slot?_eq_some_iff] at h
  obtain ⟨inside, eq⟩ := List.getElem?_eq_some_iff.1 h
  rw [putSlot, ← eq, List.set_getElem_self]

end

end MessageOf

/-! ## Oneofs -/

namespace MessageType

/-- The oneof that the field at a position belongs to. -/
def oneofAt (type : MessageType) (position : Nat) : Option Nat :=
  (type.fields[position]?).bind FieldDescriptor.oneof

/-- Two fields that are different members of one oneof. -/
def areSiblings (type : MessageType) (position other : Nat) : Bool :=
  match type.oneofAt position with
  | none => false
  | some oneof => other != position && type.oneofAt other == some oneof

theorem areSiblings_iff {type : MessageType} {position other : Nat} :
    type.areSiblings position other = true ↔
      other ≠ position ∧
        ∃ oneof, type.oneofAt position = some oneof ∧ type.oneofAt other = some oneof := by
  simp only [areSiblings]
  cases type.oneofAt position <;> simp

/-- No field is a sibling of itself. -/
theorem areSiblings_self (type : MessageType) (position : Nat) :
    type.areSiblings position position = false := by
  rw [Bool.eq_false_iff, ne_eq, areSiblings_iff]
  rintro ⟨ne, -⟩
  exact ne rfl

/-- Siblings are siblings of each other. -/
theorem areSiblings_comm (type : MessageType) (position other : Nat) :
    type.areSiblings position other = type.areSiblings other position := by
  rw [Bool.eq_iff_iff, areSiblings_iff, areSiblings_iff]
  constructor
  · rintro ⟨ne, oneof, left, right⟩
    exact ⟨ne.symm, oneof, right, left⟩
  · rintro ⟨ne, oneof, left, right⟩
    exact ⟨ne.symm, oneof, right, left⟩

end MessageType

namespace MessageOf

section

variable {V : Type} (message : MessageOf V)

/-- Unsetting the siblings of a field, slot by slot. -/
theorem slots_clearSiblings (position : Nat) :
    (message.clearSiblings position).slots =
      message.slots.mapIdx fun other slot =>
        if message.type.areSiblings position other then none else slot := by
  have siblings : ∀ other, message.type.areSiblings position other =
      match message.type.oneofAt position with
      | none => false
      | some oneof => other != position && message.type.oneofAt other == some oneof :=
    fun _ => rfl
  simp only [clearSiblings, siblings]
  -- a field that is in no oneof has no siblings
  cases oneof : message.type.oneofAt position with
  | none =>
      rw [MessageType.oneofAt] at oneof
      simp only [oneof]
      apply List.ext_getElem?
      intro other
      simp
  | some index =>
      rw [MessageType.oneofAt] at oneof
      simp only [oneof]
      rfl

@[simp]
theorem type_clearSiblings (position : Nat) :
    (message.clearSiblings position).type = message.type := by
  simp only [clearSiblings]
  split <;> rfl

@[simp]
theorem extensions_clearSiblings (position : Nat) :
    (message.clearSiblings position).extensions = message.extensions := by
  simp only [clearSiblings]
  split <;> rfl

@[simp]
theorem unknown_clearSiblings (position : Nat) :
    (message.clearSiblings position).unknown = message.unknown := by
  simp only [clearSiblings]
  split <;> rfl

@[simp]
theorem cache_clearSiblings (position : Nat) :
    (message.clearSiblings position).cache = message.cache := by
  simp only [clearSiblings]
  split <;> rfl

@[simp]
theorem length_slots_clearSiblings (position : Nat) :
    (message.clearSiblings position).slots.length = message.slots.length := by
  rw [slots_clearSiblings, List.length_mapIdx]

/-- What is left after the siblings of a field were unset. -/
theorem slot?_clearSiblings (position other : Nat) :
    (message.clearSiblings position).slot? other =
      if message.type.areSiblings position other then none else message.slot? other := by
  rw [slot?, slots_clearSiblings, List.getElem?_mapIdx, slot?]
  cases message.slots[other]? with
  | none => simp
  | some slot => split <;> simp [*]

/-- Puts a value into a slot and unsets the siblings of its field. -/
def putField (position : Nat) (value : V) : MessageOf V :=
  (message.putSlot position (some value)).clearSiblings position

@[simp]
theorem type_putField (position : Nat) (value : V) :
    (message.putField position value).type = message.type := by
  rw [putField, type_clearSiblings, putSlot]

@[simp]
theorem extensions_putField (position : Nat) (value : V) :
    (message.putField position value).extensions = message.extensions := by
  rw [putField, extensions_clearSiblings, putSlot]

@[simp]
theorem attached_putField (position : Nat) (value : V) :
    (message.putField position value).attached = message.attached := by
  rw [attached, extensions_putField, attached]

@[simp]
theorem unknown_putField (position : Nat) (value : V) :
    (message.putField position value).unknown = message.unknown := by
  rw [putField, unknown_clearSiblings, putSlot]

@[simp]
theorem cache_putField (position : Nat) (value : V) :
    (message.putField position value).cache = message.cache := by
  rw [putField, cache_clearSiblings, putSlot]

@[simp]
theorem length_slots_putField (position : Nat) (value : V) :
    (message.putField position value).slots.length = message.slots.length := by
  rw [putField, length_slots_clearSiblings, putSlot, List.length_set]

/-- A field that is set holds its value, its siblings hold nothing, and other fields hold what they
held. -/
theorem slot?_putField {position : Nat} (inside : position < message.slots.length) (value : V)
    (other : Nat) :
    (message.putField position value).slot? other =
      if other = position then some value
      else if message.type.areSiblings position other then none
      else message.slot? other := by
  rw [putField, slot?_clearSiblings, slot?_putSlot]
  have type : (message.putSlot position (some value)).type = message.type := rfl
  rw [type]
  -- a field is no sibling of itself, so its value is not unset again
  by_cases same : other = position
  · subst same
    rw [MessageType.areSiblings_self]
    simp [inside]
  · simp [same]

/-- Setting a field twice is setting it to the later value. -/
theorem putField_putField (position : Nat) (value later : V) :
    (message.putField position value).putField position later =
      message.putField position later := by
  have slots : ((message.putField position value).putField position later).slots =
      (message.putField position later).slots := by
    simp only [putField, slots_clearSiblings, type_clearSiblings, putSlot]
    -- what was unset the first time is unset the second time
    apply List.ext_getElem?
    intro other
    simp only [List.getElem?_mapIdx, List.getElem?_set, List.length_mapIdx, List.length_set]
    by_cases same : position = other
    · simp [same]
    · cases message.slots[other]? with
      | none => simp [same]
      | some slot => by_cases sibling : message.type.areSiblings position other <;>
          simp [same, sibling]
  exact congr_slots slots (by simp) (by simp) (by simp) (by simp)

/-! ## Attaching -/

/-- A message that carries an extension has a place for extensions. -/
theorem isSome_extensions_of_mem {entry : AttachedOf V} (mem : entry ∈ message.attached) :
    message.extensions.isSome = true := by
  rw [attached] at mem
  cases place : message.extensions with
  | none => simp [place] at mem
  | some => rfl

/-- An extension takes the place of the one that had its number, and comes last. -/
theorem attached_attach (entry : AttachedOf V) (place : message.extensions.isSome = true) :
    (message.attach entry).attached =
      message.attached.filter (fun other => other.type.number != entry.type.number) ++ [entry] := by
  obtain ⟨entries, eq⟩ := Option.isSome_iff_exists.1 place
  simp [attached, attach, eq]

/-- What is attached is found under its number, and nothing else changes. -/
theorem extension?_attach (entry : AttachedOf V) (place : message.extensions.isSome = true)
    (number : Nat) :
    (message.attach entry).extension? number =
      if number = entry.type.number then some entry else message.extension? number := by
  rw [extension?, attached_attach message entry place, List.find?_append]
  by_cases same : number = entry.type.number
  -- the entry that had the number is gone
  · have others : (message.attached.filter fun other =>
        other.type.number != entry.type.number).find? (·.type.number == number) = none := by
      rw [List.find?_eq_none]
      intro other mem
      simpa [same] using (List.mem_filter.1 mem).2
    rw [others, if_pos same, Option.none_or, List.find?_cons_of_pos (by simp [same])]
  -- entries of other numbers are found as before
  · have others : (message.attached.filter fun other =>
        other.type.number != entry.type.number).find? (·.type.number == number) =
        message.extension? number := by
      rw [List.find?_filter, extension?]
      congr 1
      funext other
      by_cases here : other.type.number = number <;> simp [here, same]
    rw [others, if_neg same, List.find?_cons_of_neg (by simpa using Ne.symm same),
      List.find?_nil, Option.or_none]

/-- What bore the number of an extension before it was attached is gone. -/
theorem nodup_attach (distinct : (message.attached.map (·.type.number)).Nodup)
    (entry : AttachedOf V) : ((message.attach entry).attached.map (·.type.number)).Nodup := by
  cases place : message.extensions with
  | none => simp [attached, attach, place]
  | some entries =>
      rw [attached_attach message entry (by simp [place]), List.map_append, List.map_singleton]
      refine List.nodup_append.2 ⟨?_, by simp, ?_⟩
      · exact distinct.sublist (List.filter_sublist.map _)
      · intro number before number' here
        obtain ⟨other, listed, rfl⟩ := List.mem_map.1 before
        rw [List.mem_singleton] at here
        simpa [here] using (List.mem_filter.1 listed).2

/-- Detaching an extension leaves the others with their numbers. -/
theorem nodup_withoutExtension (distinct : (message.attached.map (·.type.number)).Nodup)
    (number : Nat) : ((message.withoutExtension number).attached.map (·.type.number)).Nodup := by
  have fewer : (message.withoutExtension number).attached.Sublist message.attached := by
    cases place : message.extensions <;> simp [attached, withoutExtension, place]
  exact distinct.sublist (fewer.map _)

/-- Where no number is attached twice, an extension is found under its own number. -/
theorem extension?_eq_some_iff (distinct : (message.attached.map (·.type.number)).Nodup)
    {number : Nat} {entry : AttachedOf V} :
    message.extension? number = some entry ↔
      entry ∈ message.attached ∧ entry.type.number = number :=
  find?_key_eq_some_iff distinct

/-- Of two extensions with one number the later one stays. -/
theorem attach_attach {entry later : AttachedOf V}
    (same : later.type.number = entry.type.number) :
    (message.attach entry).attach later = message.attach later := by
  simp only [attach, Option.map_map]
  congr 1
  -- the entry attached first has the number of the later one and goes away with it
  cases message.extensions with
  | none => rfl
  | some entries => simp [same]

end

end MessageOf

end ProtoWire
