import Mathlib.Data.List.Basic
import ProtoWire.Message.Access
import ProtoWire.Proofs.Order

/-!
# Messages as trees

The messages directly inside a message are its children: those that its slots and extensions
hold, alone or in lists. They are of smaller height, which gives induction over messages
(`MessageOf.induction`). `MessageOf.uncached` forgets every size cache of the tree; messages
that agree up to it differ in nothing that is ever written.
-/

set_option autoImplicit false

namespace ProtoWire

/-- Lists may hold lists; all other values have no values directly inside them. -/
theorem Value.induction {P : Value → Prop}
    (list : ∀ items, (∀ item ∈ items, P item) → P (.list items))
    (other : ∀ value, (∀ items, value ≠ .list items) → P value) (value : Value) : P value := by
  -- structural recursion does not see through the list, the size does
  have key : ∀ n, ∀ value : Value, sizeOf value ≤ n → P value := by
    intro n
    induction n with
    | zero => intro value bound; cases value <;> simp at bound
    | succ n ih =>
        intro value bound
        cases value with
        | list items =>
            refine list items fun item mem => ih item ?_
            have := List.sizeOf_lt_of_mem mem
            simp only [Value.list.sizeOf_spec] at bound
            omega
        | _ => exact other _ (by simp)
  exact key _ value (Nat.le_refl _)

/-! ## Messages in values -/

mutual

/-- The messages in a value, alone or in lists, but not those inside messages. -/
def Value.messages : Value → List Message
  | .message message => [message]
  | .list items => itemsMessages items
  | _ => []

def itemsMessages : List Value → List Message
  | [] => []
  | item :: items => item.messages ++ itemsMessages items

end

@[simp]
theorem Value.messages_message (message : Message) :
    (Value.message message).messages = [message] := by
  simp [messages]

@[simp]
theorem Value.messages_list (items : List Value) :
    (Value.list items).messages = items.flatMap Value.messages := by
  have all : itemsMessages items = items.flatMap Value.messages := by
    induction items with
    | nil => rfl
    | cons item items ih => rw [itemsMessages, ih, List.flatMap_cons]
  rw [messages, all]

/-- The messages of an item are messages of its list. -/
theorem Value.mem_messages_of_mem_items {value item : Value} {inner : Message}
    (mem : item ∈ value.items) (inside : inner ∈ item.messages) : inner ∈ value.messages := by
  cases value with
  | list items =>
      rw [messages_list]
      exact List.mem_flatMap.2 ⟨item, mem, inside⟩
  | _ => simp [items] at mem

namespace MessageOf

/-- The values that a message holds. -/
def values {V : Type} (message : MessageOf V) : List V :=
  message.slots.filterMap id ++ message.attached.map (·.value)

/-- The messages directly inside a message. -/
def children (message : Message) : List Message :=
  message.values.flatMap Value.messages

theorem mem_values_of_mem_slots {V : Type} {message : MessageOf V} {value : V}
    (h : some value ∈ message.slots) : value ∈ message.values :=
  List.mem_append_left _ (List.mem_filterMap.2 ⟨some value, h, rfl⟩)

/-- What a slot holds is among the values of the message. -/
theorem mem_values_of_slot? {V : Type} {message : MessageOf V} {position : Nat} {value : V}
    (h : message.slot? position = some value) : value ∈ message.values := by
  rw [slot?, Option.join_eq_some_iff] at h
  exact mem_values_of_mem_slots (List.mem_of_getElem? h)

/-- And so is what an extension holds. -/
theorem mem_values_of_attached {V : Type} {message : MessageOf V} {entry : AttachedOf V}
    (h : entry ∈ message.attached) : entry.value ∈ message.values :=
  List.mem_append_right _ (List.mem_map_of_mem h)

/-- A message holds the values of its slots and those of its extensions. -/
theorem mem_values_iff {V : Type} {message : MessageOf V} {value : V} :
    value ∈ message.values ↔
      (∃ position, message.slot? position = some value) ∨
        ∃ entry ∈ message.attached, entry.value = value := by
  constructor
  · intro h
    -- values of slots come first, those of extensions behind them
    rcases List.mem_append.1 h with held | attached
    · obtain ⟨slot, mem, eq⟩ := List.mem_filterMap.1 held
      obtain ⟨position, found⟩ := List.mem_iff_getElem?.1 mem
      left
      refine ⟨position, ?_⟩
      rw [slot?, found]
      exact eq
    · exact .inr (List.mem_map.1 attached)
  · rintro (⟨position, held⟩ | ⟨entry, mem, rfl⟩)
    · exact mem_values_of_slot? held
    · exact mem_values_of_attached mem

/-- Ordering the extensions by number neither adds nor loses one. -/
theorem perm_attachedByNumber {V : Type} (message : MessageOf V) :
    message.attachedByNumber.Perm message.attached :=
  perm_sortBy _ _

/-- Putting the extensions in order loses none of them. -/
@[simp]
theorem mem_attachedByNumber {V : Type} {message : MessageOf V} {entry : AttachedOf V} :
    entry ∈ message.attachedByNumber ↔ entry ∈ message.attached :=
  message.perm_attachedByNumber.mem_iff

/-- The messages of a value that is held are children. -/
theorem mem_children_of_mem {message inner : Message} {value : Value}
    (held : value ∈ message.values) (inside : inner ∈ value.messages) :
    inner ∈ message.children :=
  List.mem_flatMap.2 ⟨value, held, inside⟩

/-- In particular those of a field, -/
theorem mem_children_of_slot? {message inner : Message} {position : Nat} {value : Value}
    (held : message.slot? position = some value) (inside : inner ∈ value.messages) :
    inner ∈ message.children :=
  mem_children_of_mem (mem_values_of_slot? held) inside

/-- and those of an extension. -/
theorem mem_children_of_attached {message inner : Message} {entry : Attached}
    (mem : entry ∈ message.attached) (inside : inner ∈ entry.value.messages) :
    inner ∈ message.children :=
  mem_children_of_mem (mem_values_of_attached mem) inside

end MessageOf

/-! ## Heights -/

/-- An item is no higher than its list. -/
theorem height_le_itemsHeight {items : List Value} {item : Value} (h : item ∈ items) :
    item.height ≤ itemsHeight items := by
  induction items with
  | nil => simp at h
  | cons first items ih =>
      rw [itemsHeight]
      rcases List.mem_cons.1 h with rfl | mem
      · exact Nat.le_max_left _ _
      · exact Nat.le_trans (ih mem) (Nat.le_max_right _ _)

/-- A value of a slot is no higher than the slots. -/
theorem height_le_slotsHeight {slots : List (Option Value)} {value : Value}
    (h : some value ∈ slots) : value.height ≤ slotsHeight slots := by
  induction slots with
  | nil => simp at h
  | cons first slots ih =>
      rw [slotsHeight]
      rcases List.mem_cons.1 h with rfl | mem
      · exact Nat.le_max_left _ _
      · exact Nat.le_trans (ih mem) (Nat.le_max_right _ _)

theorem entryHeight_eq (entry : Attached) : entryHeight entry = entry.value.height := by
  cases entry
  rw [entryHeight]

/-- A value of an extension is no higher than the extensions. -/
theorem height_le_attachedHeight {entries : List Attached} {entry : Attached}
    (h : entry ∈ entries) : entry.value.height ≤ attachedHeight entries := by
  induction entries with
  | nil => simp at h
  | cons first entries ih =>
      rw [attachedHeight, entryHeight_eq]
      rcases List.mem_cons.1 h with rfl | mem
      · exact Nat.le_max_left _ _
      · exact Nat.le_trans (ih mem) (Nat.le_max_right _ _)

/-- The height of a message is that of its slots or that of its extensions. -/
theorem MessageOf.height_eq (message : Message) :
    message.height = max (slotsHeight message.slots) (extensionsHeight message.extensions) := by
  cases message
  rw [height, messageHeight]

/-- A value that a message holds is no higher than the message. -/
theorem MessageOf.height_value_le {message : Message} {value : Value}
    (h : value ∈ message.values) : value.height ≤ message.height := by
  rw [height_eq]
  -- the height is the larger of that of the slots and that of the extensions
  rcases List.mem_append.1 h with held | attached
  · obtain ⟨slot, mem, eq⟩ := List.mem_filterMap.1 held
    obtain rfl : slot = some value := eq
    exact Nat.le_trans (height_le_slotsHeight mem) (Nat.le_max_left _ _)
  · obtain ⟨entry, mem, rfl⟩ := List.mem_map.1 attached
    refine Nat.le_trans ?_ (Nat.le_max_right _ _)
    cases entries : message.extensions with
    | none => simp [MessageOf.attached, entries] at mem
    | some all =>
        rw [MessageOf.attached, entries] at mem
        exact height_le_attachedHeight mem

/-- The messages of a value lie lower than the value. -/
theorem Value.height_lt_of_mem {value : Value} {inner : Message} (h : inner ∈ value.messages) :
    inner.height < value.height := by
  induction value using Value.induction with
  | list items ih =>
      rw [messages_list] at h
      obtain ⟨item, inside, deep⟩ := List.mem_flatMap.1 h
      have lower := ih item inside deep
      have := height_le_itemsHeight inside
      rw [Value.height]
      omega
  | other value single =>
      cases value with
      | message message =>
          rw [messages_message, List.mem_singleton] at h
          rw [h, Value.height]
          exact Nat.lt_succ_self _
      | list items => exact absurd rfl (single items)
      | _ => simp [messages] at h

namespace MessageOf

/-- The messages inside a message lie lower, so that recursion into them ends. -/
theorem height_lt_of_mem {message inner : Message} (h : inner ∈ message.children) :
    inner.height < message.height := by
  obtain ⟨value, held, inside⟩ := List.mem_flatMap.1 h
  exact Nat.lt_of_lt_of_le (Value.height_lt_of_mem inside) (height_value_le held)

/-- What holds of a message once it holds of its children holds of all messages. -/
theorem induction {P : Message → Prop}
    (step : ∀ message : Message, (∀ inner ∈ message.children, P inner) → P message)
    (message : Message) : P message := by
  -- induction on a bound of the height
  have key : ∀ n, ∀ message : Message, message.height ≤ n → P message := by
    intro n
    induction n with
    | zero =>
        intro message bound
        apply step message
        intro inner mem
        have := height_lt_of_mem mem
        omega
    | succ n ih =>
        intro message bound
        refine step message fun inner mem => ih inner ?_
        have := height_lt_of_mem mem
        omega
  exact key _ message (Nat.le_refl _)

end MessageOf

/-! ## Forgetting the size caches -/

mutual

/-- The value with the size caches of all messages in it emptied. -/
def Value.uncached : Value → Value
  | .message message => .message (messageUncached message)
  | .list items => .list (itemsUncached items)
  | .bool value => .bool value
  | .int32 value => .int32 value
  | .int64 value => .int64 value
  | .uint32 value => .uint32 value
  | .uint64 value => .uint64 value
  | .single bits => .single bits
  | .double bits => .double bits
  | .enum value => .enum value
  | .string text => .string text
  | .bytes bytes => .bytes bytes

def messageUncached : MessageOf Value → MessageOf Value
  | ⟨type, slots, cache, unknown, extensions⟩ =>
      ⟨type, slotsUncached slots, cache.clear, unknown, extensionsUncached extensions⟩

def itemsUncached : List Value → List Value
  | [] => []
  | item :: items => item.uncached :: itemsUncached items

def slotsUncached : List (Option Value) → List (Option Value)
  | [] => []
  | slot :: slots => slotUncached slot :: slotsUncached slots

def slotUncached : Option Value → Option Value
  | none => none
  | some value => some value.uncached

def extensionsUncached : Option (List (AttachedOf Value)) → Option (List (AttachedOf Value))
  | none => none
  | some entries => some (attachedUncached entries)

def attachedUncached : List (AttachedOf Value) → List (AttachedOf Value)
  | [] => []
  | entry :: entries => entryUncached entry :: attachedUncached entries

def entryUncached : AttachedOf Value → AttachedOf Value
  | ⟨type, value⟩ => ⟨type, value.uncached⟩

end

/-- The message with its size cache and those of all messages in it emptied. -/
def MessageOf.uncached (message : Message) : Message :=
  messageUncached message

theorem itemsUncached_eq (items : List Value) : itemsUncached items = items.map Value.uncached := by
  induction items with
  | nil => rfl
  | cons item items ih => rw [itemsUncached, ih, List.map_cons]

theorem slotsUncached_eq (slots : List (Option Value)) :
    slotsUncached slots = slots.map (·.map Value.uncached) := by
  induction slots with
  | nil => rfl
  | cons slot slots ih =>
      rw [slotsUncached, ih, List.map_cons]
      cases slot <;> rfl

/-- The extension with the size caches of all messages in it emptied. -/
def AttachedOf.uncached (entry : Attached) : Attached :=
  ⟨entry.type, entry.value.uncached⟩

theorem attachedUncached_eq (entries : List Attached) :
    attachedUncached entries = entries.map AttachedOf.uncached := by
  induction entries with
  | nil => rfl
  | cons entry entries ih =>
      rw [attachedUncached, ih, List.map_cons]
      cases entry
      rfl

@[simp]
theorem Value.uncached_message (message : Message) :
    (Value.message message).uncached = .message message.uncached := by
  rw [uncached, MessageOf.uncached]

/-- A list is cleared item by item. -/
@[simp]
theorem Value.uncached_list (items : List Value) :
    (Value.list items).uncached = .list (items.map Value.uncached) := by
  rw [uncached, itemsUncached_eq]

namespace MessageOf

/-- Forgetting the caches part by part. -/
theorem uncached_eq (message : Message) :
    message.uncached =
      { message with
        slots := message.slots.map (·.map Value.uncached)
        cache := message.cache.clear
        extensions := message.extensions.map (·.map AttachedOf.uncached) } := by
  obtain ⟨type, slots, cache, unknown, extensions⟩ := message
  simp only [uncached, messageUncached, slotsUncached_eq]
  cases extensions with
  | none => rfl
  | some entries => simp only [extensionsUncached, attachedUncached_eq, Option.map_some]

section

variable (message : Message)

@[simp]
theorem type_uncached : message.uncached.type = message.type := by
  rw [uncached_eq]

@[simp]
theorem unknown_uncached : message.uncached.unknown = message.unknown := by
  rw [uncached_eq]

@[simp]
theorem slots_uncached : message.uncached.slots = message.slots.map (·.map Value.uncached) := by
  rw [uncached_eq]

/-- A message without caches keeps no size. -/
@[simp]
theorem cache_uncached : message.uncached.cache = message.cache.clear := by
  rw [uncached_eq]

@[simp]
theorem extensions_uncached :
    message.uncached.extensions = message.extensions.map (·.map AttachedOf.uncached) := by
  rw [uncached_eq]

/-- Clearing caches clears those in each slot. -/
@[simp]
theorem slot?_uncached (position : Nat) :
    message.uncached.slot? position = (message.slot? position).map Value.uncached := by
  simp only [slot?, slots_uncached, List.getElem?_map]
  cases message.slots[position]? <;> rfl

/-- And those in each extension, whose types stay. -/
@[simp]
theorem attached_uncached :
    message.uncached.attached = message.attached.map AttachedOf.uncached := by
  simp only [attached, extensions_uncached]
  cases message.extensions <;> rfl

/-- The order of extensions does not depend on caches. -/
theorem attachedByNumber_uncached :
    message.uncached.attachedByNumber = message.attachedByNumber.map AttachedOf.uncached := by
  rw [attachedByNumber, attachedByNumber, attached_uncached, sortBy_map]
  rfl

/-- A value may be put before or after caches are cleared. -/
theorem putSlot_uncached (position : Nat) (slot : Option Value) :
    (message.putSlot position slot).uncached =
      message.uncached.putSlot position (slot.map Value.uncached) := by
  simp only [uncached_eq, putSlot, List.map_set]

end

end MessageOf

mutual

/-- Heights do not depend on caches, by induction over the tree. -/
@[simp]
theorem Value.height_uncached : ∀ value : Value, value.uncached.height = value.height
  | .message message => by
      rw [Value.uncached, Value.height, Value.height, messageHeight_uncached message]
  | .list items => by
      rw [Value.uncached, Value.height, Value.height, itemsHeight_uncached items]
  | .bool _ | .int32 _ | .int64 _ | .uint32 _ | .uint64 _ | .single _ | .double _ | .enum _
  | .string _ | .bytes _ => rfl

theorem messageHeight_uncached : ∀ message : MessageOf Value,
    messageHeight (messageUncached message) = messageHeight message
  | ⟨_, slots, _, _, extensions⟩ => by
      rw [messageUncached, messageHeight, messageHeight, slotsHeight_uncached slots,
        extensionsHeight_uncached extensions]

theorem itemsHeight_uncached : ∀ items : List Value,
    itemsHeight (itemsUncached items) = itemsHeight items
  | [] => rfl
  | item :: items => by
      rw [itemsUncached, itemsHeight, itemsHeight, Value.height_uncached item,
        itemsHeight_uncached items]

theorem slotsHeight_uncached : ∀ slots : List (Option Value),
    slotsHeight (slotsUncached slots) = slotsHeight slots
  | [] => rfl
  | slot :: slots => by
      rw [slotsUncached, slotsHeight, slotsHeight, slotHeight_uncached slot,
        slotsHeight_uncached slots]

theorem slotHeight_uncached : ∀ slot : Option Value,
    slotHeight (slotUncached slot) = slotHeight slot
  | none => rfl
  | some value => by
      rw [slotUncached, slotHeight, slotHeight, Value.height_uncached value]

theorem extensionsHeight_uncached : ∀ extensions : Option (List (AttachedOf Value)),
    extensionsHeight (extensionsUncached extensions) = extensionsHeight extensions
  | none => rfl
  | some entries => by
      rw [extensionsUncached, extensionsHeight, extensionsHeight, attachedHeight_uncached entries]

theorem attachedHeight_uncached : ∀ entries : List (AttachedOf Value),
    attachedHeight (attachedUncached entries) = attachedHeight entries
  | [] => rfl
  | entry :: entries => by
      rw [attachedUncached, attachedHeight, attachedHeight, entryHeight_uncached entry,
        attachedHeight_uncached entries]

theorem entryHeight_uncached : ∀ entry : AttachedOf Value,
    entryHeight (entryUncached entry) = entryHeight entry
  | ⟨_, value⟩ => by
      rw [entryUncached, entryHeight, entryHeight, Value.height_uncached value]

end

/-- So how deep coding goes does not, either. -/
@[simp]
theorem MessageOf.height_uncached (message : Message) :
    message.uncached.height = message.height := by
  rw [uncached, height, height, messageHeight_uncached]

theorem Value.messages_uncached (value : Value) :
    value.uncached.messages = value.messages.map MessageOf.uncached := by
  -- only messages and lists hold messages
  induction value using Value.induction with
  | list items ih =>
      rw [uncached_list, messages_list, messages_list, List.flatMap_map, List.map_flatMap]
      exact List.flatMap_congr ih
  | other value single =>
      cases value with
      | message message => simp
      | list items => exact absurd rfl (single items)
      | _ => rfl

namespace MessageOf

theorem values_uncached (message : Message) :
    message.uncached.values = message.values.map Value.uncached := by
  simp only [values, slots_uncached, attached_uncached, List.map_append, List.filterMap_map,
    List.map_filterMap, List.map_map]
  congr 1

/-- The messages inside a message without caches are those inside it, without theirs. -/
theorem children_uncached (message : Message) :
    message.uncached.children = message.children.map uncached := by
  simp only [children, values_uncached, List.flatMap_map, List.map_flatMap,
    Value.messages_uncached]

end MessageOf

/-- Messages that differ in caches only are equally high. -/
theorem MessageOf.height_congr {a b : Message} (h : a.uncached = b.uncached) :
    a.height = b.height := by
  rw [← height_uncached a, h, height_uncached]

end ProtoWire
