import ProtoWire.Proofs.Message.Sizing
import ProtoWire.Proofs.Message.Throughout

/-!
# What sizing adds up

The tally of a message is the sum that sizing comes to if it trusts no cache, also where the
message cannot be encoded and has no wire form. It is computed from the message without its
caches (`tally_uncached`). Sizing returns the tally, with caches that keep tallies or without
caches, and leaves caches that keep tallies (`ensures_size_tally`).
-/

set_option autoImplicit false

namespace ProtoWire

/-! ## Tallies -/

/-- Some tallies added up. -/
def total : List Nat → Nat
  | [] => 0
  | size :: sizes => size + total sizes

namespace FieldCodec

/-- The tally of one value of a message or group field, given those of messages. -/
def tallyNested (size : Message → Nat) (codec : FieldCodec) (value : Value) : Nat :=
  match codec.instance? value with
  | none => 0
  | some inner =>
      if codec.kind = .group then 2 * codec.tagSize + size inner
      else codec.tagSize + Varint.size (size inner) + size inner

/-- The tally of a field's value, tags included. -/
def tally (size : Message → Nat) (codec : FieldCodec) (value : Value) : Nat :=
  if !codec.kind.isMessage then codec.scalarSize value
  else if codec.arrangement.isRepeated then total (value.items.map (codec.tallyNested size))
  else codec.tallyNested size value

end FieldCodec

namespace MessageOf

/-- The tally of an item of a message set. -/
def tallyItem (size : Message → Nat) (entry : Attached) : Nat :=
  match itemMessage entry with
  | .error _ => 0
  | .ok inner =>
      itemTags + Varint.size entry.type.number + Varint.size (size inner) + size inner

/-- The tally of an extension of a message of type `owner`. -/
def tallyAttached (size : Message → Nat) (catalog : Catalog) (owner : MessageType)
    (entry : Attached) : Nat :=
  (catalog.codec owner entry.type).tally size entry.value

/-- The tally of what a message holds in the field of an entry. -/
def tallySlot (size : Message → Nat) (message : Message) (entry : FieldEntry) : Nat :=
  (message.slot? entry.position).elim 0 (entry.codec.tally size)

/-- The tally of a message that has a table. -/
def tallyBody (size : Message → Nat) (catalog : Catalog) (table : FieldTable)
    (message : Message) : Nat :=
  if table.isMessageSet then
    total (message.attached.map (tallyItem size)) + (message.unknown.getD []).length
  else
    total (message.attached.map (tallyAttached size catalog message.type)) +
      total (table.writingOrder.map (message.tallySlot size)) + (message.unknown.getD []).length

/-- The tally of a message, given those of the messages inside it. -/
def tallyInner (size : Message → Nat) (catalog : Catalog) (message : Message) : Nat :=
  match catalog.table message.type with
  | .error _ => 0
  | .ok table => message.tallyBody size catalog table

/-- The tally of a message in which messages nest this deeply. -/
def tallyAt (catalog : Catalog) : Nat → Message → Nat
  | 0, message => message.tallyInner (fun _ => 0) catalog
  | depth + 1, message => message.tallyInner (tallyAt catalog depth) catalog

/-- The tally of a message. -/
def tally (catalog : Catalog) (message : Message) : Nat :=
  message.tallyAt catalog message.height

end MessageOf

/-! ## Tallies without caches -/

namespace FieldCodec

variable {codec : FieldCodec} {size size' : Message → Nat}

theorem instance?_uncached (codec : FieldCodec) (value : Value) :
    codec.instance? value.uncached = (codec.instance? value).map MessageOf.uncached := by
  cases value with
  | message inner =>
      simp only [Value.uncached_message, instance?, MessageOf.type_uncached]
      split <;> rfl
  | list items => rw [Value.uncached_list]; rfl
  | _ => rfl

end FieldCodec

theorem Value.items_uncached (value : Value) :
    value.uncached.items = value.items.map Value.uncached := by
  cases value with
  | message inner => rw [uncached_message]; rfl
  | list items => rw [uncached_list]; rfl
  | _ => rfl

namespace FieldCodec

variable {codec : FieldCodec} {size size' : Message → Nat}

theorem recordsSize_uncached (codec : FieldCodec) (items : List Value) :
    codec.recordsSize (items.map Value.uncached) = codec.recordsSize items := by
  induction items with
  | nil => rfl
  | cons item items ih =>
      simp only [List.map_cons, recordsSize, recordSize, Kind.payload?_uncached, ih]

/-- Scalars have no caches. -/
theorem scalarSize_uncached (codec : FieldCodec) (value : Value) :
    codec.scalarSize value.uncached = codec.scalarSize value := by
  simp only [scalarSize, recordSize, Kind.payload?_uncached, Value.items_uncached,
    recordsSize_uncached]
  -- only the packed form looks at how many items there are
  cases value.items with
  | nil => rfl
  | cons item items =>
      have same := codec.payloads_map codec.kind.payload?_uncached 0 (item :: items)
      rw [List.map_cons] at same
      simp only [List.map_cons, same]

/-- A message in a value counts the same without caches, if messages do. -/
theorem tallyNested_uncached {value : Value}
    (same : ∀ inner ∈ value.messages, size inner = size' inner.uncached) :
    codec.tallyNested size value = codec.tallyNested size' value.uncached := by
  rw [tallyNested, tallyNested, instance?_uncached]
  cases held : codec.instance? value with
  | none => rfl
  | some inner =>
      have inside : inner ∈ value.messages := by
        rw [(eq_message_of_instance? held).1]
        simp
      simp only [Option.map_some, same inner inside]

/-- A value has the tally that it has without caches, given the same of the messages in it. -/
theorem tally_uncached {value : Value}
    (same : ∀ inner ∈ value.messages, size inner = size' inner.uncached) :
    codec.tally size value = codec.tally size' value.uncached := by
  have each : value.items.map (codec.tallyNested size) =
      value.uncached.items.map (codec.tallyNested size') := by
    rw [Value.items_uncached, List.map_map]
    apply List.map_congr_left
    intro item mem
    exact tallyNested_uncached fun inner inside =>
      same inner (Value.mem_messages_of_mem_items mem inside)
  rw [tally, tally, scalarSize_uncached, each, tallyNested_uncached same]

end FieldCodec

namespace MessageOf

variable {catalog : Catalog} {size size' : Message → Nat}

theorem itemMessage_uncached (entry : Attached) :
    itemMessage entry.uncached = (itemMessage entry).map uncached := by
  obtain ⟨type, value⟩ := entry
  cases value with
  | message inner =>
      simp only [AttachedOf.uncached, Value.uncached_message, itemMessage, type_uncached]
      split <;> rfl
  | list items => simp only [AttachedOf.uncached, Value.uncached_list]; rfl
  | _ => rfl

theorem tallyItem_uncached {entry : Attached}
    (same : ∀ inner ∈ entry.value.messages, size inner = size' inner.uncached) :
    tallyItem size entry = tallyItem size' entry.uncached := by
  rw [tallyItem, tallyItem, itemMessage_uncached]
  cases item : itemMessage entry with
  | error fault => rfl
  | ok inner =>
      have inside := mem_messages_of_itemMessage item
      simp only [Except.map, same inner inside]
      rfl

theorem tallySlot_uncached {message : Message} {entry : FieldEntry}
    (same : ∀ inner ∈ message.children, size inner = size' inner.uncached) :
    message.tallySlot size entry = message.uncached.tallySlot size' entry := by
  rw [tallySlot, tallySlot, slot?_uncached]
  cases held : message.slot? entry.position with
  | none => rfl
  | some value =>
      exact FieldCodec.tally_uncached fun inner inside =>
        same inner (mem_children_of_slot? held inside)

/-- The same of a message, given it of the messages inside. -/
theorem tallyInner_uncached {message : Message}
    (same : ∀ inner ∈ message.children, size inner = size' inner.uncached) :
    message.tallyInner size catalog = message.uncached.tallyInner size' catalog := by
  have attached : ∀ entry ∈ message.attached, ∀ inner ∈ entry.value.messages,
      size inner = size' inner.uncached :=
    fun entry mem inner inside =>
      same inner (mem_children_of_attached mem inside)
  have items : message.attached.map (tallyItem size) =
      message.uncached.attached.map (tallyItem size') := by
    rw [attached_uncached, List.map_map]
    exact List.map_congr_left fun entry mem => tallyItem_uncached (attached entry mem)
  have extensions : message.attached.map (tallyAttached size catalog message.type) =
      message.uncached.attached.map (tallyAttached size' catalog message.type) := by
    rw [attached_uncached, List.map_map]
    exact List.map_congr_left fun entry mem => FieldCodec.tally_uncached (attached entry mem)
  have slots : message.tallySlot size = message.uncached.tallySlot size' :=
    funext fun _ => tallySlot_uncached same
  simp only [tallyInner, tallyBody, type_uncached, unknown_uncached, items, extensions, slots]

/-- Any depth will do that is enough, and caches have no part in the tally. -/
theorem tallyAt_uncached {depth depth' : Nat} {message : Message}
    (bound : message.height ≤ depth) (bound' : message.height ≤ depth') :
    message.tallyAt catalog depth = message.uncached.tallyAt catalog depth' := by
  induction depth generalizing depth' message with
  | zero =>
      -- a message of height zero has no messages inside
      have childless : ∀ inner ∈ message.children, False := by
        intro inner mem
        have := height_lt_of_mem mem
        omega
      cases depth' <;>
        exact tallyInner_uncached fun inner mem => (childless inner mem).elim
  | succ depth ih =>
      cases depth' with
      | zero =>
          refine tallyInner_uncached fun inner mem => ?_
          have := height_lt_of_mem mem
          omega
      | succ depth' =>
          refine tallyInner_uncached fun inner mem => ?_
          have := height_lt_of_mem mem
          exact ih (by omega) (by omega)

theorem tally_uncached (catalog : Catalog) (message : Message) :
    message.uncached.tally catalog = message.tally catalog := by
  rw [tally, tally, height_uncached]
  exact (tallyAt_uncached (Nat.le_refl _) (Nat.le_refl _)).symm

/-- The tally does not depend on caches. -/
theorem tally_congr {a b : Message} (h : a.uncached = b.uncached) :
    a.tally catalog = b.tally catalog := by
  rw [← tally_uncached, h, tally_uncached]

/-- The tally of a message is made of the tallies of the messages inside it. -/
theorem tally_eq (catalog : Catalog) (message : Message) :
    message.tally catalog = message.tallyInner (tally catalog) catalog := by
  have whole : message.tally catalog = message.uncached.tallyInner (tally catalog) catalog := by
    rw [tally]
    cases height : message.height with
    | zero =>
        refine tallyInner_uncached fun inner mem => ?_
        have := height_lt_of_mem mem
        omega
    | succ depth =>
        refine tallyInner_uncached fun inner mem => ?_
        have := height_lt_of_mem mem
        rw [tally, height_uncached]
        exact tallyAt_uncached (by omega) (Nat.le_refl _)
  rw [whole]
  exact (tallyInner_uncached fun inner _ => (tally_uncached catalog inner).symm).symm

end MessageOf

/-! ## Caches that keep tallies -/

namespace MessageOf

/-- A size kept in the message is what sizing it anew returns. -/
def KeepsTally (catalog : Catalog) (message : Message) : Prop :=
  ∀ size, message.cache = .filled size →
    (catalog.table message.type).map (fun _ => message.tally catalog) = .ok size

/-- Each size kept in the message, or in a message inside it, is its tally. -/
def Tallied (catalog : Catalog) (message : Message) : Prop :=
  message.Throughout (KeepsTally catalog)

end MessageOf

/-- Each size kept in a message of the value is its tally. -/
def Value.Tallied (catalog : Catalog) (value : Value) : Prop :=
  value.Throughout (MessageOf.KeepsTally catalog)

/-- A value after coding it: it has changed in its caches only, and those still keep tallies if
they did before. -/
structure Value.Kept (catalog : Catalog) (value after : Value) : Prop where
  same : after.uncached = value.uncached
  tallied : value.Tallied catalog → after.Tallied catalog

/-- The same of a message. -/
structure MessageOf.Kept (catalog : Catalog) (message after : Message) : Prop where
  same : after.uncached = message.uncached
  tallied : message.Tallied catalog → after.Tallied catalog

/-- The same of the extensions of a message. -/
structure EntriesKept (catalog : Catalog) (entries after : List Attached) : Prop where
  same : after.map AttachedOf.uncached = entries.map AttachedOf.uncached
  tallied : (∀ entry ∈ entries, entry.value.Tallied catalog) →
    ∀ entry ∈ after, entry.value.Tallied catalog

section

variable {catalog : Catalog} {value value' : Value} {message after : Message}
  {entry : Attached} {entries rest : List Attached}

theorem Value.Kept.refl (catalog : Catalog) (value : Value) : value.Kept catalog value :=
  ⟨rfl, id⟩

theorem MessageOf.Kept.refl (catalog : Catalog) (message : Message) :
    message.Kept catalog message :=
  ⟨rfl, id⟩

theorem EntriesKept.refl (catalog : Catalog) (entries : List Attached) :
    EntriesKept catalog entries entries :=
  ⟨rfl, id⟩

/-- What was kept right by one step after the other is kept right. -/
theorem MessageOf.Kept.trans {last : Message} (first : message.Kept catalog after)
    (second : after.Kept catalog last) : message.Kept catalog last :=
  ⟨second.same.trans first.same, fun right => second.tallied (first.tallied right)⟩

theorem MessageOf.Kept.inValue (kept : message.Kept catalog after) :
    (Value.message message).Kept catalog (.message after) := by
  refine ⟨?_, ?_⟩
  · rw [Value.uncached_message, kept.same, Value.uncached_message]
  · intro right
    exact Value.throughout_message.2 (kept.tallied (Value.throughout_message.1 right))

/-- Lists are visited item by item. -/
theorem Value.Kept.cons_list {items items' : List Value} (head : value.Kept catalog value')
    (tail : (Value.list items).Kept catalog (.list items')) :
    (Value.list (value :: items)).Kept catalog (.list (value' :: items')) := by
  have same := tail.same
  simp only [Value.uncached_list, Value.list.injEq] at same
  refine ⟨?_, ?_⟩
  · simp only [Value.uncached_list, List.map_cons, head.same, same]
  · intro right
    have each := Value.throughout_list.1 right
    have rest := Value.throughout_list.1 (tail.tallied (Value.throughout_list.2
      fun item mem => each item (List.mem_cons_of_mem _ mem)))
    refine Value.throughout_list.2 fun item mem => ?_
    rcases List.mem_cons.1 mem with rfl | mem
    · exact head.tallied (each value List.mem_cons_self)
    · exact rest item mem

/-- And extensions one by one. -/
theorem EntriesKept.cons (head : entry.value.Kept catalog value)
    (tail : EntriesKept catalog entries rest) :
    EntriesKept catalog (entry :: entries) (⟨entry.type, value⟩ :: rest) := by
  refine ⟨?_, ?_⟩
  · exact congrArg₂ List.cons (congrArg (AttachedOf.mk entry.type) head.same) tail.same
  · intro right other mem
    rcases List.mem_cons.1 mem with rfl | mem
    · exact head.tallied (right entry List.mem_cons_self)
    · exact tail.tallied (fun entry mem => right entry (List.mem_cons_of_mem _ mem)) other mem

end

/-- The sizer returns the tally of the message. -/
def MessageOf.Tallies (store : Store) (measure : Message → Coding (Message × Nat))
    (message : Message) : Prop :=
  Coding.Ensures store (measure message) fun sized =>
    message.Kept store.catalog sized.1 ∧ sized.2 = message.tally store.catalog

/-! ## Sizing -/

namespace FieldCodec

open Coding

variable {store : Store} {measure : Message → Coding (Message × Nat)} {codec : FieldCodec}

/-- Sizing a message in a value gives its tally with the prefix or the tags around it, and leaves it
in caches. -/
theorem ensures_nestedSize_tally {value : Value}
    (tallies : ∀ inner ∈ value.messages, inner.Tallies store measure) :
    Ensures store (codec.nestedSize measure value) fun sized =>
      value.Kept store.catalog sized.1 ∧
        sized.2 = codec.tallyNested (MessageOf.tally store.catalog) value := by
  rw [nestedSize, tallyNested]
  cases held : codec.instance? value with
  | none => exact ensures_pure ⟨.refl _ _, rfl⟩
  | some inner =>
      obtain ⟨rfl, -⟩ := eq_message_of_instance? held
      apply (tallies inner (by simp)).bind
      rintro ⟨sized, body⟩ ⟨kept, size⟩
      simp only at size ⊢
      subst size
      split <;> exact ensures_pure ⟨kept.inValue, rfl⟩

/-- The same item by item. -/
theorem ensures_sizeEach_tally {items : List Value}
    (tallies : ∀ item ∈ items, ∀ inner ∈ item.messages, inner.Tallies store measure) :
    Ensures store (sizeEach (codec.nestedSize measure) items) fun sized =>
      (Value.list items).Kept store.catalog (.list sized.1) ∧
        sized.2 = total (items.map (codec.tallyNested (MessageOf.tally store.catalog))) := by
  induction items with
  | nil => exact ensures_pure ⟨.refl _ _, rfl⟩
  | cons item items ih =>
      rw [sizeEach]
      apply (ensures_nestedSize_tally (tallies item List.mem_cons_self)).bind
      rintro ⟨value, first⟩ ⟨kept, size⟩
      apply (ih fun other mem => tallies other (List.mem_cons_of_mem _ mem)).bind
      rintro ⟨values, rest⟩ ⟨kept', size'⟩
      refine ensures_pure ⟨kept.cons_list kept', ?_⟩
      rw [List.map_cons, total]
      exact congrArg₂ (· + ·) size size'

/-- Sizing a field's value returns its tally. -/
theorem ensures_size_tally {value : Value}
    (tallies : ∀ inner ∈ value.messages, inner.Tallies store measure) :
    Ensures store (codec.size measure value) fun sized =>
      value.Kept store.catalog sized.1 ∧
        sized.2 = codec.tally (MessageOf.tally store.catalog) value := by
  cases nested : codec.kind.isMessage with
  | false =>
      simp only [size, tally, nested, Bool.not_false, if_true]
      exact ensures_pure ⟨.refl _ _, rfl⟩
  | true =>
      cases repeated : codec.arrangement.isRepeated with
      | false =>
          simp only [size, tally, nested, repeated, Bool.not_true, Bool.false_eq_true, if_false]
          exact ensures_nestedSize_tally tallies
      | true =>
          simp only [size, tally, nested, repeated, Bool.not_true, Bool.false_eq_true, if_false,
            if_true]
          cases value with
          | list items =>
              have inside : ∀ item ∈ items, ∀ inner ∈ item.messages,
                  inner.Tallies store measure :=
                fun item mem inner h => tallies inner (Value.mem_messages_of_mem_items mem h)
              apply (ensures_sizeEach_tally inside).bind
              rintro ⟨sized, total⟩ ⟨kept, size⟩
              exact ensures_pure ⟨kept, size⟩
          -- what is no list has no items
          | _ => exact ensures_pure ⟨.refl _ _, rfl⟩

end FieldCodec

namespace MessageOf

open Coding

variable {store : Store} {measure : Message → Coding (Message × Nat)}

/-! ### Extensions and items -/

/-- The same of extensions, each by the codec in the catalog. -/
theorem ensures_sizeAttached_tally (sound : store.Sound) {owner : MessageType}
    (held : store.Holds owner) {entries : List Attached}
    (declared : ∀ entry ∈ entries, store.Declares owner.registry entry.type)
    (tallies : ∀ entry ∈ entries, ∀ inner ∈ entry.value.messages, inner.Tallies store measure) :
    Ensures store (sizeAttached measure owner entries) fun sized =>
      EntriesKept store.catalog entries sized.1 ∧
        sized.2 =
          total (entries.map (tallyAttached (tally store.catalog) store.catalog owner)) := by
  induction entries with
  | nil => exact ensures_pure ⟨.refl _ _, rfl⟩
  | cons entry entries ih =>
      rw [sizeAttached, List.map_cons, total]
      apply (yields_extensionCodec sound held (declared entry List.mem_cons_self)).bind_ensures
      apply (FieldCodec.ensures_size_tally (tallies entry List.mem_cons_self)).bind
      rintro ⟨value, first⟩ ⟨kept, size⟩
      refine (ih (fun other mem => declared other (List.mem_cons_of_mem _ mem))
        fun other mem => tallies other (List.mem_cons_of_mem _ mem)).bind ?_
      rintro ⟨rest, others⟩ ⟨kept', size'⟩
      exact ensures_pure ⟨.cons kept kept', congrArg₂ (· + ·) size size'⟩

/-- And of the items of a message set. -/
theorem ensures_sizeItems_tally (sound : store.Sound) {owner : MessageType}
    (held : store.Holds owner) {entries : List Attached}
    (declared : ∀ entry ∈ entries, store.Declares owner.registry entry.type)
    (tallies : ∀ entry ∈ entries, ∀ inner ∈ entry.value.messages, inner.Tallies store measure) :
    Ensures store (sizeItems measure owner entries) fun sized =>
      EntriesKept store.catalog entries sized.1 ∧
        sized.2 = total (entries.map (tallyItem (tally store.catalog))) := by
  induction entries with
  | nil => exact ensures_pure ⟨.refl _ _, rfl⟩
  | cons entry entries ih =>
      have rest := ih (fun other mem => declared other (List.mem_cons_of_mem _ mem))
        fun other mem => tallies other (List.mem_cons_of_mem _ mem)
      rw [sizeItems, List.map_cons, total, tallyItem]
      apply (yields_extensionCodec sound held (declared entry List.mem_cons_self)).bind_ensures
      cases item : itemMessage entry with
      | error fault =>
          -- an extension without a message of its type counts for nothing
          apply rest.bind
          rintro ⟨rest, others⟩ ⟨kept, size⟩
          exact ensures_pure ⟨.cons (.refl _ _) kept, size.trans (Nat.zero_add _).symm⟩
      | ok inner =>
          have value := (itemMessage_eq_ok_iff.1 item).1
          have inside : inner.Tallies store measure :=
            tallies entry List.mem_cons_self inner (by simp [value])
          apply inside.bind
          rintro ⟨sized, body⟩ ⟨kept, size⟩
          apply rest.bind
          rintro ⟨rest, others⟩ ⟨kept', size'⟩
          simp only at size size'
          subst size size'
          exact ensures_pure ⟨.cons (by rw [value]; exact kept.inValue) kept', rfl⟩

/-! ### Fields -/

/-- The messages inside a message keep tallies. -/
def TalliedInside (catalog : Catalog) (message : Message) : Prop :=
  ∀ value ∈ message.values, value.Tallied catalog

theorem tallied_iff {catalog : Catalog} {message : Message} :
    message.Tallied catalog ↔ message.KeepsTally catalog ∧ message.TalliedInside catalog := by
  constructor
  · intro right
    exact ⟨right.here, fun value mem => right.of_mem_values mem⟩
  · rintro ⟨own, inside⟩
    refine .intro own fun inner mem => ?_
    obtain ⟨value, held, mem'⟩ := List.mem_flatMap.1 mem
    exact inside value held inner mem'

/-- A message after coding parts of its content: its own cache is as it was. -/
structure KeptInside (catalog : Catalog) (message after : Message) : Prop where
  same : after.uncached = message.uncached
  cache : after.cache = message.cache
  tallied : message.TalliedInside catalog → after.TalliedInside catalog

theorem KeptInside.refl (catalog : Catalog) (message : Message) :
    message.KeptInside catalog message :=
  ⟨rfl, rfl, id⟩

theorem KeptInside.trans {catalog : Catalog} {message after last : Message}
    (first : message.KeptInside catalog after) (second : after.KeptInside catalog last) :
    message.KeptInside catalog last :=
  ⟨second.same.trans first.same, second.cache.trans first.cache,
    fun right => second.tallied (first.tallied right)⟩

/-- What was kept before still is the tally. -/
theorem KeptInside.kept {catalog : Catalog} {message after : Message}
    (kept : message.KeptInside catalog after) : message.Kept catalog after := by
  have type : after.type = message.type := by
    rw [← type_uncached, kept.same, type_uncached]
  refine ⟨kept.same, fun right => tallied_iff.2 ⟨?_, kept.tallied (tallied_iff.1 right).2⟩⟩
  intro size filled
  rw [kept.cache] at filled
  rw [type, tally_congr kept.same]
  exact right.here size filled

/-- Putting back a value that was coded. -/
theorem keptInside_putSlot {catalog : Catalog} {message : Message} {position : Nat}
    {value value' : Value} (held : message.slot? position = some value)
    (kept : value.Kept catalog value') :
    message.KeptInside catalog (message.putSlot position (some value')) := by
  have before : message.uncached.slot? position = some value.uncached := by
    rw [slot?_uncached, held]
    rfl
  refine ⟨?_, rfl, ?_⟩
  · rw [putSlot_uncached, Option.map_some, kept.same, putSlot_slot? before]
  · intro right other mem
    rcases mem_values_putSlot mem with eq | mem
    · cases eq
      exact kept.tallied (right value (mem_values_of_slot? held))
    · exact right other mem

/-- Extensions that were coded stand in for those of before. -/
theorem keptInside_withAttached {catalog : Catalog} {message : Message} {entries : List Attached}
    (kept : EntriesKept catalog message.attached entries) :
    message.KeptInside catalog (message.withAttached entries) := by
  refine ⟨uncached_withAttached kept.same, rfl, ?_⟩
  intro right value mem
  rcases mem_values_iff.1 mem with ⟨position, held⟩ | ⟨entry, attached, rfl⟩
  · exact right value (mem_values_of_slot? held)
  · exact kept.tallied (fun entry mem => right _ (mem_values_of_attached mem)) entry
      (mem_of_mem_attached_withAttached attached)

theorem tallySlot_congr {catalog : Catalog} {a b : Message} (h : a.uncached = b.uncached) :
    a.tallySlot (tally catalog) = b.tallySlot (tally catalog) := by
  have blind : ∀ message : Message, message.tallySlot (tally catalog) =
      message.uncached.tallySlot (tally catalog) := by
    intro message
    funext entry
    exact tallySlot_uncached fun inner _ => (tally_uncached catalog inner).symm
  rw [blind a, h, blind b]

/-- And of fields, whose positions differ. -/
theorem ensures_sizeFields_tally {entries : List FieldEntry} {message : Message}
    (distinct : (entries.map (·.position)).Nodup)
    (tallies : ∀ entry ∈ entries, ∀ value, message.slot? entry.position = some value →
      ∀ inner ∈ value.messages, inner.Tallies store measure) :
    Ensures store (sizeFields measure entries message) fun sized =>
      message.KeptInside store.catalog sized.1 ∧
        sized.2 = total (entries.map (message.tallySlot (tally store.catalog))) := by
  induction entries generalizing message with
  | nil => exact ensures_pure ⟨.refl _ _, rfl⟩
  | cons entry entries ih =>
      rw [List.map_cons, List.nodup_cons] at distinct
      obtain ⟨apart, distinct⟩ := distinct
      rw [sizeFields, List.map_cons, total, tallySlot]
      cases held : message.slot? entry.position with
      | none =>
          have rest := ih distinct fun other mem => tallies other (List.mem_cons_of_mem _ mem)
          refine rest.mono fun sized h => ⟨h.1, ?_⟩
          rw [h.2, Option.elim_none, Nat.zero_add]
      | some value =>
          apply (FieldCodec.ensures_size_tally (tallies entry List.mem_cons_self value held)).bind
          rintro ⟨value', first⟩ ⟨kept, size⟩
          -- the other entries go on with a message that has changed in its caches only
          have put := keptInside_putSlot held kept
          have below : ∀ other ∈ entries, ∀ value'',
              (message.putSlot entry.position (some value')).slot? other.position = some value'' →
              ∀ inner ∈ value''.messages, inner.Tallies store measure := by
            intro other mem value'' found
            rw [slot?_putSlot_of_mem apart (some value') mem] at found
            exact tallies other (List.mem_cons_of_mem _ mem) value'' found
          apply (ih distinct below).bind
          rintro ⟨after, rest⟩ ⟨kept', size'⟩
          refine ensures_pure ⟨put.trans kept', ?_⟩
          rw [tallySlot_congr put.same] at size'
          exact congrArg₂ (· + ·) size size'

/-! ### Messages -/

/-- A message whose content was coded keeps its tally once that is stored in it. -/
theorem KeptInside.storeSize {catalog : Catalog} {message after : Message} {table : FieldTable}
    (kept : message.KeptInside catalog after)
    (found : catalog.table message.type = .ok table) :
    message.Kept catalog (after.storeSize (message.tally catalog)) := by
  have same : (after.storeSize (message.tally catalog)).uncached = message.uncached :=
    (uncached_storeSize _ _).trans kept.same
  refine ⟨same, fun right => tallied_iff.2 ⟨?_, kept.tallied (tallied_iff.1 right).2⟩⟩
  intro size filled
  have type : (after.storeSize (message.tally catalog)).type = message.type := by
    rw [← type_uncached, same, type_uncached]
  rw [eq_of_filled_storeSize filled, type, found, tally_congr same]
  rfl

/-- All parts of a message add up to its tally. -/
theorem ensures_sizeBody_tally (sound : store.Sound) {message : Message}
    (registered : message.Registered store) {table : FieldTable}
    (found : store.catalog.table message.type = .ok table)
    (tallies : ∀ inner ∈ message.children, inner.Tallies store measure) :
    Ensures store (sizeBody measure table message) fun sized =>
      message.Kept store.catalog sized.1 ∧ sized.2 = message.tally store.catalog := by
  have inside : ∀ entry ∈ message.attached, ∀ inner ∈ entry.value.messages,
      inner.Tallies store measure :=
    fun entry mem inner h =>
      tallies inner (mem_children_of_attached mem h)
  have total := tally_eq store.catalog message
  simp only [tallyInner, found, tallyBody] at total
  rw [sizeBody]
  cases isSet : table.isMessageSet with
  | true =>
      rw [if_pos rfl]
      rw [isSet, if_pos rfl] at total
      refine (ensures_sizeItems_tally sound registered.holds
        (fun _ mem => registered.declares mem) inside).bind ?_
      rintro ⟨items, size⟩ ⟨kept, eq⟩
      simp only at eq ⊢
      rw [eq, ← total]
      exact ensures_pure ⟨(keptInside_withAttached kept).storeSize found, rfl⟩
  | false =>
      rw [if_neg Bool.false_ne_true]
      rw [isSet, if_neg Bool.false_ne_true] at total
      refine (ensures_sizeAttached_tally sound registered.holds
        (fun _ mem => registered.declares mem) inside).bind ?_
      rintro ⟨extensions, size⟩ ⟨kept, eq⟩
      have whole := keptInside_withAttached kept
      have slots : ∀ entry ∈ table.writingOrder, ∀ value,
          (message.withAttached extensions).slot? entry.position = some value →
          ∀ inner ∈ value.messages, inner.Tallies store measure :=
        fun entry _ value held inner h =>
          tallies inner (mem_children_of_slot? held h)
      have distinct := (sound.builds_of_table registered.holds found).nodup_positions
      apply (ensures_sizeFields_tally distinct slots).bind
      rintro ⟨after, fields⟩ ⟨kept', eq'⟩
      simp only at eq eq' ⊢
      rw [eq, eq', tallySlot_congr whole.same, ← total]
      exact ensures_pure ⟨(whole.trans kept').storeSize found, rfl⟩

/-- Measuring a message gives its tally, if the sizes that are trusted are tallies. -/
theorem ensures_measureWith_tally (sound : store.Sound) {trust : Bool} {message : Message}
    (registered : message.Registered store)
    (trusted : trust = true → message.KeepsTally store.catalog)
    (tallies : ∀ inner ∈ message.children, inner.Tallies store measure) :
    Ensures store (measureWith measure trust message) fun sized =>
      message.Kept store.catalog sized.1 ∧
        sized.2 = (store.catalog.table message.type).map fun _ => message.tally store.catalog := by
  rw [measureWith]
  cases asked : (if trust then message.cache.get? else none) with
  | some size =>
      -- the cache is only asked by those who may trust it
      cases trust with
      | false => simp at asked
      | true =>
          have filled : message.cache = .filled size := by
            rw [if_pos rfl] at asked
            cases cache : message.cache <;> simp [cache, SizeCache.get?] at asked
            rw [asked]
          exact ensures_pure ⟨.refl _ _, (trusted rfl size filled).symm⟩
  | none =>
      apply (yields_table sound registered.holds).bind_ensures
      cases found : store.catalog.table message.type with
      | error error => exact ensures_pure ⟨.refl _ _, rfl⟩
      | ok table =>
          apply (ensures_sizeBody_tally sound registered found tallies).bind
          rintro ⟨sized, size⟩ ⟨kept, eq⟩
          exact ensures_pure ⟨kept, congrArg Except.ok eq⟩

/-- Taking zero for the size of a message without a table is what its tally does. -/
theorem orZero_tally {catalog : Catalog} {message : Message}
    {sized : Message × Except Unbuildable Nat}
    (outcome : sized.2 = (catalog.table message.type).map fun _ => message.tally catalog) :
    (orZero sized).2 = message.tally catalog := by
  rw [orZero, outcome, tally_eq, tallyInner]
  cases catalog.table message.type <;> rfl

/-- Sizing a nested message returns its tally, with caches that keep tallies or without. -/
theorem tallies_measureAt (sound : store.Sound) {trust : Bool} {depth : Nat} {message : Message}
    (registered : message.Registered store) (bound : message.height ≤ depth)
    (trusted : trust = true → message.Tallied store.catalog) :
    message.Tallies store (measureAt trust depth) := by
  -- the messages inside lie lower, so the depth is enough for them
  induction depth generalizing message with
  | zero =>
      refine ((ensures_measureWith_tally sound registered (fun trusts => (trusted trusts).here)
        ?_).mono fun _ h => ⟨h.1, orZero_tally h.2⟩).map _
      intro inner mem
      have := height_lt_of_mem mem
      omega
  | succ depth ih =>
      refine ((ensures_measureWith_tally sound registered (fun trusts => (trusted trusts).here)
        ?_).mono fun _ h => ⟨h.1, orZero_tally h.2⟩).map _
      intro inner mem
      have := height_lt_of_mem mem
      exact ih (registered.of_mem mem) (by omega) fun trusts => (trusted trusts).of_mem mem

/-- Sizing a message returns its tally, with caches that keep tallies or without. -/
theorem ensures_size_tally (sound : store.Sound) {trust : Bool} {message : Message}
    (registered : message.Registered store)
    (trusted : trust = true → message.Tallied store.catalog) :
    Ensures store (message.size trust) fun sized =>
      message.Kept store.catalog sized.1 ∧
        sized.2 = (store.catalog.table message.type).map fun _ => message.tally store.catalog := by
  apply ensures_measureWith_tally sound registered fun trusts => (trusted trusts).here
  intro inner mem
  have := height_lt_of_mem mem
  exact tallies_measureAt sound (registered.of_mem mem) (by omega)
    fun trusts => (trusted trusts).of_mem mem

end MessageOf

end ProtoWire
