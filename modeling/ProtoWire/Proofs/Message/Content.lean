import ProtoWire.Proofs.Message.Canonical

/-!
# What messages hold

The content of a message is the message with no size in any cache and with extensions in ascending
order of number, at every depth (`MessageOf.content`). Nothing else is lost: messages of one content
agree in their types, in their fields, set or not, bit for bit, in their unknown bytes and in the
extension under every number (`MessageOf.extension?_content`).
-/

set_option autoImplicit false

namespace ProtoWire

namespace Value

variable {change : Message → Message} {value other : Value}

/-- Single values that agree when the messages in them are changed are the same, or messages. -/
theorem cases_of_mapMessage (same : value.mapMessage change = other.mapMessage change) :
    value = other ∨
      ∃ inner inner', value = .message inner ∧ other = .message inner' ∧
        change inner = change inner' := by
  cases value with
  | message inner =>
      cases other with
      | message inner' => exact .inr ⟨inner, inner', rfl, rfl, message.inj same⟩
      | _ => cases same
  | _ =>
      cases other with
      | message => cases same
      | _ => exact .inl same

/-- Items of a list are changed as single values are. -/
theorem mapMessages_eq_of_mapMessage (same : value.mapMessage change = other.mapMessage change) :
    value.mapMessages change = other.mapMessages change := by
  rcases cases_of_mapMessage same with rfl | ⟨inner, inner', rfl, rfl, eq⟩
  · rfl
  · exact same

theorem mapMessages_of_ne_list (single : ∀ items, value ≠ .list items) :
    value.mapMessages change = value.mapMessage change := by
  cases value with
  | list items => exact absurd rfl (single items)
  | _ => rfl

/-- What agrees with a single value is a single value. -/
theorem mapMessage_eq_of_mapMessages (single : ∀ items, other ≠ .list items)
    (same : value.mapMessages change = other.mapMessages change) :
    value.mapMessage change = other.mapMessage change := by
  rw [mapMessages_of_ne_list single] at same
  cases value with
  | list =>
      cases other with
      | list items => exact absurd rfl (single items)
      | _ => cases same
  | _ => exact same

end Value

/-- The extension with the messages in it changed. -/
def AttachedOf.mapMessages (change : Message → Message) (entry : Attached) : Attached :=
  ⟨entry.type, entry.value.mapMessages change⟩

namespace MessageOf

variable {message : Message}

/-- The message with no size in its cache and its extensions in ascending order of number, given how
the messages in it are changed. -/
def contentBody (change : Message → Message) (message : Message) : Message where
  type := message.type
  slots := message.slots.map fun slot => slot.map (Value.mapMessages change)
  cache := message.cache.clear
  unknown := message.unknown
  extensions := message.extensions.map fun _ =>
    message.attachedByNumber.map fun entry => ⟨entry.type, entry.value.mapMessages change⟩

/-- What the message holds: the message with no size in any cache and with its extensions in
ascending order of number, at every depth. -/
def content (message : Message) : Message :=
  contentBody (fun inner => if inner.height < message.height then content inner else inner) message
termination_by message.height

/-- What a message holds depends on the messages inside through what they hold. -/
theorem contentBody_congr {change change' : Message → Message}
    (same : ∀ inner ∈ message.children, change inner = change' inner) :
    contentBody change message = contentBody change' message := by
  have values : ∀ value ∈ message.values,
      value.mapMessages change = value.mapMessages change' := fun value held =>
    Value.mapMessages_congr fun inner inside => same inner (mem_children_of_mem held inside)
  rw [contentBody, contentBody]
  congr 1
  · apply List.map_congr_left
    intro slot mem
    cases slot with
    | none => rfl
    | some value =>
        rw [Option.map_some, Option.map_some, values value (mem_values_of_mem_slots mem)]
  · congr 1
    funext _
    apply List.map_congr_left
    intro entry mem
    rw [values entry.value (mem_values_of_attached (mem_attachedByNumber.1 mem))]

theorem content_eq (message : Message) : message.content = contentBody content message := by
  rw [content]
  apply contentBody_congr
  intro inner inside
  rw [if_pos (height_lt_of_mem inside)]

/-- Each slot holds what it held, and messages in it what they hold. -/
theorem slot?_content (position : Nat) :
    message.content.slot? position =
      (message.slot? position).map (Value.mapMessages content) := by
  rw [content_eq, slot?, slot?, contentBody, List.getElem?_map]
  cases message.slots[position]? <;> rfl

/-- The extensions are listed in the order of their numbers. -/
theorem attached_content :
    message.content.attached =
      message.attachedByNumber.map fun entry => ⟨entry.type, entry.value.mapMessages content⟩ := by
  rw [content_eq, attached, contentBody]
  cases place : message.extensions with
  | some entries => rfl
  | none => simp [attachedByNumber, attached, place, sortBy]

/-- Under each number is what was there before. -/
theorem extension?_content (distinct : (message.attached.map (·.type.number)).Nodup)
    (number : Nat) :
    message.content.extension? number = (message.extension? number).map fun entry =>
      ⟨entry.type, entry.value.mapMessages content⟩ := by
  have distinct' : (message.content.attached.map (·.type.number)).Nodup := by
    rw [attached_content, List.map_map]
    exact (message.perm_attachedByNumber.map (·.type.number)).nodup_iff.2 distinct
  ext entry
  rw [extension?_eq_some_iff _ distinct', attached_content, List.mem_map, Option.map_eq_some_iff]
  constructor
  · rintro ⟨⟨before, mem, rfl⟩, rfl⟩
    exact ⟨before, (extension?_eq_some_iff _ distinct).2 ⟨mem_attachedByNumber.1 mem, rfl⟩, rfl⟩
  · rintro ⟨before, found, rfl⟩
    obtain ⟨mem, rfl⟩ := (extension?_eq_some_iff _ distinct).1 found
    exact ⟨⟨before, mem_attachedByNumber.2 mem, rfl⟩, rfl⟩

theorem type_content : message.content.type = message.type := by rw [content_eq]; rfl

theorem unknown_content : message.content.unknown = message.unknown := by rw [content_eq]; rfl

theorem cache_content : message.content.cache = message.cache.clear := by rw [content_eq]; rfl

theorem slots_content :
    message.content.slots = message.slots.map (·.map (Value.mapMessages content)) := by
  rw [content_eq]
  rfl

theorem extensions_content : message.content.extensions = message.extensions.map fun _ =>
    message.attachedByNumber.map (AttachedOf.mapMessages content) := by
  rw [content_eq]
  rfl

/-- Messages that agree in each of their parts, up to caches and to the order of extensions, have
one content. -/
theorem content_congr {first second : Message} (type : first.type = second.type)
    (length : first.slots.length = second.slots.length)
    (slots : ∀ position, (first.slot? position).map (Value.mapMessages content) =
      (second.slot? position).map (Value.mapMessages content))
    (cache : first.cache.clear = second.cache.clear) (unknown : first.unknown = second.unknown)
    (place : first.extensions.isSome = second.extensions.isSome)
    (distinct : (first.attached.map (·.type.number)).Nodup)
    (distinct' : (second.attached.map (·.type.number)).Nodup)
    (attached : ∀ entry, entry ∈ first.attached.map (AttachedOf.mapMessages content) ↔
      entry ∈ second.attached.map (AttachedOf.mapMessages content)) :
    first.content = second.content := by
  have sorted : ∀ message : Message,
      message.attachedByNumber.map (AttachedOf.mapMessages content) =
        sortBy (fun a b => decide (a.type.number ≤ b.type.number))
          (message.attached.map (AttachedOf.mapMessages content)) := by
    intro message
    rw [sortBy_map]
    rfl
  have numbers : ∀ message : Message, (message.attached.map (AttachedOf.mapMessages content)).map
      (·.type.number) = message.attached.map (·.type.number) := by
    intro message
    rw [List.map_map]
    rfl
  have same : first.attachedByNumber.map (AttachedOf.mapMessages content) =
      second.attachedByNumber.map (AttachedOf.mapMessages content) := by
    rw [sorted, sorted]
    exact sortBy_key_congr (by rwa [numbers]) (by rwa [numbers]) attached
  refine congr_slots (slots_ext ?_ fun position => ?_) ?_ ?_ ?_ ?_
  · rw [slots_content, slots_content, List.length_map, List.length_map, length]
  · rw [slot?_content, slot?_content, slots]
  · rw [type_content, type_content, type]
  · rw [cache_content, cache_content, cache]
  · rw [unknown_content, unknown_content, unknown]
  · rw [extensions_content, extensions_content, same]
    revert place
    cases first.extensions <;> cases second.extensions <;> simp

end MessageOf

end ProtoWire
