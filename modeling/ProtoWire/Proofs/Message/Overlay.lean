import ProtoWire.Message.Merge
import ProtoWire.Proofs.Message.Access

/-!
# Merging field by field

The field-wise merge of a message into another, described without bytes: what the source holds
in a field that is written replaces a scalar, is added to a list, and is merged into a nested
message; setting a member of a oneof unsets its siblings; extensions go by their numbers, and
unknown bytes are added (`MessageOf.overlay`, whose equation is `overlay_eq`). A merge can also
be done one extension and one field after the other (`overlayBody_eq_foldl`).
-/

set_option autoImplicit false

namespace ProtoWire

/-! ## Values -/

namespace Value

/-- The value as the item of a list that it is added to, given how messages are merged. -/
def fresh (merge : Message → Message → Message) : Value → Value
  | .message inner => .message (merge inner.type.newMessage inner)
  | value => value

/-- What the value leaves in a place that held `old`, given how messages are merged. -/
def mergeOver (merge : Message → Message → Message) (old : Option Value) : Value → Value
  | .message inner => .message (merge (FieldCodec.startingMessage inner.type old) inner)
  | .list items => .list ((old.map Value.items).getD [] ++ items.map (fresh merge))
  | value => value

/-- A list without items, of which nothing is written. -/
def isEmptyList : Value → Bool
  | .list [] => true
  | _ => false

theorem isEmptyList_iff {value : Value} : value.isEmptyList = true ↔ value = .list [] := by
  cases value with
  | list items => cases items <;> simp [isEmptyList]
  | _ => simp [isEmptyList]

section

variable {merge merge' : Message → Message → Message}

theorem fresh_congr {value : Value}
    (same : ∀ inner ∈ value.messages, ∀ target, merge target inner = merge' target inner) :
    value.fresh merge = value.fresh merge' := by
  cases value with
  | message inner => rw [fresh, fresh, same inner (by simp)]
  | _ => rfl

theorem mergeOver_congr {old : Option Value} {value : Value}
    (same : ∀ inner ∈ value.messages, ∀ target, merge target inner = merge' target inner) :
    value.mergeOver merge old = value.mergeOver merge' old := by
  cases value with
  | message inner => rw [mergeOver, mergeOver, same inner (by simp)]
  | list items =>
      rw [mergeOver, mergeOver]
      congr 2
      refine List.map_congr_left fun item mem => fresh_congr fun inner deep => ?_
      exact same inner (mem_messages_of_mem_items mem deep)
  | _ => rfl

end

end Value

/-! ## Messages -/

/-- Whether a value of a field is left out of the encoding: a list without items and, in a field
without presence, a zero. -/
def FieldDescriptor.leavesOut (field : FieldDescriptor) (generation : Generation)
    (value : Value) : Bool :=
  value.isEmptyList ||
    (!field.mayBeAbsent generation && (field.kind.payload? value).any Payload.isZero)

namespace MessageOf

/-- The value at a position, if it is written. -/
def written? (message : Message) (position : Nat) : Option Value :=
  match message.type.fields[position]? with
  | none => none
  | some field =>
      (message.slot? position).filter fun value =>
        !field.leavesOut message.type.descriptor.generation value

/-- Whether a value is written for another member of the oneof of the field at a position. -/
def writesSibling (message : Message) (position : Nat) : Bool :=
  (List.range message.type.fields.length).any fun other =>
    message.type.areSiblings position other && (message.written? other).isSome

/-- The extensions that are written, in ascending order of number. -/
def writtenAttached (message : Message) : List Attached :=
  message.attachedByNumber.filter fun entry => !entry.value.isEmptyList

/-- An extension that is merged into what a target holds under its number. -/
def mergedAttached (merge : Message → Message → Message) (target : Message) (entry : Attached) :
    Attached :=
  ⟨entry.type,
    entry.value.mergeOver merge ((target.extension? entry.type.number).map AttachedOf.value)⟩

/-- The field-wise merge of a message into a target, given how messages inside it are merged. -/
def overlayBody (merge : Message → Message → Message) (target source : Message) : Message where
  type := target.type
  slots := target.slots.mapIdx fun position old =>
    match source.written? position with
    | some value => some (value.mergeOver merge old)
    | none => if source.writesSibling position then none else old
  cache := target.cache.clear
  unknown := target.unknown.map (· ++ source.unknown.getD [])
  extensions := target.extensions.map fun entries =>
    (entries.filter fun entry =>
      !source.writtenAttached.any fun other => other.type.number == entry.type.number) ++
    source.writtenAttached.map (mergedAttached merge target)

/-- The field-wise merge of a message into a target. -/
def overlay (target source : Message) : Message :=
  overlayBody
    (fun target inner => if inner.height < source.height then overlay target inner else target)
    target source
termination_by source.height

section

variable {merge merge' : Message → Message → Message} {source : Message}

theorem slot?_of_written? {position : Nat} {value : Value}
    (h : source.written? position = some value) : source.slot? position = some value := by
  rw [written?] at h
  split at h
  · simp at h
  · exact (Option.filter_eq_some_iff.1 h).1

theorem mem_attached_of_written {entry : Attached} (h : entry ∈ source.writtenAttached) :
    entry ∈ source.attached := by
  have mem := (List.mem_filter.1 h).1
  rwa [mem_attachedByNumber] at mem

/-- Only the merging of the source's children matters. -/
theorem overlayBody_congr {target : Message}
    (same : ∀ inner ∈ source.children, ∀ target, merge target inner = merge' target inner) :
    overlayBody merge target source = overlayBody merge' target source := by
  rw [overlayBody, overlayBody]
  congr 1
  · apply List.ext_getElem?
    intro position
    rw [List.getElem?_mapIdx, List.getElem?_mapIdx]
    cases written : source.written? position with
    | none => rfl
    | some value =>
        have held := mem_values_of_slot? (slot?_of_written? written)
        simp only [Value.mergeOver_congr fun inner deep =>
          same inner (mem_children_of_mem held deep)]
  · congr 1
    funext entries
    congr 1
    apply List.map_congr_left
    intro entry mem
    have held := mem_values_of_attached (mem_attached_of_written mem)
    rw [mergedAttached, mergedAttached,
      Value.mergeOver_congr fun inner deep => same inner (mem_children_of_mem held deep)]

/-- Nested messages are merged field by field, too. -/
theorem overlay_eq (target source : Message) :
    overlay target source = overlayBody overlay target source := by
  rw [overlay]
  apply overlayBody_congr
  intro inner inside target
  rw [if_pos (height_lt_of_mem inside)]

end

/-! ## One extension and one field after the other -/

/-- Merges one extension into a target. -/
def overlayAttached (merge : Message → Message → Message) (target : Message) (entry : Attached) :
    Message :=
  if entry.value.isEmptyList then target else target.attach (mergedAttached merge target entry)

/-- Merges the field at a position into a target. -/
def overlaySlot (merge : Message → Message → Message) (source target : Message)
    (position : Nat) : Message :=
  match source.written? position with
  | none => target
  | some value => target.putField position (value.mergeOver merge (target.slot? position))

section

variable {merge : Message → Message → Message}

/-- Attaching an extension has no part in what another one is merged into. -/
theorem mergedAttached_attach {target : Message} {attached entry : Attached}
    (place : target.extensions.isSome = true) (apart : entry.type.number ≠ attached.type.number) :
    mergedAttached merge (target.attach attached) entry = mergedAttached merge target entry := by
  rw [mergedAttached, mergedAttached, extension?_attach _ _ place, if_neg apart]

variable (merge) in
theorem foldl_overlayAttached {entries : List Attached}
    (distinct : (entries.map (·.type.number)).Nodup) (target : Message) :
    entries.foldl (overlayAttached merge) target =
      { target with
        extensions := target.extensions.map fun old =>
          (old.filter fun entry =>
            !(entries.filter fun entry => !entry.value.isEmptyList).any fun other =>
              other.type.number == entry.type.number) ++
          (entries.filter fun entry => !entry.value.isEmptyList).map
            (mergedAttached merge target) } := by
  induction entries generalizing target with
  | nil =>
      obtain ⟨_, _, _, _, extensions⟩ := target
      cases extensions <;> simp
  | cons entry entries ih =>
      rw [List.map_cons, List.nodup_cons] at distinct
      obtain ⟨apart, distinct⟩ := distinct
      -- later entries have other numbers, so each is merged into what was there at the start
      have others : ∀ other ∈ entries.filter fun other => !other.value.isEmptyList,
          other.type.number ≠ entry.type.number := by
        intro other mem same
        exact apart (same ▸ List.mem_map_of_mem (List.mem_filter.1 mem).1)
      rw [List.foldl_cons, ih distinct, overlayAttached]
      cases empty : entry.value.isEmptyList with
      | true => simp [empty]
      | false =>
          rw [if_neg Bool.false_ne_true, List.filter_cons_of_pos (by simp [empty])]
          -- only the place for extensions changes
          refine congr_slots rfl rfl rfl rfl ?_
          cases place : target.extensions with
          | none => simp [attach, place]
          | some old =>
              -- the entry comes last and stays, since no later one has its number
              have stays : [mergedAttached merge target entry].filter (fun entry =>
                    !(entries.filter fun other => !other.value.isEmptyList).any fun other =>
                      other.type.number == entry.type.number) =
                  [mergedAttached merge target entry] := by
                simpa [mergedAttached] using others
              have rest : (entries.filter fun other => !other.value.isEmptyList).map
                    (mergedAttached merge (target.attach (mergedAttached merge target entry))) =
                  (entries.filter fun other => !other.value.isEmptyList).map
                    (mergedAttached merge target) :=
                List.map_congr_left fun later mem =>
                  mergedAttached_attach (by simp [place]) (others later mem)
              rw [rest, attach, place]
              simp only [Option.map_some, Option.some.injEq]
              rw [List.filter_append, List.filter_filter, stays, List.append_assoc, List.map_cons,
                List.singleton_append]
              congr 1
              -- what was there goes away for the first entry or for a later one
              apply List.filter_congr
              intro other _
              have comm : (other.type.number == entry.type.number) =
                  (entry.type.number == other.type.number) := BEq.comm
              rw [List.any_cons, Bool.not_or, Bool.and_comm]
              exact congrArg (fun same => !same && _) comm

variable (merge) in
/-- Merging fields leaves everything but the slots as it is. -/
theorem frame_foldl_overlaySlot (source : Message) (positions : List Nat) (target : Message) :
    let merged := positions.foldl (overlaySlot merge source) target
    merged.type = target.type ∧ merged.slots.length = target.slots.length ∧
      merged.cache = target.cache ∧ merged.unknown = target.unknown ∧
      merged.extensions = target.extensions := by
  induction positions generalizing target with
  | nil => exact ⟨rfl, rfl, rfl, rfl, rfl⟩
  | cons position positions ih =>
      obtain ⟨type, slots, cache, unknown, extensions⟩ :=
        ih (overlaySlot merge source target position)
      -- one field changes the slots only, if anything
      have first : (overlaySlot merge source target position).type = target.type ∧
          (overlaySlot merge source target position).slots.length = target.slots.length ∧
          (overlaySlot merge source target position).cache = target.cache ∧
          (overlaySlot merge source target position).unknown = target.unknown ∧
          (overlaySlot merge source target position).extensions = target.extensions := by
        rw [overlaySlot]
        split
        · exact ⟨rfl, rfl, rfl, rfl, rfl⟩
        · simp
      obtain ⟨type', slots', cache', unknown', extensions'⟩ := first
      exact ⟨type.trans type', slots.trans slots', cache.trans cache', unknown.trans unknown',
        extensions.trans extensions'⟩

/-- Of two members of a oneof at most one is written. -/
def WritesOneOfEach (source : Message) : Prop :=
  ∀ position other, source.type.areSiblings position other = true →
    (source.written? position).isSome = true → source.written? other = none

/-- What a slot holds after some fields were merged in any order. -/
theorem slot?_foldl_overlaySlot {source : Message} (exclusive : source.WritesOneOfEach)
    {positions : List Nat} (distinct : positions.Nodup) {target : Message}
    (type : target.type = source.type)
    (inside : ∀ position ∈ positions, position < target.slots.length) (position : Nat) :
    (positions.foldl (overlaySlot merge source) target).slot? position =
      match if position ∈ positions then source.written? position else none with
      | some value => some (value.mergeOver merge (target.slot? position))
      | none =>
          if positions.any fun other =>
            source.type.areSiblings position other && (source.written? other).isSome
          then none else target.slot? position := by
  -- induction on the fields that are left, for any target that they are merged into
  induction positions generalizing target with
  | nil => simp
  | cons first positions ih =>
      obtain ⟨apart, distinct⟩ := List.nodup_cons.1 distinct
      have inside' := fun other mem => inside other (List.mem_cons_of_mem _ mem)
      rw [List.foldl_cons, overlaySlot]
      cases written : source.written? first with
      | none =>
          -- a field that is not written changes nothing
          rw [ih distinct type inside']
          by_cases same : position = first
          · subst same
            simp [apart, written]
          · simp [same, written]
      | some value =>
          simp only
          rw [ih distinct (by simpa using type) (by simpa using inside')]
          rw [slot?_putField _ (inside first List.mem_cons_self), type]
          have unwritten : ∀ other, source.type.areSiblings first other = true →
              source.written? other = none :=
            fun other sibling => exclusive first other sibling (by simp [written])
          by_cases same : position = first
          · -- no sibling is written later, so the value stays
            subst same
            have alone : (positions.any fun other => source.type.areSiblings position other &&
                (source.written? other).isSome) = false := by
              rw [List.any_eq_false]
              intro other _
              rw [Bool.and_eq_true]
              rintro ⟨sibling, written'⟩
              simp [unwritten other sibling] at written'
            simp [apart, written, alone]
          -- another slot is unset if it belongs to a sibling of the field
          · simp only [List.mem_cons, same, false_or, List.any_cons, written,
              Option.isSome_some, Bool.and_true, MessageType.areSiblings_comm _ position first]
            cases sibling : source.type.areSiblings first position with
            | false => simp
            | true => simp [unwritten position sibling]

variable (merge) in
/-- A merge can be done one extension after the other, in ascending order of number, and one
field after the other, in any order. -/
theorem overlayBody_eq_foldl {target source : Message} (type : target.type = source.type)
    (slots : target.slots.length = target.type.fields.length)
    (exclusive : source.WritesOneOfEach) (numbers : (source.attached.map (·.type.number)).Nodup)
    {positions : List Nat} (distinct : positions.Nodup)
    (all : ∀ position, position ∈ positions ↔ position < target.type.fields.length) :
    overlayBody merge target source =
      (positions.foldl (overlaySlot merge source)
        (source.attachedByNumber.foldl (overlayAttached merge)
          target.clearCachedSize)).keepUnknown (source.unknown.getD []) := by
  have numbers' : (source.attachedByNumber.map (·.type.number)).Nodup := by
    rw [(source.perm_attachedByNumber.map _).nodup_iff]
    exact numbers
  -- extensions come first, and fields are merged into what they leave
  have start := foldl_overlayAttached merge numbers' target.clearCachedSize
  generalize eq : source.attachedByNumber.foldl (overlayAttached merge) target.clearCachedSize =
    first at start ⊢
  obtain ⟨type', slots', cache, unknown, extensions⟩ :=
    frame_foldl_overlaySlot merge source positions first
  have same : first.slots = target.slots := by rw [start]; rfl
  refine congr_slots ?_ ?_ ?_ ?_ ?_
  · refine slots_ext ?_ fun position => ?_
    · simp [overlayBody, keepUnknown, slots', same]
    · have here : first.slot? position = target.slot? position := by rw [slot?, slot?, same]
      -- the positions are those of all fields, so they hold the same siblings
      have siblings : (positions.any fun other =>
            source.type.areSiblings position other && (source.written? other).isSome) =
          source.writesSibling position := by
        rw [Bool.eq_iff_iff, writesSibling, List.any_eq_true, List.any_eq_true]
        refine exists_congr fun other => and_congr_left fun _ => ?_
        rw [all, List.mem_range, type]
      have kept : ((positions.foldl (overlaySlot merge source) first).keepUnknown
          (source.unknown.getD [])).slot? position =
            (positions.foldl (overlaySlot merge source) first).slot? position := rfl
      rw [kept, slot?_foldl_overlaySlot exclusive distinct (by rw [start]; exact type)
        (by rw [same, slots]; exact fun other mem => (all other).1 mem), here, siblings]
      rw [slot?, overlayBody, List.getElem?_mapIdx]
      by_cases bound : position < target.slots.length
      · have mem : position ∈ positions := (all position).2 (slots ▸ bound)
        have held : target.slot? position = target.slots[position] := by
          rw [slot?, List.getElem?_eq_getElem bound, Option.join_some]
        rw [List.getElem?_eq_getElem bound, Option.map_some, Option.join_some, if_pos mem, held]
      -- beyond the declared fields there are no slots
      · have nothing := List.getElem?_eq_none (Nat.le_of_not_lt bound)
        have outside : position ∉ positions := by
          rw [all, ← slots]
          exact bound
        simp [nothing, outside, slot?]
  · exact (type'.trans (by rw [start]; rfl)).symm
  · exact (cache.trans (by rw [start]; rfl)).symm
  · have before : first.unknown = target.unknown := by rw [start]; rfl
    simp only [keepUnknown, unknown, before]
    rfl
  · exact (extensions.trans (by rw [start]; rfl)).symm

end

end MessageOf

end ProtoWire
