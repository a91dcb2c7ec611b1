import ProtoWire.Proofs.Message.Framing
import ProtoWire.Proofs.Message.Item
import ProtoWire.Proofs.Message.Registered
import ProtoWire.Proofs.Wire.Depth

/-!
# The nesting limit

An input that decodes has at most `maxNesting` groups open at a time, whether they are fields,
extensions or groups that are passed over (`MessageType.deepest_of_decode`). There is one exception.
The item of a message set is a group, but the groups inside it that are passed over are counted as
if they stood outside, so that one group more than the limit can be open in an item.
-/

set_option autoImplicit false

namespace ProtoWire

section

variable {closes : Nat → Nat → Prop} {depth number : Nat} {record value : Bytes}

/-- An item is a group, with as many groups open inside as may be open where it stands. -/
theorem MessageOf.isRecord_of_readItem {item : Option (Nat × Bytes)}
    (tag : Tag.read record = .ok (MessageOf.itemNumber, .startGroup, value))
    (reads : MessageOf.readItem depth value = .ok (item, [])) : IsRecord Eq (depth + 1) record := by
  obtain ⟨whole, _, same, -, complete⟩ :=
    (MessageOf.completes_of_readItem reads).exists_record tag
  rw [List.append_nil] at same
  exact same ▸ complete

/-- A record of a merge nests as deeply as groups may, or is an item that nests one group deeper. -/
theorem RecordIn.isRecord {inSet : Bool} (h : RecordIn closes inSet depth record) :
    IsRecord closes depth record ∨ inSet = true ∧ IsRecord Eq (depth + 1) record ∧
      ∃ value, Tag.read record = .ok (MessageOf.itemNumber, .startGroup, value) := by
  obtain ⟨number, wire, value, tag, read⟩ := h
  split at read
  · next isItem =>
      obtain ⟨isSet, rfl, rfl⟩ := isItem
      obtain ⟨item, reads⟩ := read
      exact .inr ⟨isSet, MessageOf.isRecord_of_readItem tag reads, value, tag⟩
  · exact .inl read

end

namespace MessageType

open Coding (Ensures ensures_pure)

/-- An input that decodes is a sequence of records. -/
theorem ensures_decode_records {store : Store} {closes : Nat → Nat → Prop}
    {types : MessageType → Prop} (sound : store.Sound) (framed : store.Frames closes types)
    {type : MessageType} (known : types type) (input : Bytes) :
    Ensures store (type.decode input) fun outcome => ∀ message, outcome = .ok message →
      ∃ records : List Bytes, input = records.flatten ∧ ∀ record ∈ records,
        RecordIn closes type.descriptor.messageSet maxNesting record := by
  have start : types type.newMessage.type := known
  have merged := ensures_merge_accounts sound framed start input
  rw [decode]
  apply merged.bind
  rintro ⟨message, failure⟩ account
  cases failure with
  | some failure => exact ensures_pure (by simp)
  | none =>
      obtain ⟨table, records, found, same, all, -⟩ := account rfl
      have sets : table.isMessageSet = type.descriptor.messageSet :=
        (sound.builds_of_table (framed.held _ known) found).isMessageSet
      exact ensures_pure fun _ _ => ⟨records, same, sets ▸ all⟩

/-- An input that decodes nests no deeper than the limit, unless the type is a message set. Then an
item may nest one group deeper. -/
theorem deepest_of_decode {store later : Store} (reachable : store.Reachable) {type : MessageType}
    (held : store.Holds type) {input : Bytes} {message : Message}
    (decoded : (type.decode input).run store = (.ok message, later)) :
    deepest input ≤ maxNesting ∨
      type.descriptor.messageSet = true ∧ deepest input = maxNesting + 1 ∧
        ∃ front item back value, input = front ++ item ++ back ∧ Complete item ∧
          Tag.read item = .ok (MessageOf.itemNumber, .startGroup, value) ∧
          deepest item = maxNesting + 1 := by
  have sound := reachable.sound
  obtain ⟨divided, -⟩ := (ensures_decode_records sound sound.frames_any held input).run
  rw [decoded] at divided
  obtain ⟨records, rfl, all⟩ := divided message rfl
  have level : ∀ record ∈ records, Level (maxNesting + 1) record := by
    intro record mem
    rcases (all record mem).isRecord with complete | ⟨-, complete, -⟩
    · exact (complete.mono (Nat.le_succ _) fun _ _ => id).level
    · exact complete.level
  rcases Nat.lt_or_ge maxNesting (deepest records.flatten) with deeper | within
  · obtain ⟨front, record, back, rfl, deep⟩ := exists_lt_deepest level deeper
    have inside := (level_flatten level).le
    rcases (all record (by simp)).isRecord with complete | ⟨isSet, complete, value, tag⟩
    · exact absurd complete.level.le (Nat.not_le.2 deep)
    · refine .inr ⟨isSet, by omega, front.flatten, record, back.flatten, value, by simp,
        ⟨_, complete⟩, tag, ?_⟩
      have := complete.level.le
      omega
  · exact .inl within

/-- A group in a group that nodes do not declare. -/
theorem deepest_of_decode_node :
    nodeType.descriptor.messageSet = false ∧ deepest [27, 35, 36, 28] = 2 ∧
      ∃ message later, (nodeType.decode [27, 35, 36, 28]).run nodeStore = (.ok message, later) ∧
        deepest [27, 35, 36, 28] ≤ maxNesting := by
  have held : nodeStore.Holds nodeType := List.mem_singleton_self nodeType
  have decoded : (nodeType.decode [27, 35, 36, 28]).run nodeStore = (.ok _, _) := rfl
  refine ⟨rfl, by decide, _, _, decoded, ?_⟩
  rcases deepest_of_decode reachable_nodeStore held decoded with within | ⟨isSet, -⟩
  · exact within
  · exact absurd isSet (by decide)

end MessageType

/-- As many groups as the limit, one in the other, in a group more. -/
def deepItem : Bytes :=
  List.replicate 101 11 ++ List.replicate 101 12

/-- The groups decode as an item of a message set, although they nest deeper than the limit. -/
theorem decode_deepItem :
    setStore.Reachable ∧ setStore.Holds setType ∧ deepest deepItem = maxNesting + 1 ∧
      ∃ message later, (setType.decode deepItem).run setStore = (.ok message, later) := by
  have decodes : ((setType.decode deepItem).run setStore).1.toOption.isSome = true := by
    decide +kernel
  refine ⟨reachable_setStore, holds_setType, by decide +kernel, ?_⟩
  obtain ⟨⟨outcome, later⟩, run⟩ : ∃ result, (setType.decode deepItem).run setStore = result :=
    ⟨_, rfl⟩
  rw [run] at decodes ⊢
  cases outcome with
  | error failure => simp [Except.toOption] at decodes
  | ok message => exact ⟨message, later, rfl⟩

end ProtoWire
