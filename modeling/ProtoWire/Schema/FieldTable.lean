import ProtoWire.Order
import ProtoWire.Schema.Codec

/-!
# Field tables

A table holds what coding needs to know about a message type: an entry for each
field, ascending by number, a dense array that finds the small numbers directly,
and the order in which fields are written.
-/

set_option autoImplicit false

namespace ProtoWire

/-- What coding needs to know about one field. -/
structure FieldEntry where
  /-- The position of the field among the declared ones, and of its slot. -/
  position : Nat
  codec : FieldCodec
  mayBeAbsent : Bool
  isRequired : Bool
  /-- The oneof whose members are written together, after all other fields. -/
  group : Option Nat
  deriving DecidableEq, Repr

def FieldEntry.number (entry : FieldEntry) : Nat :=
  entry.codec.number

/-- The table of a message type. -/
structure FieldTable where
  /-- All fields, ascending by number. -/
  entries : List FieldEntry
  /-- The fields of small numbers, each at the place of its number. -/
  dense : List (Option FieldEntry)
  /-- All fields, in the order in which they are written. -/
  writingOrder : List FieldEntry
  storage : Storage
  isMessageSet : Bool
  /-- Whether the type, or one that it reaches, has required fields or extensions. -/
  needsInitCheck : Bool
  deriving DecidableEq, Repr

namespace FieldTable

/-- Numbers below this one always have a dense place. -/
def denseMinimum : Nat := 16

/-- From `denseMinimum` on, the dense array ends in front of the first number
that is at least this many times the one before it. -/
def denseGrowth : Nat := 2

/-- The last number with a dense place, given the last one so far and the
entries after it. -/
def denseEnd : Nat → List FieldEntry → Nat
  | last, [] => last
  | last, entry :: entries =>
      if denseMinimum ≤ entry.number ∧ denseGrowth * last ≤ entry.number then last
      else denseEnd entry.number entries

/-- Lays out ascending entries over a count of places, of which the first is for
the number `next`. -/
def layOut : (count next : Nat) → List FieldEntry → List (Option FieldEntry)
  | 0, _, _ => []
  | count + 1, next, [] => none :: layOut count (next + 1) []
  | count + 1, next, entry :: entries =>
      if entry.number = next then some entry :: layOut count (next + 1) entries
      else none :: layOut count (next + 1) (entry :: entries)

/-- Fields outside oneofs come first; then each oneof's members; numbers ascend
within each part. -/
def writtenBefore (a b : FieldEntry) : Bool :=
  match a.group, b.group with
  | none, none => a.number ≤ b.number
  | none, some _ => true
  | some _, none => false
  | some g, some h => g < h || (g == h && a.number ≤ b.number)

/-- The entry of a field, given the resolved type of its values. -/
def entry (type : MessageType) (position : Nat) (field : FieldDescriptor)
    (valueType : Option MessageType) : FieldEntry where
  position := position
  codec :=
    { number := field.number
      kind := field.kind
      arrangement := .ofField field (field.hasPresence type.descriptor.generation)
      valueType := valueType }
  mayBeAbsent := field.mayBeAbsent type.descriptor.generation
  isRequired := field.isRequired
  group := type.descriptor.relocatingOneof? field

/-- The table of a type whose value types are resolved, one for each field. -/
def build (type : MessageType) (valueTypes : List (Option MessageType))
    (needsInitCheck : Bool) : FieldTable :=
  let declared := (type.fields.zip valueTypes).mapIdx fun position pair =>
    entry type position pair.1 pair.2
  let entries := sortBy (fun a b => a.number ≤ b.number) declared
  { entries := entries
    dense := layOut (denseEnd 0 entries + 1) 0 entries
    writingOrder :=
      if type.descriptor.oneofs.isEmpty then entries else sortBy writtenBefore entries
    storage := type.storage
    isMessageSet := type.descriptor.messageSet
    needsInitCheck := needsInitCheck }

/-- The entry at a number's dense place. -/
def denseEntry? (table : FieldTable) (number : Nat) : Option FieldEntry :=
  (table.dense[number]?).join

/-- The entry of a number, found by search. -/
def searchedEntry? (table : FieldTable) (number : Nat) : Option FieldEntry :=
  table.entries.find? fun entry => entry.number == number

/-- The entry of a number. -/
def entry? (table : FieldTable) (number : Nat) : Option FieldEntry :=
  (table.denseEntry? number).or (table.searchedEntry? number)

/-- The number of required fields. -/
def requiredCount (table : FieldTable) : Nat :=
  table.entries.countP (·.isRequired)

end FieldTable

end ProtoWire
