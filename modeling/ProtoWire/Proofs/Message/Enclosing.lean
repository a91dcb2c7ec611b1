import ProtoWire.Proofs.Message.MessageSet
import ProtoWire.Proofs.Message.Records

/-!
# Nested messages and their frames

A nested message stands on the wire in one of two frames: behind its length, or between the start
tag and the end tag of a group. Both are read by one loop over records, which ends with the bytes
in the one frame and with the end tag in the other. Over the same complete records the two runs do
the same: both fail, or both succeed and leave the same message (`MessageOf.ends_mergeAt`,
`MessageType.decode_frames`).

Message sets break this rule. Behind a length a set is read in its own form, between tags as an
ordinary message, although sets are written in their own form in both frames. So an item of a
registered extension is taken in the one frame and kept as unknown bytes in the other
(`MessageType.not_decode_frames`). Everything else in a set is the same in both frames, items of
other numbers included, apart from records that only one of the forms has a place for or can pass
over (`Catalog.Diverts`).
-/

set_option autoImplicit false

namespace ProtoWire

open Coding (Yields Ensures yields_pure ensures_pure)

/-! ## Outcomes -/

namespace Coding

/-- Whatever follows the record, reading it leads to the given message; without one, it fails. -/
def Settles (store : Store) (step : Bytes → Coding (Message × Step)) (record : Bytes) :
    Option Message → Prop
  | some after => ∀ more, Yields store (step (record ++ more)) (after, .next more)
  | none => ∀ more, ∃ left error, Yields store (step (record ++ more)) (left, .failed error)

/-- The run leads to the given message, with the bytes left over; without one, it fails. -/
def Ends (store : Store) (run : Coding (Message × Except Malformed Bytes)) (rest : Bytes) :
    Option Message → Prop
  | some after => Yields store run (after, .ok rest)
  | none => ∃ left error, Yields store run (left, .error error)

end Coding

open Coding (Settles Ends)

/-- The two forms of a message set differ in the record: it is an item of a registered extension,
which an ordinary message would keep as a group that it does not know; or it would be read into an
extension of an ordinary message, while a set keeps what is no item; or it starts like an item and
its groups nest one deeper than they may, which is noticed only if the item itself is counted. -/
inductive Catalog.Diverts (catalog : Catalog) (table : FieldTable) (depth : Nat)
    (message : Message) (record : Bytes) : Prop
  | item {number : Nat} {body : Bytes} {type : ExtensionType} :
      MessageOf.IsItem number body record →
      catalog.extension? message.type number = some type →
      Diverts catalog table depth message record
  | field {number : Nat} {wire : WireType} {value : Bytes} {place : Place} :
      Tag.read record = .ok (number, wire, value) →
      catalog.place? table message number wire = some place →
      Diverts catalog table depth message record
  | deep {value : Bytes} :
      Tag.read record = .ok (MessageOf.itemNumber, .startGroup, value) →
      deepest record = depth + 1 → Diverts catalog table depth message record

theorem Catalog.Diverts.congr {catalog : Catalog} {table : FieldTable} {depth : Nat}
    {message after : Message} {record : Bytes} (h : catalog.Diverts table depth after record)
    (alike : message.Alike after) : catalog.Diverts table depth message record := by
  cases h with
  | item isItem found => exact .item isItem (alike.type ▸ found)
  | field tag placed =>
      refine .field tag (Eq.trans ?_ placed)
      rw [place?, place?, alike.type, alike.extensions]
  | deep tag deep => exact .deep tag deep

namespace MessageOf

variable {store : Store} {depth : Nat} {table : FieldTable} {message : Message} {record : Bytes}

/-! ## Single records -/

/-- Reads a record of a message that is framed by its length. -/
def framedRecord (inside : Option Merger) (depth : Nat) (table : FieldTable) :
    Message → Bytes → Coding (Message × Step) :=
  if table.isMessageSet then mergeSetRecord inside depth else mergeRecord inside depth table none

/-- A complete record is read as a whole or fails, whatever follows it and whatever end tag is
awaited. -/
theorem settles_mergeRecord (depth : Nat) (sound : store.Sound) (held : store.Holds message.type)
    (found : store.catalog.table message.type = .ok table) (complete : Complete record) :
    ∃ result, (∀ after, result = some after → message.Alike after) ∧ ∀ group,
      Settles store (mergeRecord (insideAt depth) depth table group message) record result := by
  obtain ⟨levels, complete⟩ := complete
  obtain ⟨number, wire, value, tag, starts⟩ := complete.exists_tag
  have framed := sound.frames_any
  -- the end tag that is awaited plays no part
  have same : ∀ group more,
      mergeRecord (insideAt depth) depth table group message (record ++ more) =
        mergeRecord (insideAt depth) depth table none message (record ++ more) := by
    intro group more
    rw [mergeRecord_eq (Tag.read_append tag more) starts,
      mergeRecord_eq (Tag.read_append tag more) starts]
  -- a step that goes on has read this record
  have each : ∀ more, ∃ left outcome,
      Yields store (mergeRecord (insideAt depth) depth table none message (record ++ more))
        (left, outcome) ∧
      (outcome = .next more ∧ message.Alike left ∨ ∃ error, outcome = .failed error) := by
    intro more
    have accounts : Ensures store
        (mergeRecord (insideAt depth) depth table none message (record ++ more)) _ :=
      ensures_mergeRecord_accounts sound framed
        (fun fewer _ => frames_mergeAt sound framed fewer) held found (record ++ more)
    obtain ⟨⟨left, outcome⟩, yields, account⟩ := accounts
    refine ⟨left, outcome, yields, ?_⟩
    cases outcome with
    | next rest =>
        obtain ⟨front, split, ⟨_, _, _, -, shape⟩, alike, -⟩ := account
        rw [if_neg (by simp)] at shape
        have whole := complete.mono (Nat.le_refl _) framed.of_eq
        obtain ⟨-, rfl⟩ := whole.eq_of_append_eq shape split
        exact .inl ⟨rfl, alike⟩
    | ended rest =>
        obtain ⟨_, _, none, -⟩ := account
        simp at none
    | failed error => exact .inr ⟨error, rfl⟩
  have advances : Coding.Advances (mergeRecord (insideAt depth) depth table none message) := by
    apply advances_mergeRecord
    cases depth with
    | zero => exact takesGroups_none
    | succ depth => exact takesGroups_mergeAt depth
  obtain ⟨left, outcome, yields, settled⟩ := each []
  rw [List.append_nil] at yields
  rcases settled with ⟨rfl, alike⟩ | ⟨error, rfl⟩
  · refine ⟨some left, ?_, fun group more => ?_⟩
    · rintro _ ⟨⟩
      exact alike
    · rw [same]
      exact advances.yields_append yields more
  · refine ⟨none, by simp, fun group more => ?_⟩
    rw [same]
    obtain ⟨left', outcome', yields', settled'⟩ := each more
    rcases settled' with ⟨rfl, -⟩ | ⟨error', rfl⟩
    -- what is read in front of more bytes is read without them
    · have alone := (advances.yields_alone yields').unique yields
      simp at alone
    · exact ⟨left', error', yields'⟩

/-! ## Records that are passed over -/

/-- A record is one of the grammar with as many levels as groups are open in it. -/
theorem isRecord_iff_deepest_le (complete : Complete record) :
    IsRecord Eq depth record ↔ deepest record ≤ depth := by
  obtain ⟨_, complete⟩ := complete
  exact ⟨fun shape => shape.level.le, fun le => complete.of_deepest.mono le fun _ _ => id⟩

/-- What passing over a record leads to: it is kept, unless its groups nest too deep. -/
def passedOver (depth : Nat) (message : Message) (record : Bytes) : Option Message :=
  if deepest record ≤ depth then some (message.keepUnknown record) else none

theorem alike_of_passedOver {after : Message} (h : passedOver depth message record = some after) :
    message.Alike after := by
  rw [passedOver] at h
  split at h
  · cases h
    exact ⟨rfl, rfl⟩
  · cases h

variable {number : Nat} {wire : WireType} {value : Bytes}
  {step : Bytes → Coding (Message × Step)}

/-- Reading the record is passing over it. -/
theorem settles_of_mergeUnknown (complete : Complete record)
    (tag : Tag.read record = .ok (number, wire, value))
    (reads : ∀ more, Yields store (step (record ++ more))
      (mergeUnknown depth message (record ++ more) number wire (value ++ more))) :
    Settles store step record (passedOver depth message record) := by
  rw [passedOver]
  split
  · next shallow =>
      obtain ⟨_, _, _, tag', skips⟩ := ((isRecord_iff_deepest_le complete).2 shallow).skips
      cases tag.symm.trans tag'
      intro more
      rw [← mergeUnknown_append (skipValue_append skips more)]
      exact reads more
  · next deep =>
      intro more
      have reads := reads more
      rw [mergeUnknown] at reads
      cases skipped : skipValue depth number wire (value ++ more) with
      | error error =>
          simp only [skipped] at reads
          exact ⟨_, _, reads⟩
      | ok rest =>
          -- what was passed over is this record, whose groups nest too deep for it
          obtain ⟨whole, -, same, -, shape⟩ :=
            (completes_of_skipValue skipped).exists_record (Tag.read_append tag more)
          obtain ⟨rfl, -⟩ := complete.eq_of_append_eq ⟨_, shape⟩ same
          exact absurd shape.level.le deep

/-- An ordinary message passes over a record that it has no place for. -/
theorem settles_mergeRecord_unplaced (sound : store.Sound) (held : store.Holds message.type)
    (complete : Complete record) (tag : Tag.read record = .ok (number, wire, value))
    (unplaced : store.catalog.place? table message number wire = none) (group : Option Nat) :
    Settles store (mergeRecord (insideAt depth) depth table group message) record
      (passedOver depth message record) := by
  obtain ⟨_, _, _, tag', starts⟩ := complete.choose_spec.exists_tag
  cases tag.symm.trans tag'
  refine settles_of_mergeUnknown complete tag fun more => ?_
  apply Ensures.yields
  apply ensures_mergeRecord_placed sound held (Tag.read_append tag more) starts
  rw [unplaced]
  exact ensures_pure rfl

/-- A message set passes over what starts like an item, unless the item is one of a registered
extension or nests as deep as it does only because it is not counted itself. -/
theorem settles_mergeSetRecord_item (sound : store.Sound) (complete : Complete record)
    (tag : Tag.read record = .ok (itemNumber, .startGroup, value))
    (plain : ¬ store.catalog.Diverts table depth message record) :
    Settles store (mergeSetRecord (insideAt depth) depth message) record
      (passedOver depth message record) := by
  rw [passedOver]
  split
  · next shallow =>
      have shape := ((isRecord_iff_deepest_le complete).2 shallow).mono (Nat.le_succ depth)
        fun _ _ => id
      obtain ⟨item, alone⟩ := exists_readItem shape tag
      obtain ⟨front, same, reads⟩ := append_of_readItem alone
      rw [List.append_nil] at same
      subst same
      intro more
      rw [mergeSetRecord_item (Tag.read_append tag more), reads more]
      cases item with
      | none =>
          simp only [Bytes.before_append]
          exact yields_pure _
      | some item =>
          have unknown : store.catalog.extension? message.type item.1 = none :=
            Option.eq_none_iff_forall_ne_some.2 fun type found =>
              plain (.item ((isItem_iff tag alone).2 rfl) found)
          have asked := Coding.yields_findExtension sound message.type item.1
          rw [unknown] at asked
          simp only [Bytes.before_append]
          exact asked.bind (yields_pure _)
  · next deep =>
      intro more
      rw [mergeSetRecord_item (Tag.read_append tag more)]
      cases reads : readItem depth (value ++ more) with
      | error error => exact ⟨_, _, yields_pure _⟩
      | ok taken =>
          -- an item can be read with one level more than a group can be passed over with
          obtain ⟨whole, -, same, -, shape⟩ :=
            (completes_of_readItem reads).exists_record (Tag.read_append tag more)
          obtain ⟨rfl, -⟩ := complete.eq_of_append_eq ⟨_, shape⟩ same
          have le := shape.level.le
          exact absurd (.deep tag (by omega)) plain

/-- A record in which the forms of a set do not differ is passed over in the one as in the other. -/
theorem settles_framedRecord (sound : store.Sound) (isSet : table.isMessageSet = true)
    (complete : Complete record) (tag : Tag.read record = .ok (number, wire, value))
    (plain : ¬ store.catalog.Diverts table depth message record) :
    Settles store (framedRecord (insideAt depth) depth table message) record
      (passedOver depth message record) := by
  rw [framedRecord, if_pos isSet]
  by_cases isItem : number = itemNumber ∧ wire = .startGroup
  · obtain ⟨rfl, rfl⟩ := isItem
    exact settles_mergeSetRecord_item sound complete tag plain
  · refine settles_of_mergeUnknown complete tag fun more => ?_
    rw [mergeSetRecord_other (Tag.read_append tag more) isItem]
    exact yields_pure _

/-- A complete record does the same whether or not an end tag is awaited, and with a message set
also if the forms of the set do not differ in it. -/
theorem exists_settles (depth : Nat) (sound : store.Sound) (held : store.Holds message.type)
    (found : store.catalog.table message.type = .ok table) (complete : Complete record)
    (plain : table.isMessageSet = true → ¬ store.catalog.Diverts table depth message record)
    (group : Option Nat) :
    ∃ result, (∀ after, result = some after → message.Alike after) ∧
      Settles store (framedRecord (insideAt depth) depth table message) record result ∧
      Settles store (mergeRecord (insideAt depth) depth table group message) record result := by
  cases isSet : table.isMessageSet with
  | false =>
      obtain ⟨result, alike, settles⟩ := settles_mergeRecord depth sound held found complete
      refine ⟨result, alike, ?_, settles group⟩
      rw [framedRecord, isSet]
      exact settles none
  | true =>
      obtain ⟨number, wire, value, tag, -⟩ := complete.choose_spec.exists_tag
      have unplaced : store.catalog.place? table message number wire = none :=
        Option.eq_none_iff_forall_ne_some.2 fun place placed =>
          plain isSet (.field tag placed)
      exact ⟨_, fun _ => alike_of_passedOver,
        settles_framedRecord sound isSet complete tag (plain isSet),
        settles_mergeRecord_unplaced sound held complete tag unplaced group⟩

/-! ## Runs -/

theorem mergeRecords_append {step : Message → Bytes → Coding (Message × Step)}
    {atEnd : Except Malformed Bytes} {limit : Nat} {front : Bytes} (nonempty : front ≠ [])
    (enough : front.length ≤ limit) (more : Bytes) :
    mergeRecords step atEnd limit message (front ++ more) = (do
      let (message, outcome) ← step message (front ++ more)
      match outcome with
      | .next rest => mergeRecords step atEnd (limit - 1) message rest
      | .ended rest => return (message, .ok rest)
      | .failed error => return (message, .error error)) := by
  cases front with
  | nil => exact absurd rfl nonempty
  | cons byte front =>
      cases limit with
      | zero => simp at enough
      | succ limit => rfl

/-- A run over a single record. -/
theorem yields_mergeRecords_single {step : Message → Bytes → Coding (Message × Step)}
    {after : Message} {failure : Option Malformed} (nonempty : record ≠ [])
    (reads : Yields store (step message record) (after, failure.elim (.next []) .failed)) :
    Yields store (mergeRecords step (.ok []) record.length message record)
      (after, failure.elim (.ok []) .error) := by
  cases record with
  | nil => exact absurd rfl nonempty
  | cons byte record =>
      rw [List.length_cons, mergeRecords]
      apply reads.bind
      cases failure with
      | none => cases record <;> exact yields_pure _
      | some error => exact yields_pure _

/-- A run that starts with a record that fails. -/
theorem ends_mergeRecords_none {step : Message → Bytes → Coding (Message × Step)}
    {atEnd : Except Malformed Bytes} {limit : Nat} (nonempty : record ≠ [])
    (enough : record.length ≤ limit) (settles : Settles store (step message) record none)
    (more rest : Bytes) :
    Ends store (mergeRecords step atEnd limit message (record ++ more)) rest none := by
  obtain ⟨left, error, fails⟩ := settles more
  refine ⟨left, error, ?_⟩
  rw [mergeRecords_append nonempty enough]
  exact fails.bind (yields_pure _)

/-- A run that starts with a record that is read goes on behind it. -/
theorem ends_mergeRecords_some {step : Message → Bytes → Coding (Message × Step)}
    {atEnd : Except Malformed Bytes} {limit : Nat} {after : Message} (nonempty : record ≠ [])
    (enough : record.length ≤ limit) (settles : Settles store (step message) record (some after))
    {more rest : Bytes} {result : Option Message}
    (ends : Ends store (mergeRecords step atEnd (limit - 1) after more) rest result) :
    Ends store (mergeRecords step atEnd limit message (record ++ more)) rest result := by
  rw [mergeRecords_append nonempty enough]
  cases result with
  | some last => exact (settles more).bind ends
  | none =>
      obtain ⟨left, error, fails⟩ := ends
      exact ⟨left, error, (settles more).bind fails⟩

/-- Two runs that read each of some records alike, of which one ends with the bytes and the other
one with an end tag behind them. -/
theorem ends_mergeRecords {one other : Message → Bytes → Coding (Message × Step)}
    {records : List Bytes} {stop rest : Bytes} (nonempty : ∀ record ∈ records, record ≠ [])
    (each : ∀ record ∈ records, ∀ middle, message.Alike middle →
      ∃ result, (∀ after, result = some after → middle.Alike after) ∧
        Settles store (one middle) record result ∧ Settles store (other middle) record result)
    (nonempty' : stop ≠ [])
    (last : ∀ middle, Yields store (other middle (stop ++ rest)) (middle, .ended rest))
    {limit limit' : Nat} (enough : records.flatten.length ≤ limit)
    (enough' : (records.flatten ++ stop).length ≤ limit') (atEnd : Except Malformed Bytes) :
    ∃ result, (∀ after, result = some after → message.Alike after) ∧
      Ends store (mergeRecords one (.ok []) limit message records.flatten) [] result ∧
      Ends store (mergeRecords other atEnd limit' message (records.flatten ++ (stop ++ rest))) rest
        result := by
  induction records generalizing message limit limit' with
  | nil =>
      refine ⟨some message, ?_, ?_, ?_⟩
      · rintro _ ⟨⟩
        exact ⟨rfl, rfl⟩
      · cases limit <;> exact yields_pure _
      · rw [List.flatten_nil, List.nil_append] at enough' ⊢
        rw [mergeRecords_append nonempty' enough']
        exact (last message).bind (yields_pure _)
  | cons record records ih =>
      have long := List.length_pos_iff.2 (nonempty record List.mem_cons_self)
      rw [List.flatten_cons] at enough enough'
      simp only [List.length_append] at enough enough'
      obtain ⟨result, alike, settles, settles'⟩ :=
        each record List.mem_cons_self message ⟨rfl, rfl⟩
      rw [List.flatten_cons, List.append_assoc]
      have starts := nonempty record List.mem_cons_self
      cases result with
      | none =>
          exact ⟨none, by simp, ends_mergeRecords_none starts (by omega) settles _ _,
            ends_mergeRecords_none starts (by omega) settles' _ _⟩
      | some after =>
          have alike := alike after rfl
          have enough : records.flatten.length ≤ limit - 1 := by omega
          have enough' : (records.flatten ++ stop).length ≤ limit' - 1 := by
            rw [List.length_append]
            omega
          obtain ⟨result, alike', ends, ends'⟩ :=
            ih (fun record mem => nonempty record (List.mem_cons_of_mem _ mem))
              (fun record mem middle alike' =>
                each record (List.mem_cons_of_mem _ mem) middle (alike.trans alike'))
              enough enough'
          exact ⟨result, fun last eq => alike.trans (alike' last eq),
            ends_mergeRecords_some starts (by omega) settles ends,
            ends_mergeRecords_some starts (by omega) settles' ends'⟩

/-! ## Frames -/

section

variable (sound : store.Sound) (held : store.Holds message.type) {number : Nat}
  {records : List Bytes} {stop : Bytes}
  (complete : ∀ record ∈ records, Complete record)
  (last : Tag.read stop = .ok (number, .endGroup, [])) (rest : Bytes)

include sound held complete last

/-- A body does the same at the end of the bytes as in front of the end tag. -/
theorem ends_mergeBody (depth : Nat) (found : store.catalog.table message.type = .ok table)
    (plain : table.isMessageSet = true →
      ∀ record ∈ records, ¬ store.catalog.Diverts table depth message record) :
    ∃ result, (∀ after, result = some after → message.Alike after) ∧
      Ends store (mergeBody (insideAt depth) depth table none message records.flatten) [] result ∧
      Ends store (mergeBody (insideAt depth) depth table (some number) message
        (records.flatten ++ (stop ++ rest))) rest result := by
  have start : message.Alike message.clearCachedSize := ⟨rfl, rfl⟩
  have nonempty : ∀ record ∈ records, record ≠ [] := by
    intro record mem
    obtain ⟨_, shape⟩ := complete record mem
    obtain ⟨_, _, _, tag, -⟩ := shape.exists_tag
    exact Tag.ne_nil_of_read tag
  have ended : ∀ middle, Yields store
      (mergeRecord (insideAt depth) depth table (some number) middle (stop ++ rest))
      (middle, .ended rest) := by
    intro middle
    rw [mergeRecord, Tag.read_append last rest]
    simp only [if_true]
    exact yields_pure _
  have each : ∀ record ∈ records, ∀ middle, message.clearCachedSize.Alike middle →
      ∃ result, (∀ after, result = some after → middle.Alike after) ∧
        Settles store (framedRecord (insideAt depth) depth table middle) record result ∧
        Settles store (mergeRecord (insideAt depth) depth table (some number) middle) record
          result := by
    intro record mem middle alike
    have alike := start.trans alike
    have held' : store.Holds middle.type := alike.type ▸ held
    have found' : store.catalog.table middle.type = .ok table := alike.type ▸ found
    exact exists_settles depth sound held' found' (complete record mem)
      (fun isSet diverts => plain isSet record mem (diverts.congr alike)) (some number)
  have enough : (records.flatten ++ stop).length ≤
      (records.flatten ++ (stop ++ rest)).length := by simp
  obtain ⟨result, alike, ends, ends'⟩ :=
    ends_mergeRecords nonempty each (Tag.ne_nil_of_read last) ended (Nat.le_refl _) enough
      (.error ((Malformed.here .unterminatedGroup).under (.field number)))
  exact ⟨result, fun after eq => start.trans (alike after eq), ends, ends'⟩

/-- A nested message does the same in both frames. -/
theorem ends_mergeAt (depth : Nat)
    (plain : message.type.descriptor.messageSet = true → ∀ table,
      store.catalog.table message.type = .ok table →
        ∀ record ∈ records, ¬ store.catalog.Diverts table depth message record) :
    ∃ result, (∀ after, result = some after → message.Alike after) ∧
      Ends store (mergeAt depth none message records.flatten) [] result ∧
      Ends store (mergeAt depth (some number) message (records.flatten ++ (stop ++ rest))) rest
        result := by
  rw [mergeAt_eq]
  simp only [mergeInner]
  have asked := Coding.yields_table sound held
  cases found : store.catalog.table message.type with
  | error error =>
      rw [found] at asked
      exact ⟨none, by simp, ⟨_, _, asked.bind (yields_pure _)⟩, ⟨_, _, asked.bind (yields_pure _)⟩⟩
  | ok table =>
      rw [found] at asked
      have sets := (sound.builds_of_table held found).isMessageSet
      obtain ⟨result, alike, ends, ends'⟩ :=
        ends_mergeBody sound held complete last rest depth found
          fun isSet => plain (sets ▸ isSet) table found
      refine ⟨result, alike, ?_⟩
      cases result with
      | some after => exact ⟨asked.bind ends, asked.bind ends'⟩
      | none =>
          obtain ⟨left, error, fails⟩ := ends
          obtain ⟨left', error', fails'⟩ := ends'
          exact ⟨⟨left, error, asked.bind fails⟩, left', error', asked.bind fails'⟩

end

end MessageOf

/-! ## Fields that hold a nested message -/

/-- The value of a field that holds one message. -/
def FieldCodec.sole (codec : FieldCodec) (inner : Message) : Value :=
  if codec.arrangement.isRepeated then .list [.message inner] else .message inner

/-- The field of a registered type holds messages of the other type in a frame of the kind. -/
structure Store.Encloses (store : Store) (outer : MessageType) (entry : FieldEntry) (kind : Kind)
    (type : MessageType) : Prop where
  held : store.Holds outer
  declared : ∃ table, store.catalog.table outer = .ok table ∧ entry ∈ table.entries
  kind : entry.codec.kind = kind
  value : entry.codec.valueType = some type

/-- The computation leads to a message whose field holds the nested message; without one, it
fails. -/
def FieldEntry.Decodes (store : Store) (entry : FieldEntry)
    (run : Coding (Except Failure Message)) : Option Message → Prop
  | some inner => ∃ message, Yields store run (.ok message) ∧
      message.get? entry.number = some (entry.codec.sole inner)
  | none => ∃ failure, Yields store run (.error failure)

section

variable {store : Store} {outer type : MessageType} {entry : FieldEntry} {kind : Kind}
  {wire : WireType} {head content : Bytes}

theorem Payload.readDelimited_append {size body : Bytes}
    (h : Varint.read size = some (body.length, [])) (rest : Bytes) :
    readDelimited (size ++ (body ++ rest)) = .ok (body, rest) := by
  obtain ⟨front, -, same, reads⟩ := Varint.append_of_read h
  rw [List.append_nil] at same
  rw [readDelimited, same, reads]
  simp only [Bytes.split?_append]

namespace FieldCodec

variable {codec : FieldCodec} {depth : Nat} {bytes : Bytes} {inner : Message}

/-- A message that is read into an unset field is the only one there. -/
theorem yields_read_sole (nested : codec.kind.isMessage = true)
    (value : codec.valueType = some type)
    (reads : Yields store (codec.readNested (MessageOf.insideAt depth) wire type.newMessage bytes)
      (inner, .ok [])) :
    Yields store (codec.read (MessageOf.insideAt depth) wire none bytes)
      (some (codec.sole inner), .ok []) := by
  rw [read, sole]
  simp only [nested, value, Bool.not_true, Bool.false_eq_true, if_false]
  cases codec.arrangement.isRepeated <;> exact reads.bind (yields_pure _)

theorem yields_read_failed (nested : codec.kind.isMessage = true)
    (value : codec.valueType = some type) {error : Malformed}
    (reads : Yields store (codec.readNested (MessageOf.insideAt depth) wire type.newMessage bytes)
      (inner, .error error)) :
    ∃ slot error', Yields store (codec.read (MessageOf.insideAt depth) wire none bytes)
      (slot, .error error') := by
  rw [read]
  simp only [nested, value, Bool.not_true, Bool.false_eq_true, if_false]
  cases codec.arrangement.isRepeated with
  | true => exact ⟨_, _, reads.bind (yields_pure _)⟩
  | false => exact ⟨_, _, reads.bind (yields_pure _)⟩

end FieldCodec

namespace MessageType

theorem clearCachedSize_newMessage : outer.newMessage.clearCachedSize = outer.newMessage := by
  rw [MessageOf.clearCachedSize, newMessage]
  cases outer.storage.sizeCache <;> rfl

/-- A new message that is read from a single record. -/
theorem yields_decode_of_mergeRecord (sound : store.Sound) (held : store.Holds outer)
    {table : FieldTable} (found : store.catalog.table outer = .ok table)
    (regular : table.isMessageSet = false) {bytes : Bytes} (nonempty : bytes ≠ [])
    {after : Message} {failure : Option Malformed}
    (step : Yields store
      (MessageOf.mergeRecord (MessageOf.insideAt maxNesting) maxNesting table none outer.newMessage
        bytes) (after, failure.elim (.next []) .failed)) :
    Yields store (outer.decode bytes)
      (failure.elim (.ok after) fun error => .error (.decode error)) := by
  have merged : Yields store (outer.merge outer.newMessage bytes) (after, failure.map .decode) := by
    rw [merge, type_newMessage, if_neg (not_not_intro rfl)]
    apply (Coding.yields_table sound held).bind
    rw [found]
    have run := MessageOf.yields_mergeRecords_single nonempty step
    rw [← clearCachedSize_newMessage] at run
    simp only [MessageOf.mergeBody, regular, Bool.false_eq_true, if_false]
    apply run.bind
    cases failure <;> exact yields_pure _
  rw [decode]
  apply merged.bind
  cases failure <;> exact yields_pure _

/-- A new message that is read from a record of one of its places. -/
theorem yields_decode_place (sound : store.Sound) (held : store.Holds outer) {table : FieldTable}
    (found : store.catalog.table outer = .ok table) (regular : table.isMessageSet = false)
    {number : Nat} (tag : Tag.read head = .ok (number, wire, [])) (starts : wire ≠ .endGroup)
    {place : Place} (placed : store.catalog.place? table outer.newMessage number wire = some place)
    {slot : Option Value} (failure : Option Malformed)
    (read : Yields store (place.codec.read (MessageOf.insideAt maxNesting) wire
      (place.held? outer.newMessage) content) (slot, failure.elim (.ok []) .error)) :
    Yields store (outer.decode (head ++ content))
      (failure.elim (.ok (place.leave outer.newMessage slot none))
        fun error => .error (.decode (error.under (.field place.number)))) := by
  have nonempty : head ++ content ≠ [] := by simp [Tag.ne_nil_of_read tag]
  have step : Yields store
      (MessageOf.mergeRecord (MessageOf.insideAt maxNesting) maxNesting table none outer.newMessage
        (head ++ content))
      (place.leave outer.newMessage slot failure,
        (failure.map (·.under (.field place.number))).elim (.next []) .failed) := by
    apply Ensures.yields
    apply MessageOf.ensures_mergeRecord_placed sound held (Tag.read_append tag content) starts
    rw [placed]
    refine Yields.ensures (MessageOf.yields_mergePlace read) ?_
    cases failure <;> rfl
  have decoded := yields_decode_of_mergeRecord sound held found regular nonempty step
  cases failure <;> exact decoded

end MessageType

namespace Store.Encloses

variable {table : FieldTable} {inner : Message}

/-- Types with fields are no message sets. -/
theorem isMessageSet (h : store.Encloses outer entry kind type) (sound : store.Sound)
    (found : store.catalog.table outer = .ok table) (mem : entry ∈ table.entries) :
    table.isMessageSet = false := by
  have builds := sound.builds_of_table h.held found
  obtain ⟨field, -, declared, -⟩ := builds.field_of_mem mem
  by_contra isSet
  have none := (builds.shape_of_messageSet (by simpa using isSet)).2.2
  simp [none] at declared

/-- The field takes records of the wire type of its frame. -/
theorem place? (h : store.Encloses outer entry kind type) (sound : store.Sound)
    (found : store.catalog.table outer = .ok table) (mem : entry ∈ table.entries)
    (message : Message) :
    store.catalog.place? table message entry.number kind.wireType = some (.field entry) := by
  have declared := (sound.builds_of_table h.held found).entry?_eq_some_iff.2 ⟨mem, rfl⟩
  have accepts : entry.codec.accepts kind.wireType = true :=
    FieldCodec.accepts_iff.2 (.inl (by rw [h.kind]))
  rw [Catalog.place?, declared]
  simp only [accepts, if_true]

/-- Nothing is in the field of a new message. -/
theorem slot?_newMessage (h : store.Encloses outer entry kind type)
    (nested : kind.isMessage = true) (sound : store.Sound)
    (found : store.catalog.table outer = .ok table) (mem : entry ∈ table.entries) :
    outer.newMessage.slot? entry.position = none := by
  obtain ⟨field, valueType, declared, -, eq⟩ :=
    (sound.builds_of_table h.held found).field_of_mem mem
  have same : field.kind = kind := by
    rw [← h.kind, eq]
    rfl
  rw [outer.slot?_newMessage declared, MessageType.initialSlot, same]
  split
  · rfl
  · cases kind <;> simp [Kind.isMessage] at nested <;> rfl

/-- What was read into the field is found there. -/
theorem get?_leave (h : store.Encloses outer entry kind type) (sound : store.Sound)
    (found : store.catalog.table outer = .ok table) (mem : entry ∈ table.entries)
    (slot : Option Value) :
    ((Place.field entry).leave outer.newMessage slot none).get? entry.number = slot := by
  have builds := sound.builds_of_table h.held found
  obtain ⟨field, valueType, declared, -, -⟩ := builds.field_of_mem mem
  have inside : entry.position < outer.newMessage.slots.length := by
    rw [MessageType.newMessage, List.length_map]
    exact (List.getElem?_eq_some_iff.1 declared).1
  have kept : (store.registry outer.registry).Builds
      ((Place.field entry).leave outer.newMessage slot none).type table := by
    rw [Place.type_leave]
    exact builds
  rw [kept.get?_of_mem mem, Place.slot?_leave]
  simp [MessageType.areSiblings_self, inside]

/-- Decoding the one record of the field leads to the nested message, or fails as that does. -/
theorem decodes (h : store.Encloses outer entry kind type) (nested : kind.isMessage = true)
    (sound : store.Sound) (tag : Tag.read head = .ok (entry.number, kind.wireType, []))
    {result : Option Message}
    (reads : Ends store (entry.codec.readNested (MessageOf.insideAt maxNesting) kind.wireType
      type.newMessage content) [] result) :
    entry.Decodes store (outer.decode (head ++ content)) result := by
  obtain ⟨table, found, mem⟩ := h.declared
  have starts : kind.wireType ≠ .endGroup := by cases kind <;> simp [Kind.wireType]
  have isMessage : entry.codec.kind.isMessage = true := h.kind ▸ nested
  have regular := h.isMessageSet sound found mem
  have placed := h.place? sound found mem outer.newMessage
  have unset : (Place.field entry).held? outer.newMessage = none :=
    h.slot?_newMessage nested sound found mem
  -- the record is read into the field, in which nothing is
  cases result with
  | some inner =>
      have read := FieldCodec.yields_read_sole isMessage h.value reads
      rw [← unset] at read
      have decoded : Yields store (outer.decode (head ++ content)) _ :=
        MessageType.yields_decode_place sound h.held found regular tag starts placed none read
      exact ⟨_, decoded, h.get?_leave sound found mem _⟩
  | none =>
      obtain ⟨left, error, fails⟩ := reads
      obtain ⟨slot, error', read⟩ := FieldCodec.yields_read_failed isMessage h.value fails
      rw [← unset] at read
      exact ⟨_, MessageType.yields_decode_place sound h.held found regular tag starts placed
        (some error') read⟩

end Store.Encloses

end

/-! ## The two frames -/

section

variable {store : Store} {type : MessageType} {depth : Nat} {target : Message}
  {body : Bytes} {result : Option Message}

theorem FieldCodec.ends_readNested_framed (codec : FieldCodec) {size : Bytes}
    (length : Varint.read size = some (body.length, []))
    (ends : Ends store (MessageOf.mergeAt depth none target body) [] result) :
    Ends store (codec.readNested (some (MessageOf.mergeAt depth)) .lengthDelimited target
      (size ++ body)) [] result := by
  have split := Payload.readDelimited_append length []
  rw [List.append_nil] at split
  simp only [readNested, split]
  cases result with
  | some after => exact Yields.bind ends (yields_pure _)
  | none =>
      obtain ⟨left, error, fails⟩ := ends
      exact ⟨left, error, fails.bind (yields_pure _)⟩

/-- A nested message does not depend on its frame. Decoding it from behind its length and decoding
it from between group tags both fail, or both succeed with equal messages. A message set is read in
two forms in the two frames, so that this holds of bodies in which the forms do not differ. -/
theorem MessageType.decode_frames (reachable : store.Reachable) {framed grouped : MessageType}
    {field group : FieldEntry} (encloses : store.Encloses framed field .message type)
    (encloses' : store.Encloses grouped group .group type) {records : List Bytes}
    (complete : ∀ record ∈ records, Complete record)
    (plain : type.descriptor.messageSet = true → ∀ table, store.catalog.table type = .ok table →
      ∀ record ∈ records, ¬ store.catalog.Diverts table (maxNesting - 1) type.newMessage record)
    {head size start stop : Bytes} (tag : Tag.read head = .ok (field.number, .lengthDelimited, []))
    (length : Varint.read size = some (records.flatten.length, []))
    (first : Tag.read start = .ok (group.number, .startGroup, []))
    (last : Tag.read stop = .ok (group.number, .endGroup, [])) :
    let one := ((framed.decode (head ++ (size ++ records.flatten))).run store).1
    let other := ((grouped.decode (start ++ (records.flatten ++ stop))).run store).1
    (∃ failure failure', one = .error failure ∧ other = .error failure') ∨
      ∃ inner message message', one = .ok message ∧ other = .ok message' ∧ inner.type = type ∧
        message.get? field.number = some (field.codec.sole inner) ∧
        message'.get? group.number = some (group.codec.sole inner) := by
  intro one other
  have sound := reachable.sound
  have held : store.Holds type.newMessage.type := by
    obtain ⟨table, found, mem⟩ := encloses.declared
    have builds := sound.builds_of_table encloses.held found
    exact sound.holds_of_mem (builds.mem_types_of_mem mem encloses.value)
  obtain ⟨result, alike, ends, ends'⟩ :=
    MessageOf.ends_mergeAt sound held complete last [] (maxNesting - 1) plain
  rw [List.append_nil] at ends'
  have read := FieldCodec.ends_readNested_framed field.codec length ends
  have decodes := encloses.decodes rfl sound tag read
  have decodes' := encloses'.decodes rfl sound first ends'
  cases result with
  | none =>
      obtain ⟨failure, yields⟩ := decodes
      obtain ⟨failure', yields'⟩ := decodes'
      exact .inl ⟨failure, failure', yields.run, yields'.run⟩
  | some inner =>
      obtain ⟨message, yields, holds⟩ := decodes
      obtain ⟨message', yields', holds'⟩ := decodes'
      exact .inr ⟨inner, message, message', yields.run, yields'.run, (alike inner rfl).type, holds,
        holds'⟩

end

/-! ## Sets and nodes in groups -/

/-- A type with a group for sets and a group for nodes. -/
def groupHolderType : MessageType :=
  ⟨⟨"a.GroupHolder", .proto2,
    [{ FieldDescriptor.plain "set" 1 .group with messageType := some "a.Set" },
      { FieldDescriptor.plain "node" 2 .group with messageType := some "a.Node" }], [], [], false⟩,
    .full, ⟨0⟩⟩

/-- The store of sets with a type that has them behind their length, and with that type. -/
def frameStore : Store :=
  ⟨[{ holderStore.registry ⟨0⟩ with types := [nodeType, setType, holderType, groupHolderType] }]⟩

theorem reachable_frameStore : frameStore.Reachable := by
  have typed : (holderStore.registry ⟨0⟩).register groupHolderType.descriptor .full =
      .ok (groupHolderType, frameStore.registry ⟨0⟩) := rfl
  exact .register reachable_holderStore typed

theorem encloses_holder :
    frameStore.Encloses holderType ⟨0, ⟨1, .message, .explicit, some setType⟩, true, false, none⟩
      .message setType :=
  ⟨List.mem_cons_of_mem _ (List.mem_cons_of_mem _ List.mem_cons_self),
    ⟨_, rfl, List.mem_cons_self⟩, rfl, rfl⟩

theorem encloses_node :
    frameStore.Encloses nodeType ⟨1, ⟨2, .message, .explicit, some nodeType⟩, true, false, none⟩
      .message nodeType :=
  ⟨List.mem_cons_self, ⟨_, rfl, List.mem_cons_of_mem _ List.mem_cons_self⟩, rfl, rfl⟩

theorem holds_groupHolderType : frameStore.Holds groupHolderType :=
  List.mem_cons_of_mem _ (List.mem_cons_of_mem _ (List.mem_cons_of_mem _ List.mem_cons_self))

theorem encloses_groupHolder :
    frameStore.Encloses groupHolderType ⟨0, ⟨1, .group, .explicit, some setType⟩, true, false, none⟩
      .group setType :=
  ⟨holds_groupHolderType, ⟨_, rfl, List.mem_cons_self⟩, rfl, rfl⟩

theorem encloses_groupHolder_node :
    frameStore.Encloses groupHolderType
      ⟨1, ⟨2, .group, .explicit, some nodeType⟩, true, false, none⟩ .group nodeType :=
  ⟨holds_groupHolderType, ⟨_, rfl, List.mem_cons_of_mem _ List.mem_cons_self⟩, rfl, rfl⟩

namespace MessageType

/-- The records of a set that its two forms pass over: one that is no item, and an item of an
extension that is not registered. -/
theorem not_diverts_strayRecords {table : FieldTable}
    (found : frameStore.catalog.table setType = .ok table) :
    ∀ record ∈ [[24, 9], [11, 16, 6, 26, 0, 12]],
      ¬ frameStore.catalog.Diverts table (maxNesting - 1) setType.newMessage record := by
  have tag : Tag.read [24, 9] = .ok (3, .varint, [9]) := by cbv
  have tag' : Tag.read [11, 16, 6, 26, 0, 12] = .ok (1, .startGroup, [16, 6, 26, 0, 12]) := by cbv
  have reads : MessageOf.readItem 0 [16, 6, 26, 0, 12] = .ok (some (6, []), []) := by cbv
  cases found
  rw [List.forall_mem_cons, List.forall_mem_singleton]
  constructor
  · rintro (⟨⟨start, inner, stop, same, first, -⟩, -⟩ | ⟨read, placed⟩ | ⟨read, -⟩)
    · have read := Tag.read_append first (inner.flatten ++ stop)
      rw [← same, tag] at read
      cases read
    · cases tag.symm.trans read
      cases placed
    · cases tag.symm.trans read
  · rintro (⟨isItem, registered⟩ | ⟨read, placed⟩ | ⟨-, deep⟩)
    · cases (MessageOf.isItem_iff tag' reads).1 isItem
      cases registered
    · cases tag'.symm.trans read
      cases placed
    · exact absurd deep (by decide)

/-- A node with a weight, and a set with records that it passes over, in the two frames. -/
theorem decode_frames_groupHolder :
    (∃ inner message message',
      ((nodeType.decode [18, 2, 8, 5]).run frameStore).1 = .ok message ∧
        ((groupHolderType.decode [19, 8, 5, 20]).run frameStore).1 = .ok message' ∧
        inner.type = nodeType ∧ message.get? 2 = some (.message inner) ∧
        message'.get? 2 = some (.message inner)) ∧
    ∃ inner message message',
      ((holderType.decode [10, 8, 24, 9, 11, 16, 6, 26, 0, 12]).run frameStore).1 = .ok message ∧
        ((groupHolderType.decode [11, 24, 9, 11, 16, 6, 26, 0, 12, 12]).run frameStore).1 =
          .ok message' ∧
        inner.type = setType ∧ message.get? 1 = some (.message inner) ∧
        message'.get? 1 = some (.message inner) := by
  have weight : Complete [8, 5] := ⟨0, isRecord_iff.2 ⟨1, .varint, [5], by cbv, by cbv⟩⟩
  have stray : Complete [24, 9] := ⟨0, isRecord_iff.2 ⟨3, .varint, [9], by cbv, by cbv⟩⟩
  have item : Complete [11, 16, 6, 26, 0, 12] :=
    ⟨1, isRecord_iff.2 ⟨1, .startGroup, [16, 6, 26, 0, 12], by cbv, by cbv⟩⟩
  constructor
  · have head : Tag.read [18] = .ok (2, .lengthDelimited, []) := by cbv
    have size : Varint.read [2] = some (2, []) := by cbv
    have start : Tag.read [19] = .ok (2, .startGroup, []) := by cbv
    have stop : Tag.read [20] = .ok (2, .endGroup, []) := by cbv
    obtain ⟨failure, -, fails, -⟩ | same :=
      decode_frames reachable_frameStore encloses_node encloses_groupHolder_node
        (List.forall_mem_singleton.2 weight) (by simp [nodeType, nodeDescriptor]) head size start
        stop
    · cases fails
    · exact same
  · have head : Tag.read [10] = .ok (1, .lengthDelimited, []) := by cbv
    have size : Varint.read [8] = some (8, []) := by cbv
    have start : Tag.read [11] = .ok (1, .startGroup, []) := by cbv
    have stop : Tag.read [12] = .ok (1, .endGroup, []) := by cbv
    have complete : ∀ record ∈ [[24, 9], [11, 16, 6, 26, 0, 12]], Complete record :=
      List.forall_mem_cons.2 ⟨stray, List.forall_mem_singleton.2 item⟩
    obtain ⟨failure, -, fails, -⟩ | same :=
      decode_frames reachable_frameStore encloses_holder encloses_groupHolder complete
        (fun _ _ => not_diverts_strayRecords) head size start stop
    · cases fails
    · exact same

/-- An item of a set is taken behind the length of the set, and kept as unknown bytes between the
tags of a group. -/
theorem not_decode_frames :
    frameStore.Reachable ∧ Complete [11, 16, 5, 26, 0, 12] ∧
      frameStore.Encloses holderType ⟨0, ⟨1, .message, .explicit, some setType⟩, true, false, none⟩
        .message setType ∧
      frameStore.Encloses groupHolderType
        ⟨0, ⟨1, .group, .explicit, some setType⟩, true, false, none⟩ .group setType ∧
      ∃ message message' set set',
        ((holderType.decode [10, 6, 11, 16, 5, 26, 0, 12]).run frameStore).1 = .ok message ∧
          ((groupHolderType.decode [11, 11, 16, 5, 26, 0, 12, 12]).run frameStore).1 =
            .ok message' ∧
          message.get? 1 = some (.message set) ∧ message'.get? 1 = some (.message set') ∧
          set.attached = [⟨itemType, .message nodeType.newMessage⟩] ∧ set.unknown = some [] ∧
          set'.attached = [] ∧ set'.unknown = some [11, 16, 5, 26, 0, 12] := by
  have complete : Complete [11, 16, 5, 26, 0, 12] :=
    ⟨1, isRecord_iff.2 ⟨1, .startGroup, [16, 5, 26, 0, 12], by cbv, by cbv⟩⟩
  exact ⟨reachable_frameStore, complete, encloses_holder, encloses_groupHolder, _, _, _, _, rfl,
    rfl, rfl, rfl, rfl, rfl, rfl, rfl⟩

end MessageType

end ProtoWire
