import ProtoWire.Proofs.Message.Change
import ProtoWire.Proofs.Message.Conservation
import ProtoWire.Proofs.Message.Streaming

/-!
# Merging record by record

Each record that can be merged makes a change that depends on nothing but the place it is read into
(`Store.Confines`). A merge succeeds if its input is a sequence of records that can be read one
after another, and only then (`MessageType.ensures_merge_readsAll`,
`MessageType.yields_merge_of_readsAll`); their changes are what it leaves (`Store.ReadsAll`).
-/

set_option autoImplicit false

namespace ProtoWire

open Coding (Yields Ensures Advances yields_pure ensures_pure)

theorem Coding.Yields.unique {α : Type} {store : Store} {program : Coding α} {first second : α}
    (h : Yields store program first) (h' : Yields store program second) : first = second :=
  h.run.symm.trans h'.run

namespace Coding.Advances

variable {store : Store} {reader : Bytes → Coding (Message × Step)} {after : Message}
  {record rest : Bytes}

/-- A record that is read alone is read in the same way whatever follows it. -/
theorem yields_append (advances : Advances reader)
    (reads : Yields store (reader record) (after, .next [])) (more : Bytes) :
    Yields store (reader (record ++ more)) (after, .next more) := by
  intro later grows
  obtain ⟨eq, grows'⟩ := reads later grows
  obtain ⟨front, -, same, run⟩ := advances later record after (.next []) [] _ (Prod.ext eq rfl) rfl
  rw [List.append_nil] at same
  subst same
  rw [run more]
  exact ⟨rfl, grows'⟩

/-- A record that is read in front of others is read in the same way without them. -/
theorem yields_alone (advances : Advances reader)
    (reads : Yields store (reader (record ++ rest)) (after, .next rest)) :
    Yields store (reader record) (after, .next []) := by
  intro later grows
  obtain ⟨eq, grows'⟩ := reads later grows
  obtain ⟨front, -, same, run⟩ :=
    advances later (record ++ rest) after (.next rest) rest _ (Prod.ext eq rfl) rfl
  obtain rfl := List.append_cancel_right same
  have alone := run []
  rw [List.append_nil] at alone
  rw [alone]
  exact ⟨rfl, grows'⟩

end Coding.Advances

/-! ## Single records -/

/-- What says that a record makes a change of a kind: it has a place in the message or is an item
of a message set, or nothing takes it. -/
inductive Catalog.Makes (catalog : Catalog) (table : FieldTable) (message : Message)
    (record : Bytes) : Change → Prop
  | place {number : Nat} {wire : WireType} {value : Bytes} {place : Place} {slot : Option Value} :
      table.isMessageSet = false → Tag.read record = .ok (number, wire, value) →
      catalog.place? table message number wire = some place →
      Makes catalog table message record (.fill place slot)
  | item {value : Bytes} {place : Place} {slot : Option Value} :
      table.isMessageSet = true →
      Tag.read record = .ok (MessageOf.itemNumber, .startGroup, value) →
      Makes catalog table message record (.fill place slot)
  | keep : catalog.takes table table.isMessageSet maxNesting message record = false →
      Makes catalog table message record (.keep record)

/-- Reads a record of a message that is not framed as a group. -/
def MessageOf.readRecord (table : FieldTable) : Message → Bytes → Coding (Message × Step) :=
  if table.isMessageSet then mergeSetRecord (insideAt maxNesting) maxNesting
  else mergeRecord (insideAt maxNesting) maxNesting table none

/-- The record makes the change, in the message and in every other one that holds the same where
the change reads. -/
structure Store.Confines (store : Store) (table : FieldTable) (message : Message) (record : Bytes)
    (change : Change) : Prop where
  makes : store.catalog.Makes table message record change
  yields : ∀ other, message.Alike other → change.Sees message other →
    Yields store (MessageOf.readRecord table other record) (change.apply other, .next [])

section

variable {store : Store} {types : MessageType → Prop} {table : FieldTable} {message after : Message}
  {record : Bytes} {wire : WireType} {rest : Bytes}

namespace MessageOf

variable {inside : Option Merger}

theorem yields_mergePlace {place : Place} {slot : Option Value} {outcome : Except Malformed Bytes}
    (read : Yields store (place.codec.read inside wire (place.held? message) rest)
      (slot, outcome)) :
    Yields store (mergePlace inside place message wire rest)
      (place.leave message slot (failure? outcome),
        match outcome with
        | .error error => .failed (error.under (.field place.number))
        | .ok rest => .next rest) := by
  rw [mergePlace]
  apply read.bind
  cases outcome <;> exact yields_pure _

theorem yields_mergeItem {type : ExtensionType} {valueType : MessageType} {merge : Merger}
    {body : Bytes} {inner : Message} {outcome : Except Malformed Bytes}
    (value : type.valueType = some valueType)
    (merged : Yields store
      (merge none (FieldCodec.startingMessage valueType
        ((message.extension? type.number).map AttachedOf.value)) body) (inner, outcome)) :
    Yields store (mergeItem (some merge) type message body)
      (message.attach ⟨type, .message inner⟩,
        (failure? outcome).map (·.under (.field type.number))) := by
  rw [mergeItem, value]
  apply merged.bind
  cases outcome <;> exact yields_pure _

/-- A record that is passed over to its end is kept. -/
theorem mergeUnknown_eq {depth number : Nat}
    (h : mergeUnknown depth message record number wire rest = (after, .next [])) (other : Message) :
    mergeUnknown depth other record number wire rest = (other.keepUnknown record, .next []) := by
  simp only [mergeUnknown] at h ⊢
  have whole : record.before [] = record := by simpa using Bytes.before_append record []
  cases skips : skipValue depth number wire rest with
  | error error => simp [skips] at h
  | ok tail =>
      simp only [skips, Prod.mk.injEq, Step.next.injEq] at h
      obtain ⟨-, rfl⟩ := h
      simp only [whole]

section

variable (sound : store.Sound) (framed : store.Frames Eq types) (known : types message.type)
  (found : store.catalog.table message.type = .ok table)

include sound framed known found

/-- A record that is read into a place leaves there what depends on what was there. -/
theorem exists_change_place (regular : table.isMessageSet = false) (complete : Complete record)
    (reads : Yields store (readRecord table message record) (after, .next [])) :
    ∃ change, store.Confines table message record change ∧ after = change.apply message := by
  obtain ⟨depth, complete⟩ := complete
  obtain ⟨number, wire, value, tag, starts⟩ := complete.exists_tag
  -- reading the record in a message of this type is reading it into its place
  have step : ∀ other, message.Alike other → ∀ result,
      Yields store (mergePlaced (insideAt maxNesting) maxNesting
        (store.catalog.place? table message number wire) other record number wire value) result →
      Yields store (readRecord table other record) result := by
    intro other alike result placed
    have held := framed.held _ known
    have same : store.catalog.place? table other number wire =
        store.catalog.place? table message number wire := by
      simp only [Catalog.place?, alike.type, alike.extensions]
    rw [readRecord, if_neg (by simp [regular])]
    apply Ensures.yields
    apply ensures_mergeRecord_placed sound (alike.type ▸ held) tag starts
    rw [same]
    exact placed.ensures rfl
  cases placed : store.catalog.place? table message number wire with
  | none =>
      simp only [placed, mergePlaced] at step
      have here := step message ⟨rfl, rfl⟩ _ (yields_pure _)
      have skipped := mergeUnknown_eq (here.unique reads)
      refine ⟨.keep record, ⟨.keep ?_, ?_⟩, ?_⟩
      · simp [Catalog.takes, regular, tag, placed]
      · intro other alike _
        have there := step other alike _ (yields_pure _)
        rwa [skipped other] at there
      · have same := here.unique reads
        rw [skipped message] at same
        exact (Prod.mk.inj same).1.symm
  | some place =>
      simp only [placed, mergePlaced] at step
      obtain ⟨ends, accepts, values⟩ := framed.of_place? sound known found placed
      have frames : ∀ fewer, maxNesting = fewer + 1 →
          Merger.Frames store Eq types fewer (mergeAt fewer) :=
        fun fewer _ => frames_mergeAt sound framed fewer
      have total : Ensures store (place.codec.read (insideAt maxNesting) wire
          (place.held? message) value) fun _ => True :=
        (FieldCodec.ensures_read_completes frames ends accepts values _).mono fun _ _ => trivial
      obtain ⟨⟨slot, outcome⟩, read, -⟩ := total
      have same := (step message ⟨rfl, rfl⟩ _ (yields_mergePlace read)).unique reads
      cases outcome with
      | error error => simp at same
      | ok tail =>
          simp only [Prod.mk.injEq, Step.next.injEq] at same
          obtain ⟨rfl, rfl⟩ := same
          refine ⟨.fill place slot, ⟨.place regular tag placed, ?_⟩, rfl⟩
          intro other alike sees
          have held : place.held? other = place.held? message := sees
          rw [← held] at read
          exact step other alike _ (yields_mergePlace read)

omit found in
/-- An item leaves in its extension what depends on the message that was there. -/
theorem exists_change_item {named : Nat} {extension : ExtensionType}
    (registered : store.catalog.extension? message.type named = some extension) {body : Bytes}
    (reads : Yields store (mergeItem (insideAt maxNesting) extension message body) (after, none)) :
    ∃ place slot, after = (Change.fill place slot).apply message ∧
      ∀ other, (Change.fill place slot).Sees message other →
        Yields store (mergeItem (insideAt maxNesting) extension other body)
          ((Change.fill place slot).apply other, none) := by
  cases value : extension.valueType with
  | none =>
      rw [mergeItem, value] at reads
      simpa using (yields_pure _).unique reads
  | some valueType =>
      have inner := framed.value _ known _ extension registered valueType value
      obtain ⟨⟨merged, outcome⟩, read, -⟩ := frames_mergeAt sound framed (maxNesting - 1) none
        (FieldCodec.startingMessage valueType
          ((message.extension? extension.number).map AttachedOf.value)) body (by simpa using inner)
      have same := (yields_mergeItem value read).unique reads
      cases outcome with
      | error error => simp [failure?] at same
      | ok tail =>
          refine ⟨.extension extension extension.codec, some (.message merged),
            (Prod.mk.inj same).1.symm, ?_⟩
          intro other sees
          have held : (other.extension? extension.number).map AttachedOf.value =
              (message.extension? extension.number).map AttachedOf.value := sees
          rw [← held] at read
          exact yields_mergeItem value read

omit found in
/-- A record of a message set is read into the extension that it names, or is kept. -/
theorem exists_change_set (isSet : table.isMessageSet = true) (complete : Complete record)
    (reads : Yields store (readRecord table message record) (after, .next [])) :
    ∃ change, store.Confines table message record change ∧ after = change.apply message := by
  obtain ⟨depth, complete⟩ := complete
  obtain ⟨number, wire, value, tag, -⟩ := complete.exists_tag
  have read : ∀ other, readRecord table other record =
      mergeSetRecord (insideAt maxNesting) maxNesting other record := by
    intro other
    rw [readRecord, if_pos isSet]
  have whole : record.before [] = record := by simpa using Bytes.before_append record []
  -- a record that is kept in one message is kept in all of them
  have kept : store.catalog.takes table true maxNesting message record = false →
      (∀ other, message.Alike other →
        Yields store (readRecord table other record) (other.keepUnknown record, .next [])) →
      ∃ change, store.Confines table message record change ∧ after = change.apply message := by
    intro untaken each
    refine ⟨.keep record, ⟨.keep (by rwa [isSet]), fun other alike _ => each other alike⟩, ?_⟩
    exact (Prod.mk.inj (reads.unique (each message ⟨rfl, rfl⟩))).1
  by_cases isItem : number = itemNumber ∧ wire = .startGroup
  · obtain ⟨rfl, rfl⟩ := isItem
    have reads' := reads
    simp only [read, mergeSetRecord_item tag] at reads' kept
    cases item : readItem maxNesting value with
    | error error =>
        simp only [item] at reads'
        simpa using (yields_pure _).unique reads'
    | ok taken =>
        obtain ⟨_ | ⟨named, body⟩, tail⟩ := taken
        · simp only [item] at reads' kept
          have same := (yields_pure _).unique reads'
          simp only [Prod.mk.injEq, Step.next.injEq] at same
          obtain ⟨-, rfl⟩ := same
          refine kept (by simp [Catalog.takes, tag, item]) fun other _ => ?_
          rw [whole]
          exact yields_pure _
        · simp only [item] at reads' kept
          have asked : ∀ other, message.Alike other → ∀ (next : _ → Coding (Message × Step)) result,
              Yields store (next (store.catalog.extension? message.type named)) result →
              Yields store (Coding.findExtension other.type named >>= next) result := by
            intro other alike next result yields
            rw [← alike.type] at yields
            exact (Coding.yields_findExtension sound other.type named).bind yields
          cases registered : store.catalog.extension? message.type named with
          | none =>
              simp only [registered] at asked
              have same := (asked message ⟨rfl, rfl⟩ _ _ (yields_pure _)).unique reads'
              simp only [Prod.mk.injEq, Step.next.injEq] at same
              obtain ⟨-, rfl⟩ := same
              refine kept (by simp [Catalog.takes, tag, item, registered]) fun other alike => ?_
              rw [whole]
              exact asked other alike _ _ (yields_pure _)
          | some extension =>
              simp only [registered] at asked
              have declared := (Store.mem_extensions_of_extension? registered).1
              -- reading the record is merging the body of the item
              have made : ∀ other, message.Alike other → ∀ result failure,
                  Yields store (mergeItem (insideAt maxNesting) extension other body)
                    (result, failure) →
                  Yields store (readRecord table other record)
                    (result, failure.elim (.next tail) .failed) := by
                intro other alike result failure merged
                rw [read, mergeSetRecord_item tag]
                simp only [item]
                refine asked other alike _ _ (merged.bind ?_)
                cases failure <;> exact yields_pure _
              have frames : ∀ fewer, maxNesting = fewer + 1 →
                  Merger.Frames store Eq types fewer (mergeAt fewer) :=
                fun fewer _ => frames_mergeAt sound framed fewer
              obtain ⟨⟨result, failure⟩, merged, -⟩ :=
                ensures_mergeItem_alike framed frames known registered body
              have same := (made message ⟨rfl, rfl⟩ _ _ merged).unique reads
              cases failure with
              | some error => simp at same
              | none =>
                  simp only [Option.elim_none, Prod.mk.injEq, Step.next.injEq] at same
                  obtain ⟨rfl, rfl⟩ := same
                  obtain ⟨place, slot, eq, each⟩ :=
                    exists_change_item sound framed known registered merged
                  exact ⟨.fill place slot, ⟨.item isSet tag, fun other alike sees =>
                    made other alike _ _ (each other sees)⟩, eq⟩
  · simp only [read, mergeSetRecord_other tag isItem] at reads kept
    have skipped := mergeUnknown_eq ((yields_pure _).unique reads)
    refine kept ?_ fun other _ => ?_
    · rw [Catalog.takes, tag]
      simpa using fun number wire => absurd ⟨number, wire⟩ isItem
    · rw [skipped other]
      exact yields_pure _

end

theorem advances_readRecord (message : Message) : Advances (readRecord table message) := by
  cases isSet : table.isMessageSet with
  | true =>
      rw [readRecord, if_pos isSet]
      exact advances_mergeSetRecord message
  | false =>
      rw [readRecord, if_neg (by simp [isSet])]
      exact advances_mergeRecord (takesGroups_mergeAt (maxNesting - 1)) none message

end MessageOf

/-! ## Runs over records -/

/-- The records are read one after another, and each of them makes a change. -/
inductive Store.ReadsAll (store : Store) (table : FieldTable) :
    Message → List Bytes → Message → Prop
  | nil (message : Message) : ReadsAll store table message [] message
  | cons {message after : Message} {record : Bytes} {records : List Bytes} {change : Change} :
      RecordIn Eq table.isMessageSet maxNesting record →
      store.Confines table message record change →
      ReadsAll store table (change.apply message) records after →
      ReadsAll store table message (record :: records) after

namespace Store

theorem ReadsAll.records {records : List Bytes} (h : store.ReadsAll table message records after) :
    ∀ record ∈ records, RecordIn Eq table.isMessageSet maxNesting record := by
  induction h with
  | nil => simp
  | cons shape _ _ ih => exact List.forall_mem_cons.2 ⟨shape, ih⟩

theorem ReadsAll.alike {records : List Bytes} (h : store.ReadsAll table message records after) :
    message.Alike after := by
  induction h with
  | nil => exact ⟨rfl, rfl⟩
  | cons _ _ _ ih => exact .trans ⟨by simp, by simp⟩ ih

theorem readsAll_append_iff {front back : List Bytes} :
    store.ReadsAll table message (front ++ back) after ↔
      ∃ middle, store.ReadsAll table message front middle ∧
        store.ReadsAll table middle back after := by
  induction front generalizing message with
  | nil =>
      constructor
      · exact fun reads => ⟨message, .nil message, reads⟩
      · rintro ⟨_, ⟨⟩, reads⟩
        exact reads
  | cons record records ih =>
      constructor
      · rintro (_ | ⟨shape, confines, reads⟩)
        obtain ⟨middle, first, second⟩ := ih.1 reads
        exact ⟨middle, .cons shape confines first, second⟩
      · rintro ⟨middle, _ | ⟨shape, confines, first⟩, second⟩
        exact .cons shape confines (ih.2 ⟨middle, first, second⟩)

end Store

/-- How a run over records may end: they have all been read, or the next one fails. -/
def Store.Stops (store : Store) (table : FieldTable) (message : Message) (bytes : Bytes)
    (result : Message × Except Malformed Bytes) : Prop :=
  ∃ (records : List Bytes) (middle : Message) (rest : Bytes), bytes = records.flatten ++ rest ∧
    store.ReadsAll table message records middle ∧
    match result.2 with
    | .ok _ => rest = [] ∧ result.1 = middle
    | .error error =>
        Yields store (MessageOf.readRecord table middle rest) (result.1, .failed error)

theorem Catalog.Makes.congr {change : Change} {other : Message}
    (h : store.catalog.Makes table message record change) (alike : message.Alike other) :
    store.catalog.Makes table other record change := by
  cases h with
  | place regular tag placed =>
      refine .place regular tag ?_
      simpa only [Catalog.place?, alike.type, alike.extensions] using placed
  | item isSet tag => exact .item isSet tag
  | keep untaken => exact .keep (by rwa [MessageOf.takes_congr alike])

namespace Store

/-- A record makes its change in every message that holds the same where the change reads. -/
theorem Confines.congr {change : Change} {other : Message}
    (h : store.Confines table message record change) (alike : message.Alike other)
    (sees : change.Sees message other) : store.Confines table other record change :=
  ⟨h.makes.congr alike, fun third alike' sees' =>
    h.yields third (alike.trans alike') (sees.trans sees')⟩

end Store

namespace MessageOf

section

variable (sound : store.Sound) (framed : store.Frames Eq types)

include sound framed

/-- A step of a run makes the change of a record. -/
theorem ensures_readRecord_change (known : types message.type)
    (found : store.catalog.table message.type = .ok table) (bytes : Bytes) :
    Ensures store (readRecord table message bytes) fun result =>
      match result.2 with
      | .next rest => ∃ record change, bytes = record ++ rest ∧
          RecordIn Eq table.isMessageSet maxNesting record ∧
          store.Confines table message record change ∧ result.1 = change.apply message
      | .ended _ => False
      | .failed _ => True := by
  have frames : ∀ fewer, maxNesting = fewer + 1 →
      Merger.Frames store Eq types fewer (mergeAt fewer) :=
    fun fewer _ => frames_mergeAt sound framed fewer
  have accounts : Ensures store (readRecord table message bytes)
      (Accounts (RecordIn Eq table.isMessageSet maxNesting)
        (store.catalog.takes table table.isMessageSet maxNesting message) none message bytes) := by
    cases isSet : table.isMessageSet with
    | true =>
        rw [readRecord, if_pos isSet]
        exact ensures_mergeSetRecord_accounts sound framed frames known bytes
    | false =>
        rw [readRecord, if_neg (by simp [isSet])]
        exact ensures_mergeRecord_accounts sound framed frames known found bytes
  obtain ⟨⟨middle, outcome⟩, yields, account⟩ := accounts
  refine ⟨_, yields, ?_⟩
  cases outcome with
  | failed error => trivial
  | ended rest =>
      obtain ⟨_, _, none, -⟩ := account
      simp at none
  | next rest =>
      obtain ⟨record, rfl, shape, -⟩ := account
      have alone := (advances_readRecord message).yields_alone yields
      have made : ∃ change, store.Confines table message record change ∧
          middle = change.apply message := by
        cases isSet : table.isMessageSet with
        | true => exact exists_change_set sound framed known isSet shape.complete alone
        | false => exact exists_change_place sound framed known found isSet shape.complete alone
      obtain ⟨change, confines, eq⟩ := made
      exact ⟨record, change, rfl, shape, confines, eq⟩

/-- A run reads one record after another, until none is left or one of them fails. -/
theorem ensures_mergeRecords_reads {bytes : Bytes} {limit : Nat} (enough : bytes.length ≤ limit)
    (known : types message.type) (found : store.catalog.table message.type = .ok table) :
    Ensures store (mergeRecords (readRecord table) (.ok []) limit message bytes)
      (store.Stops table message bytes) := by
  induction limit generalizing message bytes with
  | zero =>
      obtain rfl : bytes = [] := List.eq_nil_of_length_eq_zero (by omega)
      exact ensures_pure ⟨[], message, [], rfl, .nil message, rfl, rfl⟩
  | succ limit ih =>
      cases bytes with
      | nil => exact ensures_pure ⟨[], message, [], rfl, .nil message, rfl, rfl⟩
      | cons byte bytes =>
          rw [mergeRecords]
          obtain ⟨⟨middle, outcome⟩, yields, made⟩ :=
            ensures_readRecord_change sound framed known found (byte :: bytes)
          apply yields.bind_ensures
          cases outcome with
          | failed error => exact ensures_pure ⟨[], message, _, rfl, .nil message, yields⟩
          | ended rest => exact made.elim
          | next rest =>
              obtain ⟨record, change, same, shape, confines, rfl⟩ := made
              -- a record takes a byte at least
              have long := List.length_pos_iff.2 shape.ne_nil
              have shorter : rest.length ≤ limit := by
                have length := congrArg List.length same
                simp only [List.length_cons, List.length_append] at length enough
                omega
              have known' : types (change.apply message).type := by simpa using known
              have found' : store.catalog.table (change.apply message).type = .ok table := by
                simpa using found
              apply (ih shorter known' found').mono
              rintro result ⟨records, last, left, rfl, reads, stops⟩
              exact ⟨record :: records, last, left, by simpa using same,
                .cons shape confines reads, stops⟩

end

/-- A run reads records that can be read one after another. -/
theorem yields_mergeRecords_of_readsAll {records : List Bytes} {limit : Nat}
    (enough : records.flatten.length ≤ limit) (reads : store.ReadsAll table message records after) :
    Yields store (mergeRecords (readRecord table) (.ok []) limit message records.flatten)
      (after, .ok []) := by
  induction reads generalizing limit with
  | nil message => cases limit <;> exact yields_pure _
  | @cons message after record records change shape confines reads ih =>
      rw [List.flatten_cons] at enough ⊢
      have first := (advances_readRecord message).yields_append
        (confines.yields message ⟨rfl, rfl⟩ (.of_same (.refl message))) records.flatten
      cases record with
      | nil => exact absurd rfl shape.ne_nil
      | cons byte record =>
          cases limit with
          | zero => simp at enough
          | succ limit =>
              simp only [List.cons_append, List.length_cons, List.length_append] at enough first ⊢
              rw [mergeRecords]
              apply first.bind
              exact ih (by omega)

end MessageOf

/-! ## Merging -/

namespace MessageType

open MessageOf

/-- A merge into a message whose table is there reads one record after another, until none is left
or one of them fails. -/
theorem ensures_merge_reads (sound : store.Sound) (framed : store.Frames Eq types)
    (known : types message.type) (bytes : Bytes) :
    Ensures store (message.type.merge message bytes) fun result =>
      (∃ error, result.2 = some (.build error)) ∨
        ∃ table outcome, store.catalog.table message.type = .ok table ∧
          store.Stops table message.clearCachedSize bytes (result.1, outcome) ∧
          result.2 = (failure? outcome).map .decode := by
  rw [merge, if_neg (not_not_intro rfl)]
  apply (Coding.yields_table sound (framed.held _ known)).bind_ensures
  cases found : store.catalog.table message.type with
  | error error => exact ensures_pure (.inl ⟨error, rfl⟩)
  | ok table =>
      have start : types message.clearCachedSize.type := known
      have found' : store.catalog.table message.clearCachedSize.type = .ok table := found
      refine (ensures_mergeRecords_reads sound framed (Nat.le_refl _) start found').bind ?_
      rintro ⟨after, outcome⟩ stops
      cases outcome <;> exact ensures_pure (.inr ⟨table, _, rfl, stops, rfl⟩)

/-- A merge that succeeds has read all of its input, record by record. -/
theorem ensures_merge_readsAll (sound : store.Sound) (framed : store.Frames Eq types)
    (known : types message.type) (bytes : Bytes) :
    Ensures store (message.type.merge message bytes) fun result => result.2 = none →
      ∃ (table : FieldTable) (records : List Bytes),
        store.catalog.table message.type = .ok table ∧ bytes = records.flatten ∧
          store.ReadsAll table message.clearCachedSize records result.1 := by
  apply (ensures_merge_reads sound framed known bytes).mono
  rintro ⟨after, failure⟩ (⟨error, rfl⟩ | ⟨table, outcome, found, stops, rfl⟩) succeeds
  · simp at succeeds
  · cases outcome with
    | error error => simp [failure?] at succeeds
    | ok rest =>
        obtain ⟨records, last, _, rfl, reads, rfl, rfl⟩ := stops
        exact ⟨table, records, found, by simp, reads⟩

/-- Records that can be read one after another can be merged. -/
theorem yields_merge_of_readsAll (sound : store.Sound) (held : store.Holds message.type)
    (found : store.catalog.table message.type = .ok table) {records : List Bytes}
    (reads : store.ReadsAll table message.clearCachedSize records after) :
    Yields store (message.type.merge message records.flatten) (after, none) := by
  rw [merge, if_neg (not_not_intro rfl)]
  apply (Coding.yields_table sound held).bind
  rw [found]
  exact (yields_mergeRecords_of_readsAll (Nat.le_refl _) reads).bind (yields_pure _)

end MessageType

end

end ProtoWire
