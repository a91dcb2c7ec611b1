import ProtoWire.Proofs.Message.Effect

/-!
# Merging in parts

Input may be merged in parts that are cut between records: if merging the first part succeeds
then merging both at once does what merging the second part into the result does
(`MessageType.merge_append`), down to the error and to what a failure leaves.

Each record is read in the same way whatever follows it (`Coding.Advances`), and outside of groups
a run over records comes to the end of its input or fails, so that more input continues it.
-/

set_option autoImplicit false

namespace ProtoWire

open Coding (Advances TakesGroups run_bind run_pure)

namespace MessageOf

variable {inside : Option Merger} {depth : Nat} {table : FieldTable}

/-! ## Runs over more input -/

section

variable {step : Message → Bytes → Coding (Message × Step)} {message after : Message}
  {bytes rest : Bytes} {store later : Store}

/-- A run over all of its input can be continued: it has come to the end of the first part, and
goes on with the second. -/
theorem run_mergeRecords_continued (advances : ∀ message, Advances (step message))
    (endless : ∀ message bytes store rest, ((step message bytes).run store).1.2 ≠ .ended rest)
    {limit : Nat} (enough : bytes.length ≤ limit)
    (h : (mergeRecords step (.ok []) limit message bytes).run store = ((after, .ok rest), later))
    {more : Bytes} {limit' : Nat} (enough' : (bytes ++ more).length ≤ limit') :
    (mergeRecords step (.ok []) limit' message (bytes ++ more)).run store =
      (mergeRecords step (.ok []) more.length after more).run later := by
  induction limit generalizing limit' message bytes store with
  | zero =>
      have none : bytes = [] := List.eq_nil_of_length_eq_zero (Nat.le_zero.1 enough)
      subst none
      cases h
      exact mergeRecords_congr advances (.ok []) enough' (Nat.le_refl _)
  | succ limit ih =>
      cases bytes with
      | nil =>
          cases h
          exact mergeRecords_congr advances (.ok []) enough' (Nat.le_refl _)
      | cons byte bytes =>
          simp only [mergeRecords, run_bind] at h
          cases run : (step message (byte :: bytes)).run store with
          | mk result store' =>
              obtain ⟨middle, outcome⟩ := result
              simp only [run] at h
              cases outcome with
              | failed error => cases h
              | ended rest' => exact absurd (congrArg (fun run => run.1.2) run) (endless _ _ _ _)
              | next rest' =>
                  -- the first record is the same one in front of more bytes
                  obtain ⟨front, nonempty, same, reads⟩ := advances message _ _ _ _ rest' _ run rfl
                  have := List.length_pos_iff.2 nonempty
                  have length := congrArg List.length same
                  rw [List.length_append] at length
                  simp only [List.length_cons, List.length_append] at enough enough' length
                  rw [same, List.append_assoc, run_mergeRecords_append nonempty (by omega)
                    (reads (rest' ++ more))]
                  exact ih (by omega) h (by rw [List.length_append]; omega)

end

/-! ## Input outside groups -/

/-- The step is no end of a group. -/
def GoesOn (program : Coding (Message × Step)) : Prop :=
  ∀ store rest, (program.run store).1.2 ≠ .ended rest

theorem GoesOn.after {α : Type} {next : α → Coding (Message × Step)}
    (h : ∀ answer, GoesOn (next answer)) (question : Coding α) : GoesOn (question >>= next) :=
  fun store rest => h (question.run store).1 (question.run store).2 rest

theorem goesOn_mergeUnknown (number : Nat) (message : Message) (wire : WireType)
    (bytes rest : Bytes) :
    GoesOn (return mergeUnknown depth message bytes number wire rest) := by
  intro store last
  rw [run_pure, mergeUnknown]
  cases skipValue depth number wire rest <;> simp

theorem goesOn_mergePlace (place : Place) (message : Message) (wire : WireType) (bytes : Bytes) :
    GoesOn (mergePlace inside place message wire bytes) := by
  refine GoesOn.after ?_ _
  rintro ⟨slot, outcome⟩ store rest
  cases outcome <;> simp

theorem goesOn_mergeRecord (message : Message) (bytes : Bytes) :
    GoesOn (mergeRecord inside depth table none message bytes) := by
  cases tag : Tag.read bytes with
  | error fault =>
      intro store rest
      simp [mergeRecord, tag]
  | ok taken =>
      obtain ⟨number, wire, rest⟩ := taken
      by_cases stop : wire = .endGroup
      -- no end tag is awaited
      · subst stop
        intro store rest'
        simp [mergeRecord, tag]
      · rw [mergeRecord_eq tag stop]
        cases table.entry? number with
        | some entry =>
            simp only
            split
            · rw [mergeField_eq]
              exact goesOn_mergePlace (.field entry) message wire rest
            · exact goesOn_mergeUnknown number message wire bytes rest
        | none =>
            refine GoesOn.after (fun found => ?_) _
            cases found with
            | none => exact goesOn_mergeUnknown number message wire bytes rest
            | some type =>
                refine GoesOn.after (fun codec => ?_) _
                split
                · rw [mergeExtension_eq]
                  exact goesOn_mergePlace (.extension type codec) message wire rest
                · exact goesOn_mergeUnknown number message wire bytes rest

theorem goesOn_mergeSetRecord (message : Message) (bytes : Bytes) :
    GoesOn (mergeSetRecord inside depth message bytes) := by
  rw [mergeSetRecord]
  split
  · exact fun store rest => by simp
  · split
    · exact fun store rest => by simp
    · exact fun store rest => by simp
    · refine GoesOn.after (fun found => ?_) _
      cases found with
      | none => exact fun store rest => by simp
      | some type =>
          refine GoesOn.after ?_ _
          rintro ⟨after, failure⟩ store rest
          cases failure <;> simp
  · exact goesOn_mergeUnknown _ message _ bytes _

/-- Merging the rest of the input into what the first part left. -/
theorem run_mergeBody_append (group : TakesGroups inside)
    {message after : Message} {bytes rest : Bytes} {store later : Store}
    (h : (mergeBody inside depth table none message bytes).run store = ((after, .ok rest), later))
    (cleared : after.clearCachedSize = after) (more : Bytes) :
    (mergeBody inside depth table none message (bytes ++ more)).run store =
      (mergeBody inside depth table none after more).run later := by
  simp only [mergeBody] at h ⊢
  rw [cleared]
  cases isSet : table.isMessageSet with
  | true =>
      simp only [isSet, if_true] at h ⊢
      exact run_mergeRecords_continued advances_mergeSetRecord
        (fun message bytes => goesOn_mergeSetRecord message bytes) (Nat.le_refl _) h (Nat.le_refl _)
  | false =>
      simp only [isSet, Bool.false_eq_true, if_false] at h ⊢
      exact run_mergeRecords_continued (advances_mergeRecord group none)
        (fun message bytes => goesOn_mergeRecord message bytes) (Nat.le_refl _) h (Nat.le_refl _)

/-- The cache is emptied once. -/
theorem mergeBody_clearCachedSize (group : Option Nat) (message : Message) (bytes : Bytes) :
    mergeBody inside depth table group message.clearCachedSize bytes =
      mergeBody inside depth table group message bytes := by
  have once : message.clearCachedSize.clearCachedSize = message.clearCachedSize := by
    simp only [clearCachedSize, SizeCache.clear_clear]
  simp only [mergeBody, once]

end MessageOf

namespace MessageType

open MessageOf

variable {store later asked : Store} {type : MessageType} {table : FieldTable}
  {message middle : Message}

/-- With the table at hand, merging is reading the records of the message. -/
theorem run_merge (same : message.type = type)
    (found : (Coding.table type).run store = (.ok table, asked)) (bytes : Bytes) :
    (type.merge message bytes).run store =
      let run := (mergeBody (some (mergeAt (maxNesting - 1))) maxNesting table none message
        bytes).run asked
      ((run.1.1, (failure? run.1.2).map .decode), run.2) := by
  subst same
  rw [merge, if_neg (not_not_intro rfl), run_bind, found]
  simp only [run_bind]
  generalize (mergeBody _ _ _ _ _ _).run asked = run
  obtain ⟨⟨after, outcome⟩, last⟩ := run
  cases outcome <;> rfl

/-- A merge that succeeds has found the table. -/
theorem exists_run_mergeBody {bytes : Bytes}
    (merged : (type.merge message bytes).run store = ((middle, none), later)) :
    message.type = type ∧ ∃ table asked rest,
      (Coding.table type).run store = (.ok table, asked) ∧
        (mergeBody (some (mergeAt (maxNesting - 1))) maxNesting table none message bytes).run
          asked = ((middle, .ok rest), later) := by
  by_cases same : message.type = type
  case neg =>
    rw [merge, if_pos same] at merged
    cases merged
  refine ⟨same, ?_⟩
  cases found : (Coding.table type).run store with
  | mk result asked =>
      cases result with
      | error error =>
          rw [merge, if_neg (not_not_intro same), run_bind, found] at merged
          cases merged
      | ok table =>
          rw [run_merge same found] at merged
          cases body : (mergeBody (some (mergeAt (maxNesting - 1))) maxNesting table none message
              bytes).run asked with
          | mk result last =>
              obtain ⟨after, outcome⟩ := result
              rw [body] at merged
              cases outcome with
              | error error => cases merged
              | ok rest =>
                  cases merged
                  exact ⟨table, asked, rest, rfl, body⟩

/-- Reading records leaves a message of the same type with an empty cache, and the store in a
state that coding leads to. -/
theorem codes_of_run_mergeBody (sound : store.Sound) (held : store.Holds message.type)
    (found : store.catalog.table message.type = .ok table) {bytes : Bytes}
    {outcome : Except Malformed Bytes}
    (body : (mergeBody (some (mergeAt (maxNesting - 1))) maxNesting table none message
      bytes).run store = ((middle, outcome), later)) :
    middle.type = message.type ∧ middle.clearCachedSize = middle ∧ store.Codes later := by
  have lawful := sound.lawful_reading bytes
  have carried := carriedOutBy_mergeAt lawful (maxNesting - 1)
  obtain ⟨registry, builds, values⟩ := sound.holds_values_of_table held found
  -- the cache may as well have been empty before
  rw [← mergeBody_clearCachedSize] at body
  have held' : (store.reading bytes).types message.clearCachedSize.type := held
  have builds' : registry.Builds message.clearCachedSize.type table := builds
  have start : (store.reading bytes).linked store store := ⟨rfl, .refl⟩
  obtain ⟨merges, -, codes⟩ :=
    (coupled_mergeBody lawful carried builds' values held' none List.infix_rfl).of_run start body
  have cleared : message.clearCachedSize.cache.clear = message.clearCachedSize.cache :=
    message.cache.clear_clear
  have cache : middle.cache.clear = middle.cache := by rw [merges.cache cleared, cleared]
  exact ⟨merges.type, by rw [clearCachedSize, cache], codes⟩

/-- If a first part of the input can be merged then merging all of it has the outcome of merging
the rest into what the first part left: the same message, the same failure if it fails, and the
same store. -/
theorem merge_append (reachable : store.Reachable) (held : store.Holds type) {front : Bytes}
    (first : (type.merge message front).run store = ((middle, none), later)) (back : Bytes) :
    (type.merge message (front ++ back)).run store = (type.merge middle back).run later := by
  have sound := reachable.sound
  obtain ⟨rfl, table, asked, rest, found, body⟩ := exists_run_mergeBody first
  obtain ⟨answered, rfl⟩ := Prod.mk.inj found
  have answer : store.catalog.table message.type = .ok table := answered
  have asked : ((Coding.table message.type).run store).2.Sound := sound.keepTable held
  have held' := (sound.retains_keepTable held).holds_iff.2 held
  have answer' := ((sound.retains_keepTable held).table _ held).trans answer
  obtain ⟨same, cleared, codes⟩ := codes_of_run_mergeBody asked held' answer' body
  have again := codes.run_table_again sound held
  rw [answer] at again
  have group := takesGroups_mergeAt (maxNesting - 1)
  rw [run_merge rfl found, run_merge same again, run_mergeBody_append group body cleared back]

/-- The rest fails inside a node that it opens inside the node inside. -/
theorem merge_append_node :
    ∃ middle after later last,
      (nodeType.merge node [162, 6, 1, 121, 8, 7]).run nodeStore = ((middle, none), later) ∧
      (nodeType.merge middle [18, 4, 18, 2, 8, 133]).run later =
        ((after, some (.decode ⟨.invalidVarint, [.field 2, .field 2, .field 1]⟩)), last) ∧
      (nodeType.merge node ([162, 6, 1, 121, 8, 7] ++ [18, 4, 18, 2, 8, 133])).run nodeStore =
        ((after, some (.decode ⟨.invalidVarint, [.field 2, .field 2, .field 1]⟩)), last) ∧
      after.children.map MessageOf.slots =
        [[some (.int32 (-1)), some (.message nodeType.newMessage)]] := by
  have held : nodeStore.Holds nodeType := List.mem_singleton_self nodeType
  have first : (nodeType.merge node [162, 6, 1, 121, 8, 7]).run nodeStore =
      ((((nodeType.merge node [162, 6, 1, 121, 8, 7]).run nodeStore).1.1, none),
        ((nodeType.merge node [162, 6, 1, 121, 8, 7]).run nodeStore).2) := rfl
  have whole := merge_append reachable_nodeStore held first [18, 4, 18, 2, 8, 133]
  exact ⟨_, _, _, _, first, rfl, whole, rfl⟩

end MessageType

end ProtoWire
