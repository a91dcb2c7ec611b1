import ProtoWire.Proofs.Message.Records

/-!
# The order of records

Records of different fields may come in either order: if one of the two is recognised, and they are
no members of one oneof, then merging them in the other order succeeds alike and leaves the same
message (`MessageType.merge_swap`). This rests on the changes that records make: those of different
places commute (`Store.ReadsAll.swap`), and what is read afterwards sees no difference
(`Store.ReadsAll.of_same`).
-/

set_option autoImplicit false

namespace ProtoWire

open Coding (Yields)

namespace MessageType

/-- The fields of the two numbers are members of one oneof. -/
def ShareOneof (type : MessageType) (number other : Nat) : Prop :=
  ∃ field ∈ type.fields, ∃ field' ∈ type.fields, field.number = number ∧ field'.number = other ∧
    ∃ oneof, field.oneof = some oneof ∧ field'.oneof = some oneof

theorem ShareOneof.symm {type : MessageType} {number other : Nat}
    (h : type.ShareOneof number other) : type.ShareOneof other number := by
  obtain ⟨field, mem, field', mem', eq, eq', oneof, member, member'⟩ := h
  exact ⟨field', mem', field, mem, eq', eq, oneof, member', member⟩

end MessageType

section

variable {store : Store} {table : FieldTable} {message after : Message} {rest : Bytes}

/-- From messages that are the same, the same records lead to messages that are the same. -/
theorem Store.ReadsAll.of_same {records : List Bytes} {other : Message}
    (h : store.ReadsAll table message records after) (same : message.Same other) :
    ∃ after', store.ReadsAll table other records after' ∧ after.Same after' := by
  induction h generalizing other with
  | nil message => exact ⟨other, .nil other, same⟩
  | cons shape confines _ ih =>
      obtain ⟨after', reads, same'⟩ := ih (Change.same_apply same)
      have alike : MessageOf.Alike _ other := ⟨same.type.symm, same.place.symm⟩
      exact ⟨after', .cons shape (confines.congr alike (.of_same same)) reads, same'⟩

section

variable {first second value value' : Bytes} {number number' : Nat} {wire wire' : WireType}
  (sound : store.Sound) (held : store.Holds message.type)
  (found : store.catalog.table message.type = .ok table)
  (different : number ≠ number') (unrelated : ¬ message.type.ShareOneof number number')

include sound held found different unrelated

/-- Places of different numbers are apart if they are no members of one oneof. -/
theorem Catalog.apart_of_place? {place place' : Place}
    (placed : store.catalog.place? table message number wire = some place)
    (placed' : store.catalog.place? table message number' wire' = some place') :
    place.Apart message.type place' := by
  have builds := sound.builds_of_table held found
  cases place with
  | field entry =>
      cases place' with
      | extension => trivial
      | field entry' =>
          obtain ⟨mem, rfl⟩ := builds.entry?_eq_some_iff.1 (of_place?_field placed).1
          obtain ⟨mem', rfl⟩ := builds.entry?_eq_some_iff.1 (of_place?_field placed').1
          refine ⟨fun same => different ?_, ?_⟩
          · rw [builds.eq_of_position_eq mem mem' same]
          · rw [Bool.eq_false_iff, ne_eq, MessageType.areSiblings_iff]
            rintro ⟨-, oneof, member, member'⟩
            obtain ⟨field, _, declared, -, eq⟩ := builds.field_of_mem mem
            obtain ⟨field', _, declared', -, eq'⟩ := builds.field_of_mem mem'
            rw [MessageType.oneofAt, declared, Option.bind_some] at member
            rw [MessageType.oneofAt, declared', Option.bind_some] at member'
            refine unrelated ⟨field, List.mem_of_getElem? declared, field',
              List.mem_of_getElem? declared', ?_, ?_, oneof, member, member'⟩
            · rw [eq, Registry.number_entry]
            · rw [eq', Registry.number_entry]
  | extension type codec =>
      cases place' with
      | field => trivial
      | extension type' codec' =>
          obtain ⟨-, -, rfl⟩ :=
            Store.mem_extensions_of_extension? (of_place?_extension placed).2.1
          obtain ⟨-, -, rfl⟩ :=
            Store.mem_extensions_of_extension? (of_place?_extension placed').2.1
          exact different

variable (tag : Tag.read first = .ok (number, wire, value))
  (tag' : Tag.read second = .ok (number', wire', value'))
  (taken : store.catalog.takes table table.isMessageSet maxNesting message first = true ∨
    store.catalog.takes table table.isMessageSet maxNesting message second = true)

include tag tag' taken

/-- The changes of records of different fields are apart if one of the two is taken. -/
theorem Catalog.Makes.apart {change change' : Change}
    (h : store.catalog.Makes table message first change)
    (h' : store.catalog.Makes table message second change') :
    change.Apart message.type change' := by
  cases h with
  | keep untaken =>
      cases h' with
      | keep untaken' => simp [untaken, untaken'] at taken
      | place | item => trivial
  | item isSet item =>
      cases h' with
      | keep => trivial
      | place regular => simp [isSet] at regular
      | item _ item' =>
          -- all items have one number
          rw [tag, Except.ok.injEq, Prod.mk.injEq] at item
          rw [tag', Except.ok.injEq, Prod.mk.injEq] at item'
          exact absurd (item.1.trans item'.1.symm) different
  | place regular here placed =>
      cases h' with
      | keep => trivial
      | item isSet => simp [isSet] at regular
      | place _ there placed' =>
          rw [tag, Except.ok.injEq, Prod.mk.injEq, Prod.mk.injEq] at here
          rw [tag', Except.ok.injEq, Prod.mk.injEq, Prod.mk.injEq] at there
          obtain ⟨rfl, rfl, rfl⟩ := here
          obtain ⟨rfl, rfl, rfl⟩ := there
          exact apart_of_place? sound held found different unrelated placed placed'

/-- Records of different fields may be read in either order if one of the two is taken. -/
theorem Store.ReadsAll.swap {records : List Bytes}
    (h : store.ReadsAll table message (first :: second :: records) after) :
    ∃ after', store.ReadsAll table message (second :: first :: records) after' ∧
      after.Same after' := by
  obtain _ | @⟨_, _, _, _, change, shape, confines, _ | @⟨_, _, _, _, change', shape', confines',
    reads⟩⟩ := h
  have alike : MessageOf.Alike (change.apply message) message := ⟨by simp, by simp⟩
  have alike' : message.Alike (change'.apply message) := ⟨by simp, by simp⟩
  have apart : change.Apart message.type change' :=
    confines.makes.apart sound held found different unrelated tag tag' taken
      (confines'.makes.congr alike)
  have early := confines'.congr alike apart.sees.symm
  have late := confines.congr alike' apart.symm.sees
  obtain ⟨after', reads', same⟩ := reads.of_same apart.apply_comm
  exact ⟨after', .cons shape' early (.cons shape late reads'), same⟩

end

end

namespace MessageType

open MessageOf

section

variable {store later : Store} {type : MessageType} {message after : Message} {first second : Bytes}
  {number number' : Nat} {wire wire' : WireType} {value value' : Bytes} {records : List Bytes}

/-- If input can be merged then so it can with two records in it exchanged. -/
theorem yields_merge_swapped (sound : store.Sound) (held : store.Holds type)
    (own : store.OwnCodecs type) (same : message.type = type)
    (place : message.extensions.isSome = type.storage.extensions)
    (complete : ∀ record ∈ records, Complete record) (complete_first : Complete first)
    (complete_second : Complete second) (tag : Tag.read first = .ok (number, wire, value))
    (tag' : Tag.read second = .ok (number', wire', value')) (different : number ≠ number')
    (unrelated : ¬ type.ShareOneof number number')
    (recognised : store.catalog.Recognises type first ∨ store.catalog.Recognises type second)
    (rest : Bytes)
    (merged : (type.merge message (records.flatten ++ first ++ second ++ rest)).run store =
      ((after, none), later)) :
    ∃ after', Yields store (type.merge message (records.flatten ++ second ++ first ++ rest))
      (after', none) ∧ after.Same after' := by
  subst same
  obtain ⟨read, -⟩ := (ensures_merge_readsAll sound (sound.frames_own held own) .refl
    (records.flatten ++ first ++ second ++ rest)).run
  rw [merged] at read
  obtain ⟨table, all, found, flat, reads⟩ := read rfl
  -- the input is a sequence of records in one way only
  have front : ∀ record ∈ records ++ [first, second], Complete record := by
    simp only [List.forall_mem_append, List.forall_mem_cons]
    exact ⟨complete, complete_first, complete_second, by simp⟩
  have flat' : (records ++ [first, second]).flatten ++ rest = all.flatten := by simpa using flat
  obtain ⟨back, rfl, rfl⟩ := exists_append_of_flatten front
    (fun record mem => (reads.records record mem).complete) flat'
  rw [List.append_assoc] at reads
  obtain ⟨middle, before, both⟩ := Store.readsAll_append_iff.1 reads
  have alike : message.Alike middle := ⟨before.alike.type, before.alike.extensions⟩
  have held' : store.Holds middle.type := alike.type ▸ held
  have found' : store.catalog.table middle.type = .ok table := alike.type ▸ found
  -- which records the type recognises does not depend on what has been read
  have takes : ∀ record ∈ [first, second], store.catalog.Recognises message.type record →
      store.catalog.takes table table.isMessageSet maxNesting middle record = true := by
    intro record mem recognises
    have shape := both.records record (List.mem_append_left back mem)
    rw [← alike.type] at own place recognises
    have place' := alike.extensions.trans place
    exact (takes_eq_true_iff sound held' own place' found' shape).2 recognises
  have taken := recognised.imp (takes first (by simp)) (takes second (by simp))
  rw [← alike.type] at unrelated
  obtain ⟨after', both', same⟩ :=
    both.swap sound held' found' different unrelated tag tag' taken
  have reads' := Store.readsAll_append_iff.2 ⟨middle, before, both'⟩
  have yields := yields_merge_of_readsAll sound held found reads'
  refine ⟨after', ?_, same⟩
  simpa using yields

/-- Two records of different fields, which are no members of one oneof and of which the type
recognises at least one, may come in either order between any records and any bytes: merging
succeeds in both orders or in none, and leaves the same message in both. -/
theorem merge_swap (reachable : store.Reachable) (held : store.Holds type)
    (own : store.OwnCodecs type) (same : message.type = type)
    (place : message.extensions.isSome = type.storage.extensions)
    (complete : ∀ record ∈ records, Complete record) (complete_first : Complete first)
    (complete_second : Complete second) (tag : Tag.read first = .ok (number, wire, value))
    (tag' : Tag.read second = .ok (number', wire', value')) (different : number ≠ number')
    (unrelated : ¬ type.ShareOneof number number')
    (recognised : store.catalog.Recognises type first ∨ store.catalog.Recognises type second)
    (rest : Bytes) :
    (((type.merge message (records.flatten ++ first ++ second ++ rest)).run store).1.2 = none ↔
      ((type.merge message (records.flatten ++ second ++ first ++ rest)).run store).1.2 = none) ∧
    (((type.merge message (records.flatten ++ first ++ second ++ rest)).run store).1.2 = none →
      ((type.merge message (records.flatten ++ first ++ second ++ rest)).run store).1.1.Same
        ((type.merge message (records.flatten ++ second ++ first ++ rest)).run store).1.1) := by
  have sound := reachable.sound
  have swapped : ∀ {after later},
      (type.merge message (records.flatten ++ first ++ second ++ rest)).run store =
        ((after, none), later) →
      ∃ after', Yields store
        (type.merge message (records.flatten ++ second ++ first ++ rest)) (after', none) ∧
          after.Same after' :=
    yields_merge_swapped sound held own same place complete complete_first complete_second tag tag'
      different unrelated recognised rest
  have swapped_back : ∀ {after later},
      (type.merge message (records.flatten ++ second ++ first ++ rest)).run store =
        ((after, none), later) →
      ∃ after', Yields store
        (type.merge message (records.flatten ++ first ++ second ++ rest)) (after', none) ∧
          after.Same after' :=
    yields_merge_swapped sound held own same place complete complete_second complete_first tag' tag
      different.symm (fun shared => unrelated shared.symm) recognised.symm rest
  refine ⟨⟨fun merged => ?_, fun merged => ?_⟩, fun merged => ?_⟩
  · obtain ⟨_, yields, -⟩ := swapped (Prod.ext (Prod.ext rfl merged) rfl)
    rw [yields.run]
  · obtain ⟨_, yields, -⟩ := swapped_back (Prod.ext (Prod.ext rfl merged) rfl)
    rw [yields.run]
  · obtain ⟨_, yields, same⟩ := swapped (Prod.ext (Prod.ext rfl merged) rfl)
    rwa [yields.run]

/-- A label and a weight come in either order, between bytes that a node does not know and a node
inside. -/
theorem merge_swap_node :
    Complete [24, 5] ∧ Complete [162, 6, 1, 121] ∧ Complete [8, 7] ∧
      nodeStore.catalog.Recognises nodeType [162, 6, 1, 121] ∧
      ∃ after later after' later',
        (nodeType.merge richNode ([24, 5] ++ [162, 6, 1, 121] ++ [8, 7] ++ [18, 2, 8, 9])).run
          nodeStore = ((after, none), later) ∧
        (nodeType.merge richNode ([24, 5] ++ [8, 7] ++ [162, 6, 1, 121] ++ [18, 2, 8, 9])).run
          nodeStore = ((after', none), later') ∧
        after.Same after' ∧ after.unknown = some [24, 9, 24, 5] := by
  have held : nodeStore.Holds nodeType := List.mem_singleton_self nodeType
  have label : Tag.read [162, 6, 1, 121] = .ok (100, .lengthDelimited, [1, 121]) := by cbv
  have weight : Tag.read [8, 7] = .ok (1, .varint, [7]) := by cbv
  have complete : Complete [24, 5] :=
    .intro 0 (isRecord_iff.2 ⟨3, .varint, [5], by cbv, by cbv⟩)
  have complete_label : Complete [162, 6, 1, 121] :=
    .intro 0 (isRecord_iff.2 ⟨100, .lengthDelimited, [1, 121], label, by cbv⟩)
  have complete_weight : Complete [8, 7] :=
    .intro 0 (isRecord_iff.2 ⟨1, .varint, [7], weight, by cbv⟩)
  have recognised : nodeStore.catalog.Recognises nodeType [162, 6, 1, 121] := by
    refine ⟨_, rfl, ?_⟩
    rw [if_neg (by decide)]
    exact ⟨_, _, _, label, by decide⟩
  have unrelated : ¬ nodeType.ShareOneof 100 1 := by
    rintro ⟨field, mem, -, -, number, -⟩
    revert field
    decide
  have records : ∀ record ∈ [[24, 5]], Complete record := by simpa using complete
  obtain ⟨-, same⟩ := merge_swap reachable_nodeStore held ownCodecs_nodeStore
    (show richNode.type = nodeType from rfl) rfl records complete_label complete_weight label weight
    (by decide) unrelated (.inl recognised) [18, 2, 8, 9]
  exact ⟨complete, complete_label, complete_weight, recognised, _, _, _, _, rfl, rfl, same rfl, rfl⟩

/-- After another registry's extension was encoded under the name of the label, nodes recognise a
label but do not read it. It is kept, and so is the field behind it, in the order of the input. -/
theorem merge_order_mixedStore :
    mixedStore.Reachable ∧ mixedStore.Holds nodeType ∧ (mixedStore.registry ⟨0⟩).dropped = false ∧
      Complete [162, 6, 1, 120] ∧ Complete [56, 5] ∧ ¬ nodeType.ShareOneof 100 7 ∧
      mixedStore.catalog.Recognises nodeType [162, 6, 1, 120] ∧
      ∃ after later after' later',
        (nodeType.merge nodeType.newMessage ([162, 6, 1, 120] ++ [56, 5])).run mixedStore =
          ((after, none), later) ∧
        (nodeType.merge nodeType.newMessage ([56, 5] ++ [162, 6, 1, 120])).run mixedStore =
          ((after', none), later') ∧
        after.unknown = some [162, 6, 1, 120, 56, 5] ∧
        after'.unknown = some [56, 5, 162, 6, 1, 120] ∧ ¬ after.Same after' := by
  have held : mixedStore.Holds nodeType := List.mem_singleton_self nodeType
  have label : Tag.read [162, 6, 1, 120] = .ok (100, .lengthDelimited, [1, 120]) := by cbv
  have complete_label : Complete [162, 6, 1, 120] :=
    .intro 0 (isRecord_iff.2 ⟨100, .lengthDelimited, [1, 120], label, by cbv⟩)
  have complete_other : Complete [56, 5] :=
    .intro 0 (isRecord_iff.2 ⟨7, .varint, [5], by cbv, by cbv⟩)
  have recognised : mixedStore.catalog.Recognises nodeType [162, 6, 1, 120] := by
    refine ⟨_, rfl, ?_⟩
    rw [if_neg (by decide)]
    exact ⟨_, _, _, label, by decide⟩
  have unrelated : ¬ nodeType.ShareOneof 100 7 := by
    rintro ⟨field, mem, -, -, number, -⟩
    revert field
    decide
  refine ⟨reachable_mixedStore, held, rfl, complete_label, complete_other, unrelated, recognised,
    _, _, _, _, rfl, rfl, rfl, rfl, fun same => ?_⟩
  have unknown := same.unknown
  revert unknown
  decide

end

end MessageType

end ProtoWire
