import ProtoWire.Proofs.Schema.Lookup

/-!
# The order of writing

Fields are written in the order of their numbers, but for the members of oneofs, which come after
all others and stay together. A synthetic oneof has no part in this. The order is that of the
declared fields and does not depend on how they are declared (`WritingOrder`), and it is the one
that sorting gives even where a table takes a shorter way (`Store.Reachable.written_in_order`).
-/

set_option autoImplicit false

namespace ProtoWire

/-! ## Members of oneofs -/

/-- The field belongs to the oneof at an index, which is not a synthetic one. -/
def MessageDescriptor.RealMember (descriptor : MessageDescriptor) (field : FieldDescriptor)
    (index : Nat) : Prop :=
  field.oneof = some index ∧
    ∃ oneof, descriptor.oneofs[index]? = some oneof ∧ oneof.synthetic = false

/-- A field is moved behind the others if it is a member of a oneof that is not synthetic. -/
theorem MessageDescriptor.relocatingOneof?_eq_some_iff {descriptor : MessageDescriptor}
    {field : FieldDescriptor} {index : Nat} :
    descriptor.relocatingOneof? field = some index ↔ descriptor.RealMember field index := by
  constructor
  · intro found
    rw [relocatingOneof?] at found
    split at found
    · cases found
    · next member =>
        split at found
        · next oneof declared =>
            split at found
            · cases found
            · next real =>
                obtain rfl := Option.some.inj found
                exact ⟨member, oneof, declared, Bool.eq_false_iff.2 real⟩
        · cases found
  · rintro ⟨member, oneof, declared, real⟩
    simp [relocatingOneof?, member, declared, real]

/-- The fields of a type in the order in which they are written: first those that do not belong to
a oneof, apart from synthetic ones, and then the members of one oneof after the other. -/
structure WritingOrder (type : MessageType) (plain members : List FieldDescriptor) : Prop where
  perm : (plain ++ members).Perm type.fields
  outside : ∀ field ∈ plain, ∀ index, ¬ type.descriptor.RealMember field index
  ascending : plain.Pairwise (·.number < ·.number)
  inside : ∀ field ∈ members, ∃ index, type.descriptor.RealMember field index
  grouped : members.Pairwise fun field later => ∀ index other,
    type.descriptor.RealMember field index → type.descriptor.RealMember later other →
      index < other ∨ (index = other ∧ field.number < later.number)

/-! ## The relation that sorts -/

namespace FieldTable

/-- Fields outside oneofs come first, by number, and then the oneofs, one by one. -/
theorem writtenBefore_iff {a b : FieldEntry} :
    writtenBefore a b = true ↔
      match a.group, b.group with
      | none, none => a.number ≤ b.number
      | none, some _ => True
      | some _, none => False
      | some group, some other => group < other ∨ (group = other ∧ a.number ≤ b.number) := by
  rw [writtenBefore]
  cases a.group <;> cases b.group <;> simp

theorem writtenBefore_trans (a b c : FieldEntry) (first : writtenBefore a b = true)
    (second : writtenBefore b c = true) : writtenBefore a c = true := by
  rw [writtenBefore_iff] at *
  cases groupA : a.group <;> cases groupB : b.group <;> cases groupC : c.group <;>
    simp only [groupA, groupB, groupC] at first second ⊢ <;> omega

theorem writtenBefore_total (a b : FieldEntry) :
    writtenBefore a b = true ∨ writtenBefore b a = true := by
  rw [writtenBefore_iff, writtenBefore_iff]
  cases a.group <;> cases b.group <;> simp only [or_true, true_or] <;> omega

end FieldTable

/-! ## Tables -/

namespace Registry

variable {registry : Registry} {type : MessageType} {table : FieldTable}

/-- The fields that some entries are those of. -/
def fieldsOf (type : MessageType) (entries : List FieldEntry) : List FieldDescriptor :=
  entries.filterMap fun entry => type.fields[entry.position]?

theorem mem_fieldsOf {entries : List FieldEntry} {field : FieldDescriptor} :
    field ∈ fieldsOf type entries ↔
      ∃ entry ∈ entries, type.fields[entry.position]? = some field :=
  List.mem_filterMap

/-- The entries of a table are those of the fields in their positions. -/
theorem Builds.entryAt?_of_mem (h : registry.Builds type table) {entry : FieldEntry}
    (mem : entry ∈ table.entries) : registry.entryAt? type entry.position = some entry := by
  obtain ⟨position, found⟩ := h.mem_entries_iff.1 mem
  obtain ⟨field, declared, rfl⟩ := Option.map_eq_some_iff.1 found
  exact found

theorem Builds.number_of_mem (h : registry.Builds type table) {entry : FieldEntry}
    (mem : entry ∈ table.entries) {field : FieldDescriptor}
    (declared : type.fields[entry.position]? = some field) : entry.number = field.number := by
  obtain ⟨field', declared', number⟩ := number_of_entryAt? (h.entryAt?_of_mem mem)
  rw [declared, Option.some.injEq] at declared'
  rw [declared', number]

/-- An entry is grouped with the members of its oneof. -/
theorem Builds.group_eq_some_iff (h : registry.Builds type table) {entry : FieldEntry}
    (mem : entry ∈ table.entries) {field : FieldDescriptor}
    (declared : type.fields[entry.position]? = some field) {index : Nat} :
    entry.group = some index ↔ type.descriptor.RealMember field index := by
  have found := h.entryAt?_of_mem mem
  rw [entryAt?, declared, Option.map_some, Option.some.injEq] at found
  rw [← found, ← MessageDescriptor.relocatingOneof?_eq_some_iff]
  rfl

/-- Where no oneof is declared, no field has to be moved. -/
theorem Builds.writingOrder_eq (h : registry.Builds type table) :
    table.writingOrder = sortBy FieldTable.writtenBefore table.entries := by
  by_cases none : type.descriptor.oneofs = []
  · have free : ∀ entry ∈ table.entries, entry.group = .none := by
      intro entry mem
      obtain ⟨field, declared, -⟩ := number_of_entryAt? (h.entryAt?_of_mem mem)
      cases group : entry.group with
      | none => rfl
      | some index =>
          obtain ⟨-, oneof, found, -⟩ := (h.group_eq_some_iff mem declared).1 group
          simp [none] at found
    have sorted : table.entries.Pairwise (FieldTable.writtenBefore · · = true) := by
      apply h.ascending.imp_of_mem
      intro a b mem mem' less
      rw [FieldTable.writtenBefore_iff, free a mem, free b mem']
      exact Nat.le_of_lt less
    obtain ⟨valueTypes, needsInitCheck, -, rfl⟩ := h
    rw [sortBy_of_pairwise sorted]
    simp [FieldTable.build, none]
  · obtain ⟨valueTypes, needsInitCheck, -, rfl⟩ := h
    simp [FieldTable.build, none]

/-- The order of writing is the sorted one, also if sorting was skipped. -/
theorem Builds.sorted_writingOrder (h : registry.Builds type table) :
    table.writingOrder.Pairwise (FieldTable.writtenBefore · · = true) := by
  rw [h.writingOrder_eq]
  exact pairwise_sortBy FieldTable.writtenBefore_trans FieldTable.writtenBefore_total _

/-- No two entries are written in the same place. -/
theorem Builds.strict_writingOrder (h : registry.Builds type table) :
    table.writingOrder.Pairwise fun a b =>
      FieldTable.writtenBefore a b = true ∧ a.number ≠ b.number := by
  have distinct : (table.writingOrder.map (·.number)).Nodup := by
    rw [(h.perm_writingOrder.map _).nodup_iff]
    exact nodup_of_ascending h.ascending
  exact h.sorted_writingOrder.and (List.pairwise_map.1 distinct)

/-- Every declared field is written once. -/
theorem Builds.perm_fieldsOf (h : registry.Builds type table) :
    (fieldsOf type table.writingOrder).Perm type.fields := by
  have written : ∀ {entry}, entry ∈ table.writingOrder ↔ entry ∈ table.entries :=
    h.perm_writingOrder.mem_iff
  have distinct : ((fieldsOf type table.writingOrder).map (·.number)).Nodup := by
    refine List.pairwise_map.2 (List.pairwise_filterMap.2 ?_)
    apply h.strict_writingOrder.imp_of_mem
    rintro a b mem mem' ⟨-, ne⟩ field declared later declared'
    rw [← h.number_of_mem (written.1 mem) declared, ← h.number_of_mem (written.1 mem') declared']
    exact ne
  refine (List.perm_ext_iff_of_nodup (distinct.of_map _) (h.nodup_numbers.of_map _)).2 ?_
  intro field
  rw [mem_fieldsOf]
  constructor
  · rintro ⟨entry, -, declared⟩
    exact List.mem_of_getElem? declared
  · intro mem
    obtain ⟨position, declared⟩ := List.mem_iff_getElem?.1 mem
    obtain ⟨entry, mem', valueType, -, rfl⟩ := h.exists_entry declared
    exact ⟨_, written.2 mem', declared⟩

/-- The entries outside of oneofs come first. -/
theorem Builds.writingOrder_eq_append (h : registry.Builds type table) :
    table.writingOrder = table.writingOrder.filter (·.group.isNone) ++
      table.writingOrder.filter (!·.group.isNone) := by
  apply eq_filter_append_filter
  apply h.sorted_writingOrder.imp
  intro a b first none
  rw [FieldTable.writtenBefore_iff, Option.isNone_iff_eq_none.1 none] at first
  cases group : a.group with
  | none => rfl
  | some index =>
      rw [group] at first
      cases first

/-- So the fields outside oneofs come before all members. -/
theorem Builds.fieldsOf_writingOrder (h : registry.Builds type table) :
    fieldsOf type table.writingOrder =
      fieldsOf type (table.writingOrder.filter (·.group.isNone)) ++
        fieldsOf type (table.writingOrder.filter (!·.group.isNone)) := by
  have split := congrArg (fieldsOf type) h.writingOrder_eq_append
  exact split.trans List.filterMap_append

/-- What is written first are the fields outside of oneofs, and behind them come the members. -/
theorem Builds.writingOrder_fieldsOf (h : registry.Builds type table) :
    WritingOrder type (fieldsOf type (table.writingOrder.filter (·.group.isNone)))
      (fieldsOf type (table.writingOrder.filter (!·.group.isNone))) := by
  have written : ∀ {entry}, entry ∈ table.writingOrder → entry ∈ table.entries :=
    h.perm_writingOrder.mem_iff.1
  constructor
  case perm =>
    have perm := h.perm_fieldsOf
    rw [h.fieldsOf_writingOrder] at perm
    exact perm
  case outside =>
    intro field mem index real
    obtain ⟨entry, mem', declared⟩ := mem_fieldsOf.1 mem
    obtain ⟨listed, none⟩ := List.mem_filter.1 mem'
    rw [(h.group_eq_some_iff (written listed) declared).2 real] at none
    cases none
  case ascending =>
    refine List.pairwise_filterMap.2 ?_
    apply (h.strict_writingOrder.filter _).imp_of_mem
    rintro a b mem mem' ⟨first, ne⟩ field declared later declared'
    obtain ⟨listed, none⟩ := List.mem_filter.1 mem
    obtain ⟨listed', none'⟩ := List.mem_filter.1 mem'
    rw [FieldTable.writtenBefore_iff, Option.isNone_iff_eq_none.1 none,
      Option.isNone_iff_eq_none.1 none'] at first
    rw [← h.number_of_mem (written listed) declared, ← h.number_of_mem (written listed') declared']
    exact Nat.lt_of_le_of_ne first ne
  case inside =>
    intro field mem
    obtain ⟨entry, mem', declared⟩ := mem_fieldsOf.1 mem
    obtain ⟨listed, some⟩ := List.mem_filter.1 mem'
    cases group : entry.group with
    | none => simp [group] at some
    | some index => exact ⟨index, (h.group_eq_some_iff (written listed) declared).1 group⟩
  case grouped =>
    refine List.pairwise_filterMap.2 ?_
    apply (h.strict_writingOrder.filter _).imp_of_mem
    rintro a b mem mem' ⟨first, ne⟩ field declared later declared' index other real real'
    have listed := written (List.mem_filter.1 mem).1
    have listed' := written (List.mem_filter.1 mem').1
    rw [FieldTable.writtenBefore_iff, (h.group_eq_some_iff listed declared).2 real,
      (h.group_eq_some_iff listed' declared').2 real'] at first
    rw [← h.number_of_mem listed declared, ← h.number_of_mem listed' declared']
    exact first.imp_right (And.imp_right fun le => Nat.lt_of_le_of_ne le ne)

theorem Builds.map_writingOrder (h : registry.Builds type table) :
    (table.writingOrder.map fun entry => type.fields[entry.position]?) =
      (fieldsOf type table.writingOrder).map some := by
  rw [fieldsOf, List.map_filterMap_some_eq_filter_map_isSome, List.filter_eq_self.2]
  intro field mem
  obtain ⟨entry, mem', rfl⟩ := List.mem_map.1 mem
  obtain ⟨field, declared, -⟩ :=
    number_of_entryAt? (h.entryAt?_of_mem (h.perm_writingOrder.mem_iff.1 mem'))
  rw [declared]
  rfl

end Registry

/-! ## Tables of a session -/

namespace Store

variable {store : Store} {type : MessageType} {table : FieldTable}

/-- A table, whenever it is asked for, lists the entries of the declared fields in the order of
writing, which is the one that sorting gives. -/
theorem Reachable.written_in_order (h : store.Reachable) (held : store.Holds type)
    (found : ((Coding.table type).run store).1 = .ok table) :
    (∃ plain members, WritingOrder type plain members ∧
      (table.writingOrder.map fun entry => type.fields[entry.position]?) =
        (plain ++ members).map some) ∧
    (∀ entry ∈ table.writingOrder,
      (store.registry type.registry).entryAt? type entry.position = some entry) ∧
    table.writingOrder = sortBy FieldTable.writtenBefore table.entries := by
  have builds := h.sound.builds_of_table held found
  refine ⟨⟨_, _, builds.writingOrder_fieldsOf, ?_⟩, ?_, builds.writingOrder_eq⟩
  · rw [builds.map_writingOrder, builds.fieldsOf_writingOrder]
  · intro entry mem
    exact builds.entryAt?_of_mem (builds.perm_writingOrder.mem_iff.1 mem)

end Store

/-! ## A type with oneofs -/

/-- A type with two oneofs and a synthetic one, whose fields are declared in no order. -/
def shelfType : MessageType :=
  ⟨⟨"s.Shelf", .proto3,
    [{ FieldDescriptor.plain "d" 4 .int32 with oneof := some 0 },
      .plain "g" 7 .string,
      { FieldDescriptor.plain "b" 2 .int32 with oneof := some 1 },
      { FieldDescriptor.plain "f" 6 .int32 with oneof := some 2 },
      .plain "a" 1 .bool,
      { FieldDescriptor.plain "c" 3 .int32 with oneof := some 0 }],
    [⟨"second", false⟩, ⟨"first", false⟩, ⟨"_f", true⟩], [], false⟩, .full, ⟨0⟩⟩

theorem reachable_shelfStore : (Store.holding [shelfType]).Reachable := by
  have registered : ((Store.holding []).registry ⟨0⟩).register shelfType.descriptor .full =
      .ok (shelfType, (Store.holding [shelfType]).registry ⟨0⟩) := rfl
  exact .register Store.reachable_holding_nil registered

namespace Store

/-- The optional field keeps its place, the members of the two oneofs come last. -/
theorem written_in_order_shelf :
    ∃ table, ((Coding.table shelfType).run (holding [shelfType])).1 = .ok table ∧
      table.writingOrder.map (·.number) = [1, 6, 7, 3, 4, 2] ∧
      ∃ plain members, WritingOrder shelfType plain members ∧
        (table.writingOrder.map fun entry => shelfType.fields[entry.position]?) =
          (plain ++ members).map some := by
  have held : (holding [shelfType]).Holds shelfType := List.mem_cons_self
  have found : ((Coding.table shelfType).run (holding [shelfType])).1 =
      .ok (.build shelfType [none, none, none, none, none, none] false) := by
    decide +kernel
  exact ⟨_, found, by decide +kernel,
    (reachable_shelfStore.written_in_order held found).1⟩

end Store

end ProtoWire
