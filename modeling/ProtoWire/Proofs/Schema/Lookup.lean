import ProtoWire.Proofs.Registry.Catalog
import ProtoWire.Proofs.Schema.Table

/-!
# Looking up fields

A table is asked for a number in three ways: through its dense array, by search, and through the
one and then the other. What they should answer can be said by the declaration of the type alone
(`Registry.entryOf?`), and how far the dense array goes by the numbers alone
(`FieldTable.LongestRun`). `Registry.Tabulates` says that a table keeps to this, which every table
does (`Store.Reachable.tabulates_of_table`).
-/

set_option autoImplicit false

namespace ProtoWire

/-! ## The end of the dense array -/

namespace FieldTable

/-- Behind the given number, every number is below 16 or below twice the one before it. -/
def Run (last : Nat) (numbers : List Nat) : Prop :=
  (last :: numbers).IsChain fun before number => number < 16 ∨ number < 2 * before

/-- The longest front of some numbers that is a run. -/
structure LongestRun (last : Nat) (front numbers : List Nat) : Prop where
  inside : front <+: numbers
  run : Run last front
  longest : ∀ other, other <+: numbers → Run last other → other <+: front

theorem run_cons_iff {last number : Nat} {numbers : List Nat} :
    Run last (number :: numbers) ↔ (number < 16 ∨ number < 2 * last) ∧ Run number numbers :=
  List.isChain_cons_cons

theorem run_nil (last : Nat) : Run last [] :=
  List.IsChain.singleton last

/-- A run that cannot go on. -/
theorem longestRun_nil {last number : Nat} {numbers : List Nat}
    (far : ¬(number < 16 ∨ number < 2 * last)) : LongestRun last [] (number :: numbers) where
  inside := List.nil_prefix
  run := run_nil last
  longest := by
    intro other inside run
    cases other with
    | nil => exact List.prefix_rfl
    | cons first other =>
        obtain ⟨rfl, -⟩ := List.cons_prefix_cons.1 inside
        exact absurd (run_cons_iff.1 run).1 far

/-- A run that goes on. -/
theorem LongestRun.cons {last number : Nat} {front numbers : List Nat}
    (h : LongestRun number front numbers) (near : number < 16 ∨ number < 2 * last) :
    LongestRun last (number :: front) (number :: numbers) where
  inside := List.cons_prefix_cons.2 ⟨rfl, h.inside⟩
  run := run_cons_iff.2 ⟨near, h.run⟩
  longest := by
    intro other inside run
    cases other with
    | nil => exact List.nil_prefix
    | cons first other =>
        obtain ⟨rfl, inside'⟩ := List.cons_prefix_cons.1 inside
        exact List.cons_prefix_cons.2 ⟨rfl, h.longest other inside' (run_cons_iff.1 run).2⟩

/-- The dense array ends where the longest run does. -/
theorem exists_longestRun (last : Nat) (entries : List FieldEntry) :
    ∃ front, LongestRun last front (entries.map (·.number)) ∧
      denseEnd last entries = front.getLastD last := by
  -- induction on the entries behind the last number
  induction entries generalizing last with
  | nil => exact ⟨[], ⟨List.prefix_rfl, run_nil last, fun _ inside _ => inside⟩, rfl⟩
  | cons entry entries ih =>
      rw [denseEnd, denseMinimum, denseGrowth]
      split
      · next far =>
          have stops : ¬(entry.number < 16 ∨ entry.number < 2 * last) := by omega
          exact ⟨[], longestRun_nil stops, rfl⟩
      · next near =>
          obtain ⟨front, longest, ends⟩ := ih entry.number
          have goesOn : entry.number < 16 ∨ entry.number < 2 * last := by omega
          refine ⟨entry.number :: front, longest.cons goesOn, ?_⟩
          rw [ends, List.getLastD_cons]

end FieldTable

/-! ## What the declaration says -/

namespace Registry

variable {registry : Registry} {type : MessageType} {table : FieldTable}

/-- The entry of the field at a position. -/
def entryAt? (registry : Registry) (type : MessageType) (position : Nat) : Option FieldEntry :=
  (type.fields[position]?).map fun field =>
    FieldTable.entry type position field (field.valueTypeName?.bind registry.type?)

/-- The entry of the declared field of a number. -/
def entryOf? (registry : Registry) (type : MessageType) (number : Nat) :
    Option FieldEntry :=
  (type.fields.findIdx? fun field => field.number == number).bind (registry.entryAt? type)

/-- The table has the entries of the declared fields, whose numbers are distinct, in ascending
order and finds each of them under its number. The dense array finds those that it has a place
for, which are the ones up to the end of the longest run of numbers. -/
structure Tabulates (registry : Registry) (type : MessageType) (table : FieldTable) : Prop where
  distinct : (type.fields.map (·.number)).Nodup
  entries : ∀ entry,
    entry ∈ table.entries ↔ ∃ position, registry.entryAt? type position = some entry
  ascending : table.entries.Pairwise (·.number < ·.number)
  entry : ∀ number, table.entry? number = registry.entryOf? type number
  searched : ∀ number, table.searchedEntry? number = registry.entryOf? type number
  dense : ∀ number, table.denseEntry? number =
    if number < table.dense.length then registry.entryOf? type number else none
  extent : ∃ front, FieldTable.LongestRun 0 front (table.entries.map (·.number)) ∧
    table.dense.length = front.getLastD 0 + 1

theorem Builds.nodup_numbers (h : registry.Builds type table) :
    (type.fields.map (·.number)).Nodup := by
  obtain ⟨valueTypes, needsInitCheck, resolved, -⟩ := h
  exact Resolvable.nodup_numbers ⟨valueTypes, resolved⟩

theorem Builds.mem_entries_iff (h : registry.Builds type table) {entry : FieldEntry} :
    entry ∈ table.entries ↔ ∃ position, registry.entryAt? type position = some entry := by
  constructor
  · intro mem
    obtain ⟨field, valueType, declared, resolves, eq⟩ := h.field_of_mem mem
    refine ⟨entry.position, ?_⟩
    rw [entryAt?, declared, Option.map_some, ← resolves.value, ← eq]
  · rintro ⟨position, found⟩
    obtain ⟨field, declared, rfl⟩ := Option.map_eq_some_iff.1 found
    obtain ⟨entry, mem, valueType, resolves, rfl⟩ := h.exists_entry declared
    rw [← resolves.value]
    exact mem

theorem number_of_entryAt? {position : Nat} {entry : FieldEntry}
    (h : registry.entryAt? type position = some entry) :
    ∃ field, type.fields[position]? = some field ∧ field.number = entry.number := by
  obtain ⟨field, declared, rfl⟩ := Option.map_eq_some_iff.1 h
  exact ⟨field, declared, rfl⟩

/-- Where no number occurs twice, an entry is declared under its number. -/
theorem entryOf?_eq_some_iff (distinct : (type.fields.map (·.number)).Nodup) {number : Nat}
    {entry : FieldEntry} :
    registry.entryOf? type number = some entry ↔
      (∃ position, registry.entryAt? type position = some entry) ∧ entry.number = number := by
  rw [entryOf?, Option.bind_eq_some_iff]
  constructor
  · rintro ⟨position, first, found⟩
    obtain ⟨inside, here, -⟩ := List.findIdx?_eq_some_iff_getElem.1 first
    obtain ⟨field, declared, number'⟩ := number_of_entryAt? found
    rw [List.getElem?_eq_getElem inside, Option.some.injEq] at declared
    rw [declared, beq_iff_eq] at here
    exact ⟨⟨position, found⟩, number'.symm.trans here⟩
  · rintro ⟨⟨position, found⟩, rfl⟩
    obtain ⟨field, declared, same⟩ := number_of_entryAt? found
    cases first : type.fields.findIdx? fun field => field.number == entry.number with
    | none =>
        have missing := List.findIdx?_eq_none_iff.1 first field (List.mem_of_getElem? declared)
        simp [same] at missing
    | some other =>
        obtain ⟨inside, here, -⟩ := List.findIdx?_eq_some_iff_getElem.1 first
        -- the first field of the number is the only one
        have declared' := List.getElem?_eq_getElem inside
        have position' := position_eq_of_key_eq distinct declared' declared
          ((eq_of_beq here).trans same.symm)
        exact ⟨other, rfl, position' ▸ found⟩

theorem Builds.searchedEntry?_eq (h : registry.Builds type table) (number : Nat) :
    table.searchedEntry? number = registry.entryOf? type number := by
  apply Option.ext
  intro entry
  rw [h.searchedEntry?_eq_some_iff, h.mem_entries_iff, entryOf?_eq_some_iff h.nodup_numbers]

theorem Builds.longestRun (h : registry.Builds type table) :
    ∃ front, FieldTable.LongestRun 0 front (table.entries.map (·.number)) ∧
      table.dense.length = front.getLastD 0 + 1 := by
  obtain ⟨valueTypes, needsInitCheck, -, rfl⟩ := h
  obtain ⟨front, longest, ends⟩ := FieldTable.exists_longestRun 0
    (FieldTable.build type valueTypes needsInitCheck).entries
  refine ⟨front, longest, ?_⟩
  rw [← ends, FieldTable.build, FieldTable.length_layOut]

theorem Builds.tabulates (h : registry.Builds type table) : registry.Tabulates type table where
  distinct := h.nodup_numbers
  entries _ := h.mem_entries_iff
  ascending := h.ascending
  entry number := (h.entry?_eq_searchedEntry? number).trans (h.searchedEntry?_eq number)
  searched := h.searchedEntry?_eq
  dense number := by rw [h.denseEntry?_eq, h.searchedEntry?_eq]
  extent := h.longestRun

end Registry

/-! ## Tables of a session -/

namespace Store

variable {store : Store} {type : MessageType} {table : FieldTable}

/-- A table, whenever it is asked for, finds the declared field of each number. -/
theorem Reachable.tabulates_of_table (h : store.Reachable) (held : store.Holds type)
    (found : ((Coding.table type).run store).1 = .ok table) :
    (store.registry type.registry).Tabulates type table :=
  (h.sound.builds_of_table held found).tabulates

end Store

/-! ## A type with a gap -/

/-- A type whose fields are not declared in the order of their numbers, of which the last one is
far from the others. -/
def gapType : MessageType :=
  ⟨⟨"g.Gap", .proto3,
    [.plain "a" 17 .int32, .plain "b" 1 .string, .plain "c" 2 .bool, .plain "d" 30 .bytes,
      .plain "e" 9 .double, .plain "f" 100 .uint64], [], [], false⟩, .full, ⟨0⟩⟩

theorem reachable_gapStore : (Store.holding [gapType]).Reachable := by
  have registered : ((Store.holding []).registry ⟨0⟩).register gapType.descriptor .full =
      .ok (gapType, (Store.holding [gapType]).registry ⟨0⟩) := rfl
  exact .register Store.reachable_holding_nil registered

namespace Store

/-- The dense array ends with the number 30, and the number 100 has to be searched for. -/
theorem tabulates_gap : ∃ table, ((Coding.table gapType).run (holding [gapType])).1 = .ok table ∧
    ((holding [gapType]).registry ⟨0⟩).Tabulates gapType table ∧
    table.dense.length = 31 ∧ (table.entry? 100).map (·.position) = some 5 ∧
    table.denseEntry? 100 = none := by
  have held : (holding [gapType]).Holds gapType := List.mem_cons_self
  have found : ((Coding.table gapType).run (holding [gapType])).1 =
      .ok (.build gapType [none, none, none, none, none, none] false) := by
    decide +kernel
  exact ⟨_, found, reachable_gapStore.tabulates_of_table held found, by decide +kernel,
    by decide +kernel, by decide +kernel⟩

end Store

end ProtoWire
