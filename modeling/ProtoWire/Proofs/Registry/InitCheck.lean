import ProtoWire.Proofs.Registry.Defects
import ProtoWire.Proofs.Registry.InitSearch
import ProtoWire.Proofs.Registry.Vouching

/-!
# What the flag of a table says

When a table is built, it notes whether any type that its type reaches may lack a required field,
so that messages of all other types need not be looked into. The note is exact
(`needsInitCheck_iff_of_buildTable`), and it stays so in tables that were kept before more types
were registered, because a whole type reaches the same types from then on (`Whole.mayLack_iff`).
Hence the table of a type of any session says just whether the type may lack a field as things are
now (`Store.Reachable.needsInitCheck_iff`).

Main statement: whatever cycles the types lie on, the flag says just whether a type that is reached
has a required field or a range of extension numbers, and the search for it visits no type twice
(`Store.Reachable.needsInitCheck_iff_exists_reached`).
-/

set_option autoImplicit false

namespace ProtoWire

namespace Registry

variable {registry later : Registry} {type other : MessageType} {table : FieldTable}

/-! ## More registered types -/

theorem Links.mono (h : registry.Links type other) (more : registry.Extends later) :
    later.Links type other := by
  obtain ⟨field, mem, value⟩ := h
  obtain ⟨name, named, found⟩ := Option.bind_eq_some_iff.1 value
  exact ⟨field, mem, Option.bind_eq_some_iff.2 ⟨name, named, more name other found⟩⟩

theorem Reaches.mono (h : registry.Reaches type other) (more : registry.Extends later) :
    later.Reaches type other :=
  Relation.ReflTransGen.mono (fun _ _ link => link.mono more) _ _ h

/-- What a whole type may lack does not depend on what is registered later. -/
theorem Whole.mayLack_iff (whole : registry.Whole type) (more : registry.Extends later) :
    later.MayLack type ↔ registry.MayLack type := by
  constructor
  · rintro ⟨other, reached, lacks⟩
    exact ⟨other, whole.reaches_of_extends more reached, lacks⟩
  · rintro ⟨other, reached, lacks⟩
    exact ⟨other, reached.mono more, lacks⟩

/-! ## The flag -/

theorem needsInitCheck_iff_of_buildTable (sound : registry.Sound) (mem : type ∈ registry.types)
    (h : registry.buildTable type = .ok table) :
    table.needsInitCheck = true ↔ registry.MayLack type := by
  simp only [buildTable] at h
  split at h
  · simp at h
  · split at h
    · simp at h
    · split at h
      · simp at h
      · cases h
        exact searchType_found_iff sound mem

/-- The flags of all tables that are kept are right. -/
def Flagged (registry : Registry) : Prop :=
  ∀ type ∈ registry.types, ∀ table,
    registry.tables.lookup type.fullName = some (.ok table) →
      (table.needsInitCheck = true ↔ registry.MayLack type)

theorem flagged_empty (id : RegistryId) : (Registry.empty id).Flagged := by
  simp [Flagged, empty]

theorem Flagged.iff_of_tableOf (flagged : registry.Flagged) (sound : registry.Sound)
    (mem : type ∈ registry.types) (h : registry.tableOf type = .ok table) :
    table.needsInitCheck = true ↔ registry.MayLack type := by
  rw [tableOf] at h
  cases kept : registry.tables.lookup type.fullName with
  | none =>
      rw [kept] at h
      exact needsInitCheck_iff_of_buildTable sound mem h
  | some result =>
      rw [kept] at h
      exact flagged type mem table (kept.trans (congrArg some h))

/-- A flag stays right, since the table vouches for the types that it is about. -/
theorem Flagged.iff_of_extends (flagged : registry.Flagged) (vouched : registry.Vouched)
    (more : registry.Extends later) (mem : type ∈ registry.types)
    (kept : registry.tables.lookup type.fullName = some (.ok table)) :
    table.needsInitCheck = true ↔ later.MayLack type := by
  rw [(vouched.tables type mem table kept).mayLack_iff more]
  exact flagged type mem table kept

/-- What a move that keeps no table leaves of the flags. -/
theorem Flagged.congr (flagged : registry.Flagged) (vouched : registry.Vouched)
    (types : later.types = registry.types) (tables : later.tables = registry.tables) :
    later.Flagged := by
  intro type mem table kept
  rw [types] at mem
  rw [tables] at kept
  exact flagged.iff_of_extends vouched (extends_of_types_eq types) mem kept

theorem Move.flagged (move : registry.Move later) (sound : registry.Sound)
    (vouched : registry.Vouched) (flagged : registry.Flagged) : later.Flagged := by
  have more := move.extends_of_move
  cases move with
  | stay => exact flagged
  | register h =>
      obtain ⟨fresh, -, rfl⟩ := eq_of_register h
      intro type mem table kept
      rcases List.mem_append.1 mem with mem | mem
      · exact flagged.iff_of_extends vouched more mem kept
      -- nothing is kept under the name of the new type
      · rw [List.mem_singleton.1 mem] at kept
        have named := sound.tableNames _ (by rw [kept]; rfl)
        rw [fresh] at named
        simp at named
  | registerExtension h =>
      obtain ⟨-, -, -, -, -, rfl⟩ := eq_of_registerExtension h
      exact flagged.congr vouched rfl rfl
  | drop => exact flagged.congr vouched rfl rfl
  | @keepTable kept mem =>
      intro type listed table found
      rw [types_keepTable] at listed
      rw [lookup_tables_keepTable] at found
      split at found
      · next name =>
          obtain rfl := sound.eq_of_fullName listed mem name
          have now := Option.some.inj found
          rw [(vouched.whole_of_tableOf sound mem now).mayLack_iff more]
          exact flagged.iff_of_tableOf sound mem now
      · exact flagged.iff_of_extends vouched more listed found
  | keepCodec => exact flagged.congr vouched (by simp) (by simp)

end Registry

namespace Store

variable {store : Store}

theorem Reachable.flagged (h : store.Reachable) (id : RegistryId) :
    (store.registry id).Flagged := by
  have leads := reachable_iff_leads.1 h
  clear h
  induction leads with
  | refl => exact Registry.flagged_empty id
  | @tail middle last leads step ih =>
      have before := reachable_iff_leads.2 leads
      exact (step.move before.sound id).flagged (before.sound.registry id) (before.vouched id) ih

/-- A table asks for the check of its messages just if a type that its type reaches may lack a
field. -/
theorem Reachable.needsInitCheck_iff (h : store.Reachable) {type : MessageType}
    (held : store.Holds type) {table : FieldTable} (found : store.catalog.table type = .ok table) :
    table.needsInitCheck = true ↔ (store.registry type.registry).MayLack type :=
  (h.flagged type.registry).iff_of_tableOf (h.sound.registry _) held found

/-- The flag of a table says just whether some type that is reached, the type of the table
included, has a required field or a range of extension numbers, on whatever cycles the types lie.
The search for it visits reached types only, and none of them twice. -/
theorem Reachable.needsInitCheck_iff_exists_reached (h : store.Reachable) {type : MessageType}
    (held : store.Holds type) {table : FieldTable}
    (found : ((Coding.table type).run store).1 = .ok table) :
    (table.needsInitCheck = true ↔
      ∃ other, (store.registry type.registry).Reaches type other ∧
        ((∃ field ∈ other.fields, field.cardinality = .required) ∨
          other.descriptor.extensionRanges ≠ [])) ∧
    ((store.registry type.registry).searchType type []).found = table.needsInitCheck ∧
    ((store.registry type.registry).searchType type []).visited.Nodup ∧
    (∀ name ∈ ((store.registry type.registry).searchType type []).visited,
      ∃ other, (store.registry type.registry).Reaches type other ∧ other.fullName = name) ∧
    ((store.registry type.registry).searchType type []).visited.length ≤
      (store.registry type.registry).types.length := by
  have sound := h.sound.registry type.registry
  have flag := (h.flagged type.registry).iff_of_tableOf sound held found
  have search := Registry.searchType_found_iff sound held
  refine ⟨?_, ?_, Registry.nodup_visited sound held,
    fun name => Registry.exists_reached_of_visited sound held,
    Registry.length_visited_le sound held⟩
  · simp only [flag, Registry.MayLack, Registry.mayLackFields_iff]
  · rw [Bool.eq_iff_iff, search, flag]

/-! ## Sheets, folders and marks -/

end Store

/-- A type with a required field. -/
def markType : MessageType :=
  ⟨⟨"f.Mark", .proto2, [{ FieldDescriptor.plain "id" 1 .int32 with cardinality := .required }],
    [], [], false⟩, .full, ⟨0⟩⟩

/-- A type that leads to itself, to the cycle of folders and notes, and then to marks. -/
def sheetType : MessageType :=
  ⟨⟨"f.Sheet", .proto3,
    [{ FieldDescriptor.plain "sheets" 1 .message with
        cardinality := .repeated, messageType := some "f.Sheet" },
      { FieldDescriptor.plain "folder" 2 .message with messageType := some "f.Folder" },
      { FieldDescriptor.plain "mark" 3 .group with messageType := some "f.Mark" }],
    [], [], false⟩, .full, ⟨0⟩⟩

def sheetStore : Store :=
  .holding [folderType, noteType 2, markType, sheetType]

theorem reachable_sheetStore : sheetStore.Reachable := by
  have mark : ((folderStore 2).registry ⟨0⟩).register markType.descriptor .full =
      .ok (markType, (Store.holding [folderType, noteType 2, markType]).registry ⟨0⟩) := rfl
  have sheet : ((Store.holding [folderType, noteType 2, markType]).registry ⟨0⟩).register
      sheetType.descriptor .full = .ok (sheetType, sheetStore.registry ⟨0⟩) := rfl
  have first : (Store.holding [folderType, noteType 2, markType]).Reachable :=
    .register (reachable_folderStore 2) mark
  exact .register first sheet

namespace Store

/-- Sheets reach marks, behind a cycle that is without required fields. -/
theorem needsInitCheck_sheet :
    (∃ table, ((Coding.table sheetType).run sheetStore).1 = .ok table ∧
      table.needsInitCheck = true) ∧
    ∃ table, ((Coding.table folderType).run sheetStore).1 = .ok table ∧
      table.needsInitCheck = false := by
  have held : sheetStore.Holds sheetType :=
    List.mem_cons_of_mem _ (List.mem_cons_of_mem _ (List.mem_cons_of_mem _ List.mem_cons_self))
  have held' : sheetStore.Holds folderType := List.mem_cons_self
  have link : (sheetStore.registry ⟨0⟩).Links sheetType markType :=
    ⟨_, List.mem_cons_of_mem _ (List.mem_cons_of_mem _ List.mem_cons_self), rfl⟩
  have unfound : ((sheetStore.registry ⟨0⟩).searchType folderType []).found = false := by
    decide +kernel
  obtain ⟨sheet, -⟩ := reachable_sheetStore.needsInitCheck_iff_exists_reached held rfl
  obtain ⟨-, folder, -⟩ := reachable_sheetStore.needsInitCheck_iff_exists_reached held' rfl
  refine ⟨⟨_, rfl, sheet.2 ⟨markType, .single link, .inl ⟨_, List.mem_cons_self, rfl⟩⟩⟩, _, rfl, ?_⟩
  exact folder.symm.trans unfound

end Store

end ProtoWire
