import ProtoWire.Proofs.Registry.Exploration
import ProtoWire.Proofs.Registry.Session

/-!
# Tables vouch for tables

The table of a type exists only if every type that it reaches is without defect, and an extension
is registered only if its value type is so (`Registry.Vouched`). What was without defect once
stays so, whatever is registered later. Hence, while the registry is alive, the tables of all
reached types are there whenever they are asked for (`Registry.Assures`), unless a failure stands
in the way: failures are kept as well, and one that was kept before the types it was about were
registered is reported for good. `Registry.Settled` says that no such failure is kept of a type, and
`Registry.SettledFrom` that none is kept of the types that it reaches.
-/

set_option autoImplicit false

namespace ProtoWire

namespace Registry

variable {registry later : Registry} {type other : MessageType}

/-! ## What was vouched for -/

/-- Every table kept, and every extension registered, vouches for the types that it reaches. -/
structure Vouched (registry : Registry) : Prop where
  tables : ∀ type ∈ registry.types, ∀ table,
    registry.tables.lookup type.fullName = some (.ok table) → registry.Whole type
  extensions : ∀ extension ∈ registry.extensions, ∀ valueType,
    extension.valueType = some valueType → registry.Whole valueType

theorem vouched_empty (id : RegistryId) : (Registry.empty id).Vouched := by
  constructor <;> simp [empty]

theorem Whole.congr (whole : registry.Whole type) (same : later.types = registry.types) :
    later.Whole type :=
  whole.mono (extends_of_types_eq same)

/-- Vouching does not look at the kept codecs, nor at whether the registry was dropped. -/
theorem Vouched.congr (vouched : registry.Vouched) (types : later.types = registry.types)
    (extensions : later.extensions = registry.extensions)
    (tables : later.tables = registry.tables) : later.Vouched := by
  constructor
  · intro type mem table kept
    rw [types] at mem
    rw [tables] at kept
    exact (vouched.tables type mem table kept).congr types
  · intro extension mem valueType value
    rw [extensions] at mem
    exact (vouched.extensions extension mem valueType value).congr types

/-- The registered value type of an extension is whole. -/
theorem whole_of_resolveExtension (sound : registry.Sound) {descriptor : ExtensionDescriptor}
    {valueType : MessageType} (h : registry.resolveExtension descriptor = .ok (some valueType)) :
    registry.Whole valueType := by
  simp only [resolveExtension] at h
  split at h
  · simp at h
  · split at h
    · simp at h
    · next found =>
        split at h
        · simp at h
        · next resolved =>
            have spec := reachableFrom_spec sound (mem_types_of_type? found).1 resolved
            split at h
            · simp at h
            · next search =>
                rw [search] at spec
                cases h
                exact spec.2

/-- A table that is kept, or can be built now, is that of a whole type. -/
theorem Vouched.whole_of_tableOf (vouched : registry.Vouched) (sound : registry.Sound)
    (mem : type ∈ registry.types) {table : FieldTable} (h : registry.tableOf type = .ok table) :
    registry.Whole type := by
  rw [tableOf] at h
  cases kept : registry.tables.lookup type.fullName with
  | none =>
      rw [kept] at h
      exact ((exists_buildTable_iff sound mem).1 ⟨table, h⟩).2
  | some result =>
      rw [kept] at h
      exact vouched.tables type mem table (kept.trans (congrArg some h))

theorem Move.vouched (move : registry.Move later) (sound : registry.Sound)
    (vouched : registry.Vouched) : later.Vouched := by
  have more := move.extends_of_move
  cases move with
  | stay => exact vouched
  | register h =>
      obtain ⟨fresh, -, rfl⟩ := eq_of_register h
      constructor
      · intro type mem table kept
        rcases List.mem_append.1 mem with mem | mem
        · exact (vouched.tables type mem table kept).mono more
        -- nothing is kept under the name of the new type
        · rw [List.mem_singleton.1 mem] at kept
          have named := sound.tableNames _ (by rw [kept]; rfl)
          rw [fresh] at named
          simp at named
      · intro extension mem valueType value
        exact (vouched.extensions extension mem valueType value).mono more
  | registerExtension h =>
      obtain ⟨-, resolved, -, -, -, rfl⟩ := eq_of_registerExtension h
      constructor
      · exact fun type mem table kept => (vouched.tables type mem table kept).mono more
      · intro extension mem valueType value
        rcases List.mem_append.1 mem with mem | mem
        · exact (vouched.extensions extension mem valueType value).mono more
        -- the new extension was vouched for when it was registered
        · rw [List.mem_singleton.1 mem] at value
          rw [value] at resolved
          exact (whole_of_resolveExtension sound resolved).mono more
  | drop => exact vouched.congr rfl rfl rfl
  | @keepTable kept mem =>
      constructor
      · intro type listed table found
        rw [types_keepTable] at listed
        rw [lookup_tables_keepTable] at found
        split at found
        · next name =>
            obtain rfl := sound.eq_of_fullName listed mem name
            exact (vouched.whole_of_tableOf sound mem (Option.some.inj found)).mono more
        · exact (vouched.tables type listed table found).mono more
      · intro extension listed valueType value
        rw [extensions_keepTable] at listed
        exact (vouched.extensions extension listed valueType value).mono more
  | keepCodec => exact vouched.congr (by simp) (by simp) (by simp)

/-! ## What is there whenever it is asked for -/

/-- No failure is kept of the type, or its table cannot be built by now either. -/
def Settled (registry : Registry) (type : MessageType) : Prop :=
  ∀ error, registry.tables.lookup type.fullName = some (.error error) →
    ∀ table, registry.buildTable type ≠ .ok table

/-- The same of all types that the type reaches. -/
def SettledFrom (registry : Registry) (type : MessageType) : Prop :=
  ∀ other, registry.Reaches type other → registry.Settled other

/-- The type is whole, and no failure is kept of it. -/
structure Assures (registry : Registry) (type : MessageType) : Prop where
  whole : registry.Whole type
  unfailed : ∀ error, registry.tables.lookup type.fullName ≠ some (.error error)

/-- In a registry that is alive, settled types are assured if they are whole. -/
theorem Settled.assures (settled : registry.Settled type) (sound : registry.Sound)
    (alive : registry.dropped = false) (mem : type ∈ registry.types)
    (whole : registry.Whole type) : registry.Assures type := by
  refine ⟨whole, fun error kept => ?_⟩
  obtain ⟨table, built⟩ := (exists_buildTable_iff sound mem).2 ⟨alive, whole⟩
  exact settled error kept table built

/-- The table of an assured type is there. -/
theorem Assures.exists_tableOf (assures : registry.Assures type) (sound : registry.Sound)
    (alive : registry.dropped = false) (mem : type ∈ registry.types) :
    ∃ table, registry.tableOf type = .ok table := by
  rw [tableOf]
  cases kept : registry.tables.lookup type.fullName with
  | none => exact (exists_buildTable_iff sound mem).2 ⟨alive, assures.whole⟩
  | some result =>
      cases result with
      | error error => exact absurd kept (assures.unfailed error)
      | ok table => exact ⟨table, rfl⟩

/-- A type that is assured stays so as long as the registry is alive. -/
theorem Move.assures (move : registry.Move later) (sound : registry.Sound)
    (alive : later.dropped = false) (mem : type ∈ registry.types)
    (assures : registry.Assures type) : later.Assures type := by
  refine ⟨assures.whole.mono move.extends_of_move, ?_⟩
  have before := move.alive alive
  cases move with
  | stay | drop => exact assures.unfailed
  | register h =>
      obtain ⟨-, -, rfl⟩ := eq_of_register h
      exact assures.unfailed
  | registerExtension h =>
      obtain ⟨-, -, -, -, -, rfl⟩ := eq_of_registerExtension h
      exact assures.unfailed
  | @keepTable kept mem' =>
      intro error failed
      rw [lookup_tables_keepTable] at failed
      split at failed
      -- what is kept now is the table of the type itself, which is there
      · next name =>
          obtain rfl := sound.eq_of_fullName mem mem' name
          obtain ⟨table, built⟩ := assures.exists_tableOf sound before mem
          rw [built] at failed
          simp at failed
      · exact assures.unfailed error failed
  | keepCodec =>
      rw [tables_keepCodec]
      exact assures.unfailed

end Registry

namespace Store

variable {store later : Store}

/-- Every registry of a session has vouched for the tables that it keeps. -/
theorem Reachable.vouched (h : store.Reachable) (id : RegistryId) :
    (store.registry id).Vouched := by
  rw [reachable_iff_leads] at h
  induction h with
  | refl => exact Registry.vouched_empty id
  | @tail middle last leads step ih =>
      have sound := (reachable_iff_leads.2 leads).sound
      exact (step.move sound id).vouched (sound.registry id) ih

/-- A registry that is alive was alive before. -/
theorem Leads.alive (leads : store.Leads later) (reachable : store.Reachable) {id : RegistryId}
    (alive : (later.registry id).dropped = false) : (store.registry id).dropped = false := by
  induction leads with
  | refl => exact alive
  | tail leads step ih =>
      exact ih ((step.move (reachable.leads leads).sound id).alive alive)

/-- Types that a registry has assured it assures as long as it is alive. -/
theorem Leads.assures (leads : store.Leads later) (reachable : store.Reachable) {id : RegistryId}
    (alive : (later.registry id).dropped = false) {type : MessageType}
    (mem : type ∈ (store.registry id).types) (assures : (store.registry id).Assures type) :
    type ∈ (later.registry id).types ∧ (later.registry id).Assures type := by
  induction leads with
  | refl => exact ⟨mem, assures⟩
  | @tail middle last leads step ih =>
      have sound := (reachable.leads leads).sound
      have move := step.move sound id
      obtain ⟨mem', assures'⟩ := ih (move.alive alive)
      exact ⟨move.mem_types mem', move.assures (sound.registry id) alive mem' assures'⟩

/-- Types that were found under a name are found under it from then on. -/
theorem Leads.extends_of_leads (leads : store.Leads later) (reachable : store.Reachable)
    (id : RegistryId) : (store.registry id).Extends (later.registry id) := by
  induction leads with
  | refl => exact fun _ _ found => found
  | @tail middle last leads step ih =>
      have move := step.move (reachable.leads leads).sound id
      exact fun name type found => move.extends_of_move name type (ih name type found)

/-- The tables of all types that a whole type reaches are there as long as the registry is alive,
whatever was registered and asked for in between. -/
theorem Leads.exists_table (leads : store.Leads later) (reachable : store.Reachable)
    {id : RegistryId} {type other : MessageType} (settled : (store.registry id).SettledFrom type)
    (alive : (later.registry id).dropped = false) (mem : type ∈ (store.registry id).types)
     (whole : (store.registry id).Whole type)
    (reached : (later.registry id).Reaches type other) :
    ∃ table, later.catalog.table other = .ok table := by
  have sound := reachable.sound
  have alive' := leads.alive reachable alive
  -- the type was reached before, and so the registry assured it then
  have before := whole.reaches_of_extends (leads.extends_of_leads reachable id) reached
  have registered := before.mem_types mem
  have assured :=
    (settled other before).assures (sound.registry id) alive' registered (whole.of_reaches before)
  obtain ⟨registered', assured'⟩ := leads.assures reachable alive registered assured
  have sound' := (reachable.leads leads).sound
  have home := (sound'.home_of_mem registered').2
  simp only [catalog, home]
  exact assured'.exists_tableOf (sound'.registry id) alive registered'

end Store

end ProtoWire
