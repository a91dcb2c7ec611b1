import ProtoWire.Proofs.Registry.Resolution

/-!
# Sound registries

What registration promises of a registry, whatever was registered in it and in whatever
order: types and extensions are found under their names and numbers, the two indexes of
the extensions hold the same, the values of an extension are of a registered type, and a
table that was kept is one that the registry builds for its type. Every operation on a
registry leaves it sound. A registration that fails changes nothing (`eq_of_enterType_error`,
`eq_of_enterExtension_error`), though a taken number is noticed only after the name was
entered.
-/

set_option autoImplicit false

namespace ProtoWire.Registry

variable {registry later : Registry}

/-- The registry builds a table for a type. -/
def Builds (registry : Registry) (type : MessageType) (table : FieldTable) : Prop :=
  ∃ valueTypes needsInitCheck, registry.resolve type = .ok valueTypes ∧
    table = .build type valueTypes needsInitCheck

/-- A table that was built once would be built again, whatever was registered since. -/
theorem Builds.mono {type : MessageType} {table : FieldTable} (h : registry.Builds type table)
    (more : registry.Extends later) : later.Builds type table := by
  obtain ⟨valueTypes, needsInitCheck, resolved, rfl⟩ := h
  exact ⟨valueTypes, needsInitCheck, resolve_mono resolved more, rfl⟩

/-- What building a table gives was built from resolved fields. -/
theorem builds_of_buildTable {type : MessageType} {table : FieldTable}
    (h : registry.buildTable type = .ok table) : registry.Builds type table := by
  simp only [buildTable] at h
  split at h
  · simp at h
  · split at h
    · simp at h
    · next valueTypes resolved =>
        split at h
        · simp at h
        · next reachable _ =>
            cases h
            exact ⟨valueTypes, _, resolved, rfl⟩

/-- What registration promises of a registry. -/
structure Sound (registry : Registry) : Prop where
  home : ∀ type ∈ registry.types, type.registry = registry.id
  named : ∀ type ∈ registry.types, registry.type? type.fullName = some type
  indexes : registry.extensionNames = registry.extensions
  extensionNamed : ∀ type ∈ registry.extensions,
    registry.extensionNamed? type.fullName = some type
  extensionNumbered : ∀ type ∈ registry.extensions,
    registry.extension? type.extendee type.number = some type
  extensionNumber : ∀ type ∈ registry.extensions, isFieldNumber type.number = true
  extensionValue : ∀ type ∈ registry.extensions,
    type.valueType.isSome = type.descriptor.field.kind.isMessage
  extensionValueType : ∀ type ∈ registry.extensions, ∀ valueType,
    type.valueType = some valueType → valueType ∈ registry.types
  extensionValueName : ∀ type ∈ registry.extensions, ∀ valueType,
    type.valueType = some valueType →
      type.descriptor.field.messageType.getD "" = valueType.fullName
  tables : ∀ type ∈ registry.types, ∀ table,
    registry.tables.lookup type.fullName = some (.ok table) → registry.Builds type table
  tableNames : ∀ name, (registry.tables.lookup name).isSome = true →
    (registry.type? name).isSome = true

/-- A sound registry has one type of a name. -/
theorem Sound.eq_of_fullName (sound : registry.Sound) {type other : MessageType}
    (mem : type ∈ registry.types) (mem' : other ∈ registry.types)
    (same : type.fullName = other.fullName) : type = other := by
  have found := sound.named type mem
  rw [same, sound.named other mem'] at found
  exact (Option.some.inj found).symm

/-- A sound registry has one extension of a name. -/
theorem Sound.extension_eq_of_fullName (sound : registry.Sound) {type other : ExtensionType}
    (mem : type ∈ registry.extensions) (mem' : other ∈ registry.extensions)
    (same : type.fullName = other.fullName) : type = other := by
  have found := sound.extensionNamed type mem
  rw [same, sound.extensionNamed other mem'] at found
  exact (Option.some.inj found).symm

theorem extends_of_types_eq (same : later.types = registry.types) : registry.Extends later := by
  intro name type found
  simpa only [type?, same] using found

theorem sound_empty (id : RegistryId) : (Registry.empty id).Sound where
  home := by simp [empty]
  named := by simp [empty]
  indexes := rfl
  extensionNamed := by simp [empty]
  extensionNumbered := by simp [empty]
  extensionNumber := by simp [empty]
  extensionValue := by simp [empty]
  extensionValueType := by simp [empty]
  extensionValueName := by simp [empty]
  tables := by simp [empty]
  tableNames := by simp [empty]

/-! ## Registering -/

/-- A type is entered only under a name that is free, and then nothing else changes. -/
theorem eq_of_enterType {descriptor : MessageDescriptor} {storage : Storage} {type : MessageType}
    (h : registry.enterType descriptor storage = (.ok type, later)) :
    registry.type? type.fullName = none ∧ type.registry = registry.id ∧
      later = { registry with types := registry.types ++ [type] } := by
  simp only [enterType] at h
  split at h
  · simp at h
  · next fresh =>
      simp only [Prod.mk.injEq, Except.ok.injEq] at h
      obtain ⟨rfl, rfl⟩ := h
      exact ⟨by simpa [MessageType.fullName] using fresh, rfl, rfl⟩

/-- A type that cannot be registered leaves the registry as it was. -/
theorem eq_of_enterType_error {descriptor : MessageDescriptor} {storage : Storage} {error : Misuse}
    (h : registry.enterType descriptor storage = (.error error, later)) : later = registry := by
  simp only [enterType] at h
  split at h
  · exact (Prod.mk.inj h).2.symm
  · simp at h

/-- The same of a registration as a whole. -/
theorem eq_of_register {descriptor : MessageDescriptor} {storage : Storage} {type : MessageType}
    (h : registry.register descriptor storage = .ok (type, later)) :
    registry.type? type.fullName = none ∧ type.registry = registry.id ∧
      later = { registry with types := registry.types ++ [type] } := by
  rw [register] at h
  split at h
  · next entered =>
      cases h
      exact eq_of_enterType entered
  · simp at h

/-- What was found under a name is found under it afterwards. -/
theorem extends_of_register {descriptor : MessageDescriptor} {storage : Storage}
    {type : MessageType} (h : registry.register descriptor storage = .ok (type, later)) :
    registry.Extends later := by
  obtain ⟨-, -, rfl⟩ := eq_of_register h
  intro name other found
  rw [type?_append, found, Option.some_or]

/-- Registering a type leaves a sound registry. -/
theorem Sound.register {descriptor : MessageDescriptor} {storage : Storage} {type : MessageType}
    (sound : registry.Sound) (h : registry.register descriptor storage = .ok (type, later)) :
    later.Sound := by
  have more := extends_of_register h
  obtain ⟨fresh, home, rfl⟩ := eq_of_register h
  refine ⟨?_, ?_, sound.indexes, sound.extensionNamed, sound.extensionNumbered,
    sound.extensionNumber, sound.extensionValue, ?_, sound.extensionValueName, ?_, ?_⟩
  · intro other mem
    rcases List.mem_append.1 mem with mem | mem
    · exact sound.home other mem
    · rw [List.mem_singleton.1 mem]
      exact home
  · intro other mem
    rcases List.mem_append.1 mem with mem | mem
    · exact more _ _ (sound.named other mem)
    -- the new type is found, since no earlier one has its name
    · rw [List.mem_singleton.1 mem, type?_append, fresh]
      simp
  · intro extension mem valueType eq
    exact List.mem_append_left _ (sound.extensionValueType extension mem valueType eq)
  · intro other mem table kept
    rcases List.mem_append.1 mem with mem | mem
    · exact (sound.tables other mem table kept).mono more
    · rw [List.mem_singleton.1 mem] at kept
      -- no table was kept under the name, which is a new one
      have named := sound.tableNames type.fullName (by rw [kept]; rfl)
      rw [fresh] at named
      simp at named
  · intro name kept
    obtain ⟨other, found⟩ := Option.isSome_iff_exists.1 (sound.tableNames name kept)
    rw [more _ _ found]
    rfl

/-- An extension takes a name that is free. -/
theorem eq_of_enterName {type : ExtensionType} (h : registry.enterName type = some later) :
    registry.extensionNamed? type.fullName = none ∧
      later = { registry with extensionNames := registry.extensionNames ++ [type] } := by
  simp only [enterName] at h
  split at h
  · simp at h
  · next fresh => exact ⟨by simpa using fresh, (Option.some.inj h).symm⟩

/-- It takes a number that is free among the extensions of its extendee. -/
theorem eq_of_enterNumber {type : ExtensionType} (h : registry.enterNumber type = some later) :
    registry.extension? type.extendee type.number = none ∧
      later = { registry with extensions := registry.extensions ++ [type] } := by
  simp only [enterNumber] at h
  split at h
  · simp at h
  · next fresh => exact ⟨by simpa using fresh, (Option.some.inj h).symm⟩

/-- Freeing a name that was just entered undoes it, since no other extension had it. -/
theorem freeName_of_enterName {type : ExtensionType}
    (h : registry.enterName type = some later) : later.freeName type.fullName = registry := by
  obtain ⟨fresh, rfl⟩ := eq_of_enterName h
  have others : registry.extensionNames.filter (fun other => other.fullName != type.fullName) =
      registry.extensionNames := by
    rw [List.filter_eq_self]
    intro other mem
    rw [extensionNamed?, List.find?_eq_none] at fresh
    simpa using fresh other mem
  have itself : [type].filter (fun other => other.fullName != type.fullName) = [] := by simp
  rw [freeName, List.filter_append, others, itself, List.append_nil]

/-- It is entered into both indexes or into none. -/
theorem eq_of_enterIndexes {type entered : ExtensionType}
    (h : registry.enterIndexes type = (.ok entered, later)) :
    entered = type ∧ registry.extensionNamed? type.fullName = none ∧
      registry.extension? type.extendee type.number = none ∧
      later = { registry with
        extensions := registry.extensions ++ [type]
        extensionNames := registry.extensionNames ++ [type] } := by
  simp only [enterIndexes] at h
  split at h
  · simp at h
  · next byName =>
      split at h
      · simp at h
      · next byNumber =>
          obtain ⟨freshName, rfl⟩ := eq_of_enterName byName
          obtain ⟨freshNumber, rfl⟩ := eq_of_enterNumber byNumber
          simp only [Prod.mk.injEq, Except.ok.injEq] at h
          obtain ⟨rfl, rfl⟩ := h
          exact ⟨rfl, freshName, freshNumber, rfl⟩

/-- A refused extension leaves no trace: a name that was taken first is given back. -/
theorem eq_of_enterIndexes_error {type : ExtensionType} {failure : Failure}
    (h : registry.enterIndexes type = (.error failure, later)) : later = registry := by
  simp only [enterIndexes] at h
  split at h
  · exact (Prod.mk.inj h).2.symm
  · next byName =>
      split at h
      -- the number was taken, and the name is freed again
      · rw [← (Prod.mk.inj h).2]
        exact freeName_of_enterName byName
      · simp at h

theorem eq_of_enterExtension {descriptor : ExtensionDescriptor} {type : ExtensionType}
    (h : registry.enterExtension descriptor = (.ok type, later)) :
    isFieldNumber type.number = true ∧
      registry.resolveExtension descriptor = .ok type.valueType ∧ type.descriptor = descriptor ∧
      registry.extensionNamed? type.fullName = none ∧
      registry.extension? type.extendee type.number = none ∧
      later = { registry with
        extensions := registry.extensions ++ [type]
        extensionNames := registry.extensionNames ++ [type] } := by
  simp only [enterExtension] at h
  split at h
  · simp at h
  · next number =>
      split at h
      · simp at h
      · split at h
        · simp at h
        · next valueType resolved =>
            obtain ⟨rfl, freshName, freshNumber, rfl⟩ := eq_of_enterIndexes h
            exact ⟨by simpa [ExtensionType.number] using number, resolved, rfl, freshName,
              freshNumber, rfl⟩

/-- An extension that cannot be registered leaves the registry as it was. -/
theorem eq_of_enterExtension_error {descriptor : ExtensionDescriptor} {failure : Failure}
    (h : registry.enterExtension descriptor = (.error failure, later)) : later = registry := by
  simp only [enterExtension] at h
  split at h
  · exact (Prod.mk.inj h).2.symm
  · split at h
    · exact (Prod.mk.inj h).2.symm
    · split at h
      · exact (Prod.mk.inj h).2.symm
      · exact eq_of_enterIndexes_error h

/-- An extension is registered only if its number is one of fields, its value type resolves and both
indexes have room for it. -/
theorem eq_of_registerExtension {descriptor : ExtensionDescriptor} {type : ExtensionType}
    (h : registry.registerExtension descriptor = .ok (type, later)) :
    isFieldNumber type.number = true ∧
      registry.resolveExtension descriptor = .ok type.valueType ∧ type.descriptor = descriptor ∧
      registry.extensionNamed? type.fullName = none ∧
      registry.extension? type.extendee type.number = none ∧
      later = { registry with
        extensions := registry.extensions ++ [type]
        extensionNames := registry.extensionNames ++ [type] } := by
  rw [registerExtension] at h
  split at h
  · next entered =>
      cases h
      exact eq_of_enterExtension entered
  · simp at h

/-- The values of an extension are messages of the registered type that it names, or no
messages. -/
theorem value_of_resolveExtension {descriptor : ExtensionDescriptor}
    {valueType : Option MessageType}
    (h : registry.resolveExtension descriptor = .ok valueType) :
    valueType.isSome = descriptor.field.kind.isMessage ∧
      ∀ type, valueType = some type →
        type ∈ registry.types ∧ descriptor.field.messageType.getD "" = type.fullName := by
  simp only [resolveExtension] at h
  split at h
  · next plain =>
      cases h
      exact ⟨by simpa using plain, by simp⟩
  · next isMessage =>
      split at h
      · simp at h
      · next type found =>
          split at h
          · simp at h
          · split at h
            · simp at h
            · cases h
              refine ⟨by simpa using isMessage, ?_⟩
              rintro _ ⟨⟩
              exact ⟨(mem_types_of_type? found).1, (mem_types_of_type? found).2.symm⟩

/-- Registering an extension leaves a sound registry. -/
theorem Sound.registerExtension {descriptor : ExtensionDescriptor} {type : ExtensionType}
    (sound : registry.Sound) (h : registry.registerExtension descriptor = .ok (type, later)) :
    later.Sound := by
  obtain ⟨number, resolved, rfl, freshName, freshNumber, rfl⟩ := eq_of_registerExtension h
  have value := value_of_resolveExtension resolved
  refine ⟨sound.home, sound.named, ?_, ?_, ?_, ?_, ?_, ?_, ?_, ?_, sound.tableNames⟩
  · rw [sound.indexes]
  · intro other mem
    rw [extensionNamed?, List.find?_append]
    rcases List.mem_append.1 mem with mem | mem
    · have found := sound.extensionNamed other mem
      rw [extensionNamed?] at found
      rw [found, Option.some_or]
    -- neither the name nor the number was taken
    · rw [List.mem_singleton.1 mem]
      rw [extensionNamed?] at freshName
      rw [freshName]
      simp
  · intro other mem
    rw [extension?, List.find?_append]
    rcases List.mem_append.1 mem with mem | mem
    · have found := sound.extensionNumbered other mem
      rw [extension?] at found
      rw [found, Option.some_or]
    · rw [List.mem_singleton.1 mem]
      rw [extension?] at freshNumber
      rw [freshNumber]
      simp
  · intro other mem
    rcases List.mem_append.1 mem with mem | mem
    · exact sound.extensionNumber other mem
    · rw [List.mem_singleton.1 mem]
      exact number
  · intro other mem
    rcases List.mem_append.1 mem with mem | mem
    · exact sound.extensionValue other mem
    · rw [List.mem_singleton.1 mem]
      exact value.1
  · intro other mem valueType eq
    rcases List.mem_append.1 mem with mem | mem
    · exact sound.extensionValueType other mem valueType eq
    · rw [List.mem_singleton.1 mem] at eq
      exact (value.2 valueType eq).1
  · intro other mem valueType eq
    rcases List.mem_append.1 mem with mem | mem
    · exact sound.extensionValueName other mem valueType eq
    · rw [List.mem_singleton.1 mem] at eq ⊢
      exact (value.2 valueType eq).2
  · intro other mem table kept
    exact (sound.tables other mem table kept).mono (extends_of_types_eq rfl)

/-! ## Keeping tables and codecs, and dropping -/

@[simp]
theorem types_keepTable (registry : Registry) (type : MessageType) :
    (registry.keepTable type).types = registry.types := by
  simp only [keepTable]
  split <;> rfl

@[simp]
theorem extensions_keepTable (registry : Registry) (type : MessageType) :
    (registry.keepTable type).extensions = registry.extensions := by
  simp only [keepTable]
  split <;> rfl

@[simp]
theorem extensionNames_keepTable (registry : Registry) (type : MessageType) :
    (registry.keepTable type).extensionNames = registry.extensionNames := by
  simp only [keepTable]
  split <;> rfl

@[simp]
theorem codecs_keepTable (registry : Registry) (type : MessageType) :
    (registry.keepTable type).codecs = registry.codecs := by
  simp only [keepTable]
  split <;> rfl

@[simp]
theorem dropped_keepTable (registry : Registry) (type : MessageType) :
    (registry.keepTable type).dropped = registry.dropped := by
  simp only [keepTable]
  split <;> rfl

@[simp]
theorem id_keepTable (registry : Registry) (type : MessageType) :
    (registry.keepTable type).id = registry.id := by
  simp only [keepTable]
  split <;> rfl

/-- Looking a name up after something was kept under a name that had nothing. -/
theorem lookup_kept {V : Type} (entries : List (String × V)) (name other : String) (value : V) :
    (match entries.lookup name with
      | some _ => entries
      | none => (name, value) :: entries).lookup other =
      if other = name then some ((entries.lookup name).getD value) else entries.lookup other := by
  by_cases same : other = name
  · subst same
    cases kept : entries.lookup other <;> simp [kept]
  · cases kept : entries.lookup name with
    | none => simp [same, List.lookup_cons, beq_eq_false_iff_ne.2 same]
    | some => simp [same]

/-- After a table was asked for it is kept, and the others are as they were. -/
theorem lookup_tables_keepTable (registry : Registry) (type : MessageType) (name : String) :
    (registry.keepTable type).tables.lookup name =
      if name = type.fullName then some (registry.tableOf type)
      else registry.tables.lookup name := by
  rw [tableOf, ← lookup_kept, keepTable]
  cases registry.tables.lookup type.fullName <;> rfl

/-- Kept or built now, a table is one that the registry builds. -/
theorem Sound.builds_of_tableOf {type : MessageType} {table : FieldTable}
    (sound : registry.Sound) (mem : type ∈ registry.types)
    (h : registry.tableOf type = .ok table) : registry.Builds type table := by
  rw [tableOf] at h
  cases kept : registry.tables.lookup type.fullName with
  | none =>
      rw [kept] at h
      exact builds_of_buildTable h
  | some result =>
      rw [kept] at h
      simp only [Option.getD_some] at h
      subst h
      exact sound.tables type mem table kept

/-- Keeping the table of a registered type leaves a sound registry. -/
theorem Sound.keepTable {type : MessageType} (sound : registry.Sound)
    (mem : type ∈ registry.types) : (registry.keepTable type).Sound := by
  have same := types_keepTable registry type
  refine ⟨?_, ?_, ?_, ?_, ?_, ?_, ?_, ?_, ?_, ?_, ?_⟩
  · simpa using sound.home
  · simpa [type?] using sound.named
  · simpa using sound.indexes
  · simpa [extensionNamed?] using sound.extensionNamed
  · simpa [extension?] using sound.extensionNumbered
  · simpa using sound.extensionNumber
  · simpa using sound.extensionValue
  · simpa using sound.extensionValueType
  · simpa using sound.extensionValueName
  · intro other mem' table kept
    rw [same] at mem'
    rw [lookup_tables_keepTable] at kept
    split at kept
    · next name =>
        obtain rfl := sound.eq_of_fullName mem' mem name
        exact (sound.builds_of_tableOf mem (Option.some.inj kept)).mono (extends_of_types_eq same)
    · exact (sound.tables other mem' table kept).mono (extends_of_types_eq same)
  -- tables are kept under the names of registered types only
  · intro name kept
    rw [lookup_tables_keepTable] at kept
    rw [type?, same]
    split at kept
    · next eq =>
        have found := sound.named type mem
        rw [type?] at found
        rw [eq, found]
        rfl
    · exact sound.tableNames name kept

@[simp]
theorem types_keepCodec (registry : Registry) (type : ExtensionType) :
    (registry.keepCodec type).types = registry.types := by
  simp only [keepCodec]
  split <;> rfl

@[simp]
theorem extensions_keepCodec (registry : Registry) (type : ExtensionType) :
    (registry.keepCodec type).extensions = registry.extensions := by
  simp only [keepCodec]
  split <;> rfl

@[simp]
theorem extensionNames_keepCodec (registry : Registry) (type : ExtensionType) :
    (registry.keepCodec type).extensionNames = registry.extensionNames := by
  simp only [keepCodec]
  split <;> rfl

@[simp]
theorem tables_keepCodec (registry : Registry) (type : ExtensionType) :
    (registry.keepCodec type).tables = registry.tables := by
  simp only [keepCodec]
  split <;> rfl

@[simp]
theorem dropped_keepCodec (registry : Registry) (type : ExtensionType) :
    (registry.keepCodec type).dropped = registry.dropped := by
  simp only [keepCodec]
  split <;> rfl

@[simp]
theorem id_keepCodec (registry : Registry) (type : ExtensionType) :
    (registry.keepCodec type).id = registry.id := by
  simp only [keepCodec]
  split <;> rfl

/-- After a codec was asked for it is kept, and the others are as they were. -/
theorem lookup_codecs_keepCodec (registry : Registry) (type : ExtensionType) (name : String) :
    (registry.keepCodec type).codecs.lookup name =
      if name = type.fullName then some (registry.codecOf type)
      else registry.codecs.lookup name := by
  rw [codecOf, ← lookup_kept, keepCodec]
  cases registry.codecs.lookup type.fullName <;> rfl

/-- Soundness does not look at the kept codecs, nor at whether the registry was dropped. -/
theorem Sound.congr (sound : registry.Sound) (id : later.id = registry.id)
    (types : later.types = registry.types) (extensions : later.extensions = registry.extensions)
    (extensionNames : later.extensionNames = registry.extensionNames)
    (tables : later.tables = registry.tables) : later.Sound := by
  refine ⟨?_, ?_, ?_, ?_, ?_, ?_, ?_, ?_, ?_, ?_, ?_⟩
  · simpa only [types, id] using sound.home
  · simpa only [types, type?] using sound.named
  · simpa only [extensions, extensionNames] using sound.indexes
  · simpa only [extensions, extensionNames, extensionNamed?] using sound.extensionNamed
  · simpa only [extensions, extension?] using sound.extensionNumbered
  · simpa only [extensions] using sound.extensionNumber
  · simpa only [extensions] using sound.extensionValue
  · simpa only [extensions, types] using sound.extensionValueType
  · simpa only [extensions] using sound.extensionValueName
  · intro type mem table kept
    rw [types] at mem
    rw [tables] at kept
    exact (sound.tables type mem table kept).mono (extends_of_types_eq types)
  · simpa only [tables, types, type?] using sound.tableNames

theorem Sound.keepCodec {type : ExtensionType} (sound : registry.Sound) :
    (registry.keepCodec type).Sound :=
  sound.congr (by simp) (by simp) (by simp) (by simp) (by simp)

/-- Dropping a registry takes nothing away from it. -/
theorem Sound.drop (sound : registry.Sound) : { registry with dropped := true }.Sound :=
  sound.congr rfl rfl rfl rfl rfl

end ProtoWire.Registry
