import ProtoWire.Proofs.Registry.Exploration
import ProtoWire.Proofs.Registry.Reachable

/-!
# Catalogs

Coding works tables and codecs out when it first needs them and keeps them in the store. What
it is answered does not depend on what was kept before, as long as the types and extensions it
asks about are registered ones and each extension belongs to the registry of the type it is
attached to. So all answers can be read off the store in advance: they are its catalog, and
`Coding.Yields` holds of a computation that returns a result which depends on the catalog
alone.
-/

set_option autoImplicit false

namespace ProtoWire

/-! ## Registries that keep a table or a codec -/

namespace Registry

variable {registry : Registry}

/-- Keeping the table of one type changes the answer about no registered type, also about that one.
-/
theorem tableOf_keepTable (sound : registry.Sound) {type other : MessageType}
    (mem : type ∈ registry.types) (mem' : other ∈ registry.types) :
    (registry.keepTable type).tableOf other = registry.tableOf other := by
  rw [tableOf, lookup_tables_keepTable]
  split
  -- types of one name are one type, whose table is the one that was kept
  · next name =>
      obtain rfl := sound.eq_of_fullName mem' mem name
      rfl
  · rw [buildTable_congr (types_keepTable registry type) (dropped_keepTable registry type)]
    rfl

theorem codecOf_keepTable (type : MessageType) (extension : ExtensionType) :
    (registry.keepTable type).codecOf extension = registry.codecOf extension := by
  simp only [codecOf, codecs_keepTable]

theorem tableOf_keepCodec (extension : ExtensionType) (type : MessageType) :
    (registry.keepCodec extension).tableOf type = registry.tableOf type := by
  simp only [tableOf, tables_keepCodec,
    buildTable_congr (types_keepCodec registry extension) (dropped_keepCodec registry extension)]

/-- The same of codecs, as long as the extension is one of the registry: codecs go by names, which
extensions of other registries may share. -/
theorem codecOf_keepCodec (sound : registry.Sound) {type other : ExtensionType}
    (mem : type ∈ registry.extensions) (mem' : other ∈ registry.extensions) :
    (registry.keepCodec type).codecOf other = registry.codecOf other := by
  rw [codecOf, lookup_codecs_keepCodec]
  split
  · next name =>
      obtain rfl := sound.extension_eq_of_fullName mem' mem name
      rfl
  · rfl

end Registry

/-! ## Catalogs of stores -/

/-- The answers to all that coding looks up. -/
structure Catalog where
  table : MessageType → Except Unbuildable FieldTable
  /-- The codec for an extension of a message of the given type. -/
  codec : MessageType → ExtensionType → FieldCodec
  extension? : MessageType → Nat → Option ExtensionType

namespace Store

variable {store later : Store}

/-- The answers that a store gives. -/
def catalog (store : Store) : Catalog where
  table type := (store.registry type.registry).tableOf type
  codec owner type := (store.registry owner.registry).codecOf type
  extension? owner number :=
    let registry := store.registry owner.registry
    if registry.dropped then none else registry.extension? owner.fullName number

/-- The later store has kept some more tables and codecs, the latter of extensions that belong
to the registry of the type they were attached to. -/
inductive Grows (store : Store) : Store → Prop
  | refl : Grows store store
  | keepTable {later : Store} {type : MessageType} : Grows store later → later.Holds type →
      Grows store (later.update ((later.registry type.registry).keepTable type))
  | keepCodec {later : Store} {owner : MessageType} {type : ExtensionType} :
      Grows store later → later.Holds owner → later.Declares owner.registry type →
      Grows store (later.update ((later.registry owner.registry).keepCodec type))

/-- The stores have the same registrations and give the same answers about them. -/
structure Agrees (store later : Store) : Prop where
  types : ∀ id, (later.registry id).types = (store.registry id).types
  extensions : ∀ id, (later.registry id).extensions = (store.registry id).extensions
  dropped : ∀ id, (later.registry id).dropped = (store.registry id).dropped
  table : ∀ type, store.Holds type → later.catalog.table type = store.catalog.table type
  codec : ∀ owner type, store.Declares owner.registry type →
    later.catalog.codec owner type = store.catalog.codec owner type

theorem Agrees.holds_iff (agrees : store.Agrees later) {type : MessageType} :
    later.Holds type ↔ store.Holds type := by
  rw [Holds, Holds, agrees.types]

theorem Agrees.declares_iff (agrees : store.Agrees later) {id : RegistryId}
    {type : ExtensionType} : later.Declares id type ↔ store.Declares id type := by
  rw [Declares, Declares, agrees.extensions]

/-- Extensions are looked up among the registered ones, so that nothing that was kept matters. -/
theorem Agrees.extension? (agrees : store.Agrees later) :
    later.catalog.extension? = store.catalog.extension? := by
  funext owner number
  simp only [catalog, Registry.extension?, agrees.extensions, agrees.dropped]

theorem Agrees.refl (store : Store) : store.Agrees store :=
  ⟨fun _ => rfl, fun _ => rfl, fun _ => rfl, fun _ _ => rfl, fun _ _ _ => rfl⟩

theorem Agrees.trans {last : Store} (first : store.Agrees later) (second : later.Agrees last) :
    store.Agrees last := by
  refine ⟨?_, ?_, ?_, ?_, ?_⟩
  · intro id
    rw [second.types, first.types]
  · intro id
    rw [second.extensions, first.extensions]
  · intro id
    rw [second.dropped, first.dropped]
  -- what the later store holds is what the first one holds
  · intro type held
    rw [second.table type (first.holds_iff.2 held), first.table type held]
  · intro owner type declared
    rw [second.codec owner type (first.declares_iff.2 declared), first.codec owner type declared]

/-- Replacing one registry by another that answers alike. -/
theorem agrees_update {registry : Registry}
    (types : registry.types = (store.registry registry.id).types)
    (extensions : registry.extensions = (store.registry registry.id).extensions)
    (dropped : registry.dropped = (store.registry registry.id).dropped)
    (table : ∀ type ∈ (store.registry registry.id).types,
      registry.tableOf type = (store.registry registry.id).tableOf type)
    (codec : ∀ type ∈ (store.registry registry.id).extensions,
      registry.codecOf type = (store.registry registry.id).codecOf type) :
    store.Agrees (store.update registry) := by
  refine ⟨?_, ?_, ?_, ?_, ?_⟩
  · intro id
    rw [registry_update]
    split
    · next same => rw [types, same.1]
    · rfl
  · intro id
    rw [registry_update]
    split
    · next same => rw [extensions, same.1]
    · rfl
  · intro id
    rw [registry_update]
    split
    · next same => rw [dropped, same.1]
    · rfl
  · intro type held
    simp only [catalog, registry_update]
    split
    · next same =>
        rw [Holds, same.1] at held
        rw [table type held, same.1]
    · rfl
  · intro owner type declared
    simp only [catalog, registry_update]
    split
    · next same =>
        rw [Declares, same.1] at declared
        rw [codec type declared, same.1]
    · rfl

/-- Keeping a table changes no answers. -/
theorem Sound.agrees_keepTable (sound : store.Sound) {type : MessageType}
    (held : store.Holds type) :
    store.Agrees (store.update ((store.registry type.registry).keepTable type)) := by
  have id : ((store.registry type.registry).keepTable type).id = type.registry := by
    rw [Registry.id_keepTable, sound.id]
  apply agrees_update <;> rw [id]
  · exact Registry.types_keepTable _ _
  · exact Registry.extensions_keepTable _ _
  · exact Registry.dropped_keepTable _ _
  · intro other mem
    exact Registry.tableOf_keepTable (sound.registry _) held mem
  · intro extension _
    exact Registry.codecOf_keepTable type extension

/-- Nor does keeping the codec of one of the registry's own extensions. -/
theorem Sound.agrees_keepCodec (sound : store.Sound) {id : RegistryId} {type : ExtensionType}
    (declared : store.Declares id type) :
    store.Agrees (store.update ((store.registry id).keepCodec type)) := by
  have same : ((store.registry id).keepCodec type).id = id := by
    rw [Registry.id_keepCodec, sound.id]
  apply agrees_update <;> rw [same]
  · exact Registry.types_keepCodec _ _
  · exact Registry.extensions_keepCodec _ _
  · exact Registry.dropped_keepCodec _ _
  · intro other _
    exact Registry.tableOf_keepCodec type other
  -- here the extension has to be the registry's own, since codecs go by names
  · intro other mem
    exact Registry.codecOf_keepCodec (sound.registry _) declared mem

/-- Whatever is kept as a store grows, it stays sound and gives the same answers. -/
theorem Sound.grows (sound : store.Sound) (grows : store.Grows later) :
    later.Sound ∧ store.Agrees later := by
  -- soundness goes along with agreement, which needs it at each step
  induction grows with
  | refl => exact ⟨sound, .refl store⟩
  | keepTable _ held ih =>
      exact ⟨ih.1.keepTable held, ih.2.trans (ih.1.agrees_keepTable held)⟩
  | keepCodec _ _ declared ih =>
      exact ⟨ih.1.keepCodec _ declared, ih.2.trans (ih.1.agrees_keepCodec declared)⟩

/-! ### Types in the catalog -/

/-- The table that the catalog gives for a registered type is one that its registry builds. -/
theorem Sound.builds_of_table (sound : store.Sound) {type : MessageType} {table : FieldTable}
    (held : store.Holds type) (h : store.catalog.table type = .ok table) :
    (store.registry type.registry).Builds type table :=
  (sound.registry type.registry).builds_of_tableOf held h

/-- An extension that is found is registered, for the name of that type and with that number. -/
theorem mem_extensions_of_extension? {owner : MessageType} {number : Nat} {type : ExtensionType}
    (h : store.catalog.extension? owner number = some type) :
    store.Declares owner.registry type ∧ type.extendee = owner.fullName ∧
      type.number = number := by
  simp only [catalog] at h
  split at h
  · simp at h
  · have found := List.find?_some h
    simp only [Bool.and_eq_true, beq_iff_eq] at found
    exact ⟨List.mem_of_find?_eq_some h, found⟩

/-! ### What reading comes across -/

/-- Reading a message of the type may come across messages of the other one: in a field, or in an
extension that is found for the type. -/
def Opens (store : Store) (type other : MessageType) : Prop :=
  (store.registry type.registry).Links type other ∨
    ∃ number extension, store.catalog.extension? type number = some extension ∧
      extension.valueType = some other

/-- What reading comes across next is of the same registry. -/
theorem Sound.home_of_opens (sound : store.Sound) {type other : MessageType}
    (opens : store.Opens type other) : store.Holds other ∧ other.registry = type.registry := by
  rcases opens with links | ⟨number, extension, found, value⟩
  · exact sound.home_of_mem links.mem_types
  · have declared := (mem_extensions_of_extension? found).1
    exact sound.home_of_mem ((sound.registry _).extensionValueType extension declared other value)

/-- Reading does not lead out of the registry. -/
theorem Sound.home_of_opened (sound : store.Sound) {type other : MessageType}
    (held : store.Holds type) (path : Relation.ReflTransGen store.Opens type other) :
    store.Holds other ∧ other.registry = type.registry := by
  induction path with
  | refl => exact ⟨held, rfl⟩
  | tail _ opens ih =>
      obtain ⟨held', home⟩ := sound.home_of_opens opens
      exact ⟨held', home.trans ih.2⟩

/-! ### Codecs of one's own -/

/-- Whatever extension reading a message of the type comes across, it is coded by its own codec. -/
def OwnCodecs (store : Store) (type : MessageType) : Prop :=
  ∀ owner, Relation.ReflTransGen store.Opens type owner → ∀ number extension,
    store.catalog.extension? owner number = some extension →
      store.catalog.codec owner extension = extension.codec

/-- An extension that is found for the type itself is coded by its own codec. -/
theorem OwnCodecs.codec {owner : MessageType} (own : store.OwnCodecs owner) {number : Nat}
    {extension : ExtensionType} (found : store.catalog.extension? owner number = some extension) :
    store.catalog.codec owner extension = extension.codec :=
  own owner .refl number extension found

/-- The condition carries over to whatever reading comes across. -/
theorem OwnCodecs.opened {type other : MessageType} (own : store.OwnCodecs type)
    (path : Relation.ReflTransGen store.Opens type other) : store.OwnCodecs other :=
  fun owner path' => own owner (path.trans path')

theorem OwnCodecs.opens {type other : MessageType} (own : store.OwnCodecs type)
    (opens : store.Opens type other) : store.OwnCodecs other :=
  own.opened (.single opens)

/-- The extension is one of the registry, which codes it by its own codec. -/
structure Native (store : Store) (id : RegistryId) (type : ExtensionType) : Prop where
  declared : store.Declares id type
  coded : (store.registry id).codecOf type = type.codec

/-- What is found is then native to the registry of the type. -/
theorem OwnCodecs.native {owner : MessageType} (own : store.OwnCodecs owner) {number : Nat}
    {extension : ExtensionType} (found : store.catalog.extension? owner number = some extension) :
    store.Native owner.registry extension :=
  ⟨(mem_extensions_of_extension? found).1, own.codec found⟩

/-- It suffices that a registry codes all of its extensions by their own codecs. -/
theorem Sound.ownCodecs_of_registry (sound : store.Sound) {type : MessageType}
    (held : store.Holds type)
    (own : ∀ extension, store.Declares type.registry extension →
      (store.registry type.registry).codecOf extension = extension.codec) :
    store.OwnCodecs type := by
  intro owner path number extension found
  have home := (sound.home_of_opened held path).2
  have declared := (mem_extensions_of_extension? found).1
  rw [home] at declared
  simp only [catalog, home]
  exact own extension declared

/-- Codecs are kept under names. So an extension is coded by its own codec unless the registry
keeps another one for an extension of that name, which another registry has registered. -/
theorem Sound.ownCodecs_iff (sound : store.Sound) {type : MessageType} :
    store.OwnCodecs type ↔
      ∀ owner, Relation.ReflTransGen store.Opens type owner → ∀ number extension,
        store.catalog.extension? owner number = some extension →
          ∀ home other, home ≠ owner.registry → store.Declares home other →
            other.fullName = extension.fullName →
              (store.registry owner.registry).codecs.lookup extension.fullName =
                some other.codec → other.codec = extension.codec := by
  constructor
  · intro own owner path number extension found home other _ _ _ kept
    have coded := own owner path number extension found
    simp only [catalog, Registry.codecOf, kept] at coded
    exact coded
  · intro agree owner path number extension found
    have declared := (mem_extensions_of_extension? found).1
    simp only [catalog, Registry.codecOf]
    cases kept : (store.registry owner.registry).codecs.lookup extension.fullName with
    | none => rfl
    | some codec =>
        obtain ⟨home, other, declared', name, rfl⟩ :=
          sound.codecs owner.registry extension.fullName codec kept
        by_cases same : home = owner.registry
        · -- within one registry, extensions of one name are the same
          subst same
          rw [(sound.registry _).extension_eq_of_fullName declared' declared name]
          rfl
        · exact agree owner path number extension found home other same declared' name kept

/-- Extensions are coded by their own codecs if no other registry has one of the same name. -/
theorem Sound.ownCodecs_of_names (sound : store.Sound) {type : MessageType}
    (apart : ∀ owner, Relation.ReflTransGen store.Opens type owner → ∀ number extension,
      store.catalog.extension? owner number = some extension →
        ∀ home other, home ≠ owner.registry → store.Declares home other →
          other.fullName ≠ extension.fullName) : store.OwnCodecs type := by
  rw [sound.ownCodecs_iff]
  intro owner path number extension found home other foreign declared name _
  exact absurd name (apart owner path number extension found home other foreign declared)

end Store

/-! ## Computations that depend on the catalog -/

namespace Coding

variable {α β : Type} {store : Store}

/-- The computation returns the result in every store that has grown from the given one, and
leaves a store that has. -/
def Yields (store : Store) (program : Coding α) (result : α) : Prop :=
  ∀ later, store.Grows later →
    (program.run later).1 = result ∧ store.Grows (program.run later).2

/-- In particular it returns the result in the store itself. -/
theorem Yields.run {program : Coding α} {result : α} (h : Yields store program result) :
    (program.run store).1 = result :=
  (h store .refl).1

theorem yields_pure (result : α) : Yields store (pure result) result :=
  fun _ grows => ⟨rfl, grows⟩

/-- Computations that yield results yield the result of the second one, one after the other. -/
theorem Yields.bind {program : Coding α} {next : α → Coding β} {first : α} {result : β}
    (h : Yields store program first) (h' : Yields store (next first) result) :
    Yields store (program >>= next) result := by
  intro later grows
  obtain ⟨eq, grows'⟩ := h later grows
  have run : (program >>= next).run later =
      (next (program.run later).1).run (program.run later).2 := rfl
  rw [run, eq]
  -- what follows runs in a store that has grown, too
  exact h' _ grows'

theorem Yields.map {program : Coding α} {first : α} (f : α → β)
    (h : Yields store program first) : Yields store (f <$> program) (f first) :=
  fun later grows => ⟨congrArg f (h later grows).1, (h later grows).2⟩

/-- The table of a registered type is the one in the catalog, whatever the store has kept by now. -/
theorem yields_table (sound : store.Sound) {type : MessageType} (held : store.Holds type) :
    Yields store (table type) (store.catalog.table type) := by
  intro later grows
  obtain ⟨-, agrees⟩ := sound.grows grows
  exact ⟨agrees.table type held, grows.keepTable (agrees.holds_iff.2 held)⟩

/-- So is the codec of an extension of the owner's registry. -/
theorem yields_extensionCodec (sound : store.Sound) {owner : MessageType} {type : ExtensionType}
    (held : store.Holds owner) (declared : store.Declares owner.registry type) :
    Yields store (extensionCodec owner type) (store.catalog.codec owner type) := by
  intro later grows
  -- in a store that has grown the answer is the same, and asking lets it grow once more
  obtain ⟨-, agrees⟩ := sound.grows grows
  exact ⟨agrees.codec owner type declared,
    grows.keepCodec (agrees.holds_iff.2 held) (agrees.declares_iff.2 declared)⟩

/-- And so is what is found under a number; looking it up keeps nothing. -/
theorem yields_findExtension (sound : store.Sound) (owner : MessageType) (number : Nat) :
    Yields store (findExtension owner number) (store.catalog.extension? owner number) := by
  intro later grows
  obtain ⟨-, agrees⟩ := sound.grows grows
  exact ⟨congrFun (congrFun agrees.extension? owner) number, grows⟩

/-! ### Assertions about the result -/

/-- The computation yields a result of which the assertion holds. -/
def Ensures (store : Store) (program : Coding α) (assertion : α → Prop) : Prop :=
  ∃ result, Yields store program result ∧ assertion result

variable {program : Coding α} {assertion : α → Prop} {goal : β → Prop}

theorem Yields.ensures {result : α} (h : Yields store program result) (holds : assertion result) :
    Ensures store program assertion :=
  ⟨result, h, holds⟩

theorem ensures_pure {result : α} (holds : assertion result) :
    Ensures store (pure result) assertion :=
  (yields_pure result).ensures holds

theorem Yields.bind_ensures {next : α → Coding β} {first : α} (h : Yields store program first)
    (h' : Ensures store (next first) goal) : Ensures store (program >>= next) goal := by
  obtain ⟨result, yields, holds⟩ := h'
  exact ⟨result, h.bind yields, holds⟩

/-- What the first computation is known to return may be used of the second. -/
theorem Ensures.bind {next : α → Coding β} (h : Ensures store program assertion)
    (h' : ∀ first, assertion first → Ensures store (next first) goal) :
    Ensures store (program >>= next) goal := by
  obtain ⟨first, yields, holds⟩ := h
  exact yields.bind_ensures (h' first holds)

theorem Ensures.mono {weaker : α → Prop} (h : Ensures store program assertion)
    (imp : ∀ result, assertion result → weaker result) : Ensures store program weaker := by
  obtain ⟨result, yields, holds⟩ := h
  exact ⟨result, yields, imp result holds⟩

theorem Ensures.map (f : α → β) (h : Ensures store program fun first => goal (f first)) :
    Ensures store (f <$> program) goal := by
  obtain ⟨first, yields, holds⟩ := h
  exact ⟨f first, yields.map f, holds⟩

/-- To name the result is to yield it. -/
theorem Ensures.yields {result : α} (h : Ensures store program fun first => first = result) :
    Yields store program result := by
  obtain ⟨_, yields, rfl⟩ := h
  exact yields

/-- The assertion holds of what the computation returns in a store that has grown. -/
theorem Ensures.run_grown {later : Store} (h : Ensures store program assertion)
    (grows : store.Grows later) :
    assertion (program.run later).1 ∧ store.Grows (program.run later).2 := by
  obtain ⟨result, yields, holds⟩ := h
  obtain ⟨eq, grows'⟩ := yields later grows
  rw [eq]
  exact ⟨holds, grows'⟩

/-- In the store itself the result is as asserted, and the store that is left has grown. -/
theorem Ensures.run (h : Ensures store program assertion) :
    assertion (program.run store).1 ∧ store.Grows (program.run store).2 :=
  h.run_grown .refl

end Coding

end ProtoWire
