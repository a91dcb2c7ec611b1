import ProtoWire.Proofs.Registry.Coupling
import ProtoWire.Proofs.Registry.Indexes
import ProtoWire.Proofs.Registry.InitCheck

/-!
# Sessions abreast

Two sessions that make the same calls to register types and extensions hold the same registrations,
whatever they code before, between and after these calls (`After.bare_eq`). What they have kept may
differ, and so two things are asked about before they are said to code alike.

Codecs are kept under names. A session tells which extensions it may have coded in messages of which
registry, and an extension that shares its name with no other one among these is coded by its own
codec (`After.run_extensionCodec`). Tables are kept as they were when they were first asked for.
A table that could be built then is the one that would be built now, but a failure may be outdated
(`Reachable.upToDate_iff`), and in a dropped registry a type has a table only if it was asked for
before. Sessions agree about the table of a type if both have one, or if nothing that they keep of
it is outdated (`table_eq_of_concurs`).
-/

set_option autoImplicit false

namespace ProtoWire

/-! ## What is registered -/

namespace Registry

variable {registry : Registry}

/-- The registry without what it has kept. -/
def bare (registry : Registry) : Registry :=
  { registry with tables := [], codecs := [] }

theorem resolveExtension_bare (descriptor : ExtensionDescriptor) :
    registry.bare.resolveExtension descriptor = registry.resolveExtension descriptor := by
  have types : registry.bare.types = registry.types := rfl
  simp only [resolveExtension, type?, reachableFrom, types, resolve_congr types,
    explore_congr types]

/-- Registration looks at no kept table or codec. -/
theorem enterType_bare (descriptor : MessageDescriptor) (storage : Storage) :
    registry.bare.enterType descriptor storage =
      ((registry.enterType descriptor storage).1,
        (registry.enterType descriptor storage).2.bare) := by
  have found : registry.bare.type? descriptor.fullName = registry.type? descriptor.fullName := rfl
  rw [enterType, enterType, found]
  split <;> rfl

theorem enterIndexes_bare (type : ExtensionType) :
    registry.bare.enterIndexes type =
      ((registry.enterIndexes type).1, (registry.enterIndexes type).2.bare) := by
  have named : registry.bare.enterName type = (registry.enterName type).map bare := by
    have found : registry.bare.extensionNamed? type.fullName =
        registry.extensionNamed? type.fullName := rfl
    rw [enterName, enterName, found]
    split <;> rfl
  have numbered : ∀ other : Registry, other.bare.enterNumber type =
      (other.enterNumber type).map bare := by
    intro other
    have found : other.bare.extension? type.extendee type.number =
        other.extension? type.extendee type.number := rfl
    rw [enterNumber, enterNumber, found]
    split <;> rfl
  rw [enterIndexes, enterIndexes, named]
  cases registry.enterName type with
  | none => rfl
  | some other =>
      simp only [Option.map_some, numbered]
      cases other.enterNumber type <;> rfl

/-- What a call enters does not depend on what the registry has kept. -/
theorem perform_bare (request : Request) :
    (registry.bare.perform request).2 = (registry.perform request).2.bare := by
  cases request with
  | type descriptor storage =>
      rw [perform, perform, enterType_bare]
      cases registry.enterType descriptor storage with
      | mk result later => cases result <;> rfl
  | extension descriptor =>
      have entered : registry.bare.enterExtension descriptor =
          ((registry.enterExtension descriptor).1,
            (registry.enterExtension descriptor).2.bare) := by
        rw [enterExtension, enterExtension, resolveExtension_bare]
        split
        · rfl
        · split
          · rfl
          · cases registry.resolveExtension descriptor with
            | error failure => rfl
            | ok valueType => exact enterIndexes_bare ⟨descriptor, valueType⟩
      rw [perform, perform, entered]
      cases registry.enterExtension descriptor with
      | mk result later => cases result <;> rfl

/-- A call looks at no codecs, and leaves them as they are. -/
theorem codecs_perform (registry : Registry) (request : Request) :
    (registry.perform request).2.id = registry.id ∧
      (registry.perform request).2.codecs = registry.codecs := by
  cases request with
  | type descriptor storage =>
      rw [perform]
      split
      · next entered =>
          obtain ⟨-, -, rfl⟩ := eq_of_enterType entered
          exact ⟨rfl, rfl⟩
      · next failed =>
          rw [eq_of_enterType_error failed]
          exact ⟨rfl, rfl⟩
  | extension descriptor =>
      rw [perform]
      split
      · next entered =>
          obtain ⟨-, -, -, -, -, rfl⟩ := eq_of_enterExtension entered
          exact ⟨rfl, rfl⟩
      · next failed =>
          rw [eq_of_enterExtension_error failed]
          exact ⟨rfl, rfl⟩

theorem bare_keepTable (type : MessageType) : (registry.keepTable type).bare = registry.bare := by
  rw [keepTable]
  split <;> rfl

theorem bare_keepCodec (type : ExtensionType) : (registry.keepCodec type).bare = registry.bare := by
  rw [keepCodec]
  split <;> rfl

end Registry

namespace Store

variable {store later first second : Store}

/-- The store without what its registries have kept. -/
def bare (store : Store) : Store :=
  ⟨store.registries.map Registry.bare⟩

theorem registry_bare (store : Store) (id : RegistryId) :
    store.bare.registry id = (store.registry id).bare := by
  simp only [Store.registry, bare, List.getElem?_map]
  cases store.registries[id.index]? <;> rfl

theorem bare_update (store : Store) (registry : Registry) :
    (store.update registry).bare = store.bare.update registry.bare := by
  simp only [bare, update, List.map_set]
  rfl

/-! ## Calls of a session -/

/-- A call that changes what is registered. -/
inductive Request where
  | add
  | register (id : RegistryId) (request : Registry.Request)
  | drop (id : RegistryId)

/-- Makes a call, whether it fails or not. -/
def enter (store : Store) : Request → Store
  | .add => (store.add fun registry => registry).2
  | .register id request => store.update ((store.registry id).perform request).2
  | .drop id => store.drop id

/-- A call leaves a session in a store that it can lead to, also if it fails. -/
theorem Reachable.enter (h : store.Reachable) (request : Request) :
    (store.enter request).Reachable := by
  have refused : ∀ id, (store.update (store.registry id)).Reachable := fun id => by
    rw [h.sound.update_registry]
    exact h
  cases request with
  | add => exact .add h
  | drop id => exact .drop id h
  | register id request =>
      rw [Store.enter]
      cases request with
      | type descriptor storage =>
          rw [Registry.perform]
          split
          · next type later entered =>
              have registered : (store.registry id).register descriptor storage =
                  .ok (type, later) := by
                rw [Registry.register, entered]
              exact .register h registered
          · next failed =>
              rw [Registry.eq_of_enterType_error failed]
              exact refused id
      | extension descriptor =>
          rw [Registry.perform]
          split
          · next type later entered =>
              have registered : (store.registry id).registerExtension descriptor =
                  .ok (type, later) := by
                rw [Registry.registerExtension, entered]
              exact .registerExtension h registered
          · next failed =>
              rw [Registry.eq_of_enterExtension_error failed]
              exact refused id

/-- What a call registers does not depend on what was kept. -/
theorem bare_enter (store : Store) (request : Request) :
    (store.enter request).bare = store.bare.enter request := by
  cases request with
  | add => simp [enter, add, bare, Registry.bare, Registry.empty]
  | drop id =>
      rw [enter, enter, drop, drop, bare_update, registry_bare]
      rfl
  | register id request =>
      rw [enter, enter, bare_update, registry_bare, Registry.perform_bare]

end Store

/-! ## What is coded in between -/

/-- The extensions that may be coded in messages of each registry. -/
abbrev Ledger :=
  RegistryId → ExtensionType → Prop

/-- The extension may be coded in messages of the registry, and no other one of its name may, unless
both have the same codec. -/
structure Ledger.Sole (coded : Ledger) (id : RegistryId) (type : ExtensionType) : Prop where
  listed : coded id type
  alone : ∀ other, coded id other → other.fullName = type.fullName → other.codec = type.codec

namespace Store

variable {coded : Ledger} {requests : List Request} {store later first second : Store}
  {type : MessageType}

/-- Coding asks for a table, or for the codec of an extension that may be coded. -/
inductive KeepsWithin (coded : Ledger) (store : Store) : Store → Prop
  | table {type : MessageType} : store.Holds type →
      KeepsWithin coded store (store.update ((store.registry type.registry).keepTable type))
  | codec {owner : MessageType} {home : RegistryId} {type : ExtensionType} :
      store.Holds owner → store.Declares home type → coded owner.registry type →
      KeepsWithin coded store (store.update ((store.registry owner.registry).keepCodec type))

/-- Coding messages with no other extensions can go from the store to the later one. -/
def CodesWithin (coded : Ledger) : Store → Store → Prop :=
  Relation.ReflTransGen (KeepsWithin coded)

/-- The stores that a session with these calls can lead to, where messages with no other extensions
are coded before, between and after the calls. -/
inductive After (coded : Ledger) : List Request → Store → Prop
  | start : After coded [] .empty
  | call {requests : List Request} {store : Store} (request : Request) :
      After coded requests store → After coded (requests ++ [request]) (store.enter request)
  | code {requests : List Request} {store later : Store} :
      After coded requests store → store.KeepsWithin coded later → After coded requests later

theorem KeepsWithin.keeps (h : store.KeepsWithin coded later) : store.Keeps later := by
  cases h with
  | table held => exact .table held
  | codec held declared _ => exact .codec held declared

theorem CodesWithin.codes (h : store.CodesWithin coded later) : store.Codes later :=
  Relation.ReflTransGen.mono (fun _ _ keeps => keeps.keeps) _ _ h

/-- Coding more extends a session. -/
theorem After.codes (h : After coded requests store) (codes : store.CodesWithin coded later) :
    After coded requests later := by
  induction codes with
  | refl => exact h
  | tail _ keeps ih => exact .code ih keeps

/-- And so do further calls. -/
theorem After.calls (h : After coded requests store) (more : List Request) :
    After coded (requests ++ more) (more.foldl enter store) := by
  induction more generalizing requests store with
  | nil => rwa [List.append_nil]
  | cons request more ih =>
      rw [← List.singleton_append, ← List.append_assoc]
      exact ih (.call request h)

/-- Sessions lead to reachable stores. -/
theorem After.reachable (h : After coded requests store) : store.Reachable := by
  induction h with
  | start => exact .empty
  | call request _ ih => exact ih.enter request
  | code _ keeps ih => exact ih.step (.keep keeps.keeps)

/-- Every store of a session is one of these, whatever was coded in it. -/
theorem Reachable.exists_after (reachable : store.Reachable) :
    ∃ requests, After (fun _ _ => True) requests store := by
  induction reachable with
  | empty => exact ⟨[], .start⟩
  | add _ ih =>
      obtain ⟨requests, after⟩ := ih
      exact ⟨_, .call .add after⟩
  | @register store id descriptor storage type registry _ registered ih =>
      obtain ⟨requests, after⟩ := ih
      have entered : (store.registry id).enterType descriptor storage = (.ok type, registry) := by
        rw [Registry.register] at registered
        split at registered <;> cases registered
        assumption
      have called := After.call (.register id (.type descriptor storage)) after
      rw [Store.enter, Registry.perform, entered] at called
      exact ⟨_, called⟩
  | @registerExtension store id descriptor type registry _ registered ih =>
      obtain ⟨requests, after⟩ := ih
      have entered : (store.registry id).enterExtension descriptor = (.ok type, registry) := by
        rw [Registry.registerExtension] at registered
        split at registered <;> cases registered
        assumption
      have called := After.call (.register id (.extension descriptor)) after
      rw [Store.enter, Registry.perform, entered] at called
      exact ⟨_, called⟩
  | drop id _ ih =>
      obtain ⟨requests, after⟩ := ih
      exact ⟨_, .call (.drop id) after⟩
  | keepTable _ held ih =>
      obtain ⟨requests, after⟩ := ih
      exact ⟨requests, .code after (.table held)⟩
  | keepCodec _ held declared ih =>
      obtain ⟨requests, after⟩ := ih
      exact ⟨requests, .code after (.codec held declared trivial)⟩

/-! ### Registrations -/

/-- Coding registers nothing. -/
theorem bare_of_keeps (sound : store.Sound) (keeps : store.Keeps later) :
    later.bare = store.bare := by
  have back : ∀ id, store.bare.update (store.registry id).bare = store.bare := by
    intro id
    rw [← bare_update, sound.update_registry]
  cases keeps with
  | table _ => rw [bare_update, Registry.bare_keepTable, back]
  | codec _ _ => rw [bare_update, Registry.bare_keepCodec, back]

/-- What is registered after some calls depends on the calls only. -/
theorem After.bare_eq (h : After coded requests store) :
    store.bare = requests.foldl enter .empty := by
  induction h with
  | start => rfl
  | call request _ ih =>
      rw [List.foldl_append, ← ih, bare_enter]
      rfl
  | code before keeps ih => rw [bare_of_keeps before.reachable.sound keeps.keeps, ih]

theorem registry_bare_eq (same : first.bare = second.bare) (id : RegistryId) :
    (first.registry id).bare = (second.registry id).bare := by
  rw [← registry_bare, same, registry_bare]

theorem types_eq (same : first.bare = second.bare) (id : RegistryId) :
    (second.registry id).types = (first.registry id).types :=
  (congrArg Registry.types (registry_bare_eq same id)).symm

theorem extensions_eq (same : first.bare = second.bare) (id : RegistryId) :
    (second.registry id).extensions = (first.registry id).extensions :=
  (congrArg Registry.extensions (registry_bare_eq same id)).symm

theorem dropped_eq (same : first.bare = second.bare) (id : RegistryId) :
    (second.registry id).dropped = (first.registry id).dropped :=
  (congrArg Registry.dropped (registry_bare_eq same id)).symm

/-- Stores with the same registrations hold the same types. -/
theorem holds_of_bare_eq (same : first.bare = second.bare) {type : MessageType}
    (held : first.Holds type) : second.Holds type := by
  rw [Holds, types_eq same]
  exact held

theorem declares_of_bare_eq (same : first.bare = second.bare) {id : RegistryId}
    {type : ExtensionType} (declared : first.Declares id type) : second.Declares id type := by
  rw [Declares, extensions_eq same]
  exact declared

/-- And find the same extensions. -/
theorem extension?_of_bare_eq (same : first.bare = second.bare) :
    second.catalog.extension? = first.catalog.extension? := by
  funext owner number
  simp only [catalog, Registry.extension?, extensions_eq same, dropped_eq same]

/-! ### Codecs -/

/-- No call keeps a codec. -/
theorem codecs_enter (sound : store.Sound) (request : Request) (id : RegistryId) :
    ((store.enter request).registry id).codecs = (store.registry id).codecs := by
  have put : ∀ {registry : Registry} {home : RegistryId}, registry.id = home →
      registry.codecs = (store.registry home).codecs →
        ((store.update registry).registry id).codecs = (store.registry id).codecs := by
    rintro registry _ rfl same
    rw [registry_update]
    split
    · next here => rw [same, here.1]
    · rfl
  cases request with
  | add => rw [enter, registry_add]
  | drop home => exact put (sound.id home) rfl
  | register home request =>
      obtain ⟨same, codecs⟩ := (store.registry home).codecs_perform request
      exact put (same.trans (sound.id home)) codecs

/-- Each kept codec is that of an extension that was coded in a message of the registry. -/
theorem After.exists_coded (h : After coded requests store) (id : RegistryId) {name : String}
    {codec : FieldCodec} (kept : (store.registry id).codecs.lookup name = some codec) :
    ∃ type, coded id type ∧ type.fullName = name ∧ codec = type.codec := by
  induction h with
  | start => simp [Store.registry, Store.empty, Registry.empty] at kept
  | call request before ih =>
      rw [codecs_enter before.reachable.sound] at kept
      exact ih kept
  | @code requests store later before keeps ih =>
      have sound := before.reachable.sound
      cases keeps with
      | @table type held =>
          rw [registry_update] at kept
          split at kept
          · next here =>
              rw [Registry.id_keepTable, sound.id] at here
              rw [Registry.codecs_keepTable, ← here.1] at kept
              exact ih kept
          · exact ih kept
      | @codec owner home type held declared listed =>
          rw [registry_update] at kept
          split at kept
          · next here =>
              rw [Registry.id_keepCodec, sound.id] at here
              obtain ⟨rfl, -⟩ := here
              rw [Registry.lookup_codecs_keepCodec] at kept
              split at kept
              · next named =>
                  -- under the name is what was kept before, or else the codec of the extension
                  rw [Registry.codecOf] at kept
                  cases found : (store.registry owner.registry).codecs.lookup type.fullName with
                  | none =>
                      rw [found] at kept
                      exact ⟨type, listed, named.symm, (Option.some.inj kept).symm⟩
                  | some codec' =>
                      rw [found] at kept
                      rw [← named] at found
                      exact ih (found.trans kept)
              · exact ih kept
          · exact ih kept

/-- An extension is coded by its own codec if no other one of its name is coded in messages of the
registry. -/
theorem After.run_extensionCodec (h : After coded requests store) {owner : MessageType}
    {type : ExtensionType} (sole : coded.Sole owner.registry type) :
    ((Coding.extensionCodec owner type).run store).1 = type.codec := by
  have run : ((Coding.extensionCodec owner type).run store).1 =
      (store.registry owner.registry).codecOf type := rfl
  rw [run, Registry.codecOf]
  cases kept : (store.registry owner.registry).codecs.lookup type.fullName with
  | none => rfl
  | some codec =>
      obtain ⟨other, listed, named, rfl⟩ := h.exists_coded owner.registry kept
      exact sole.alone other listed named

/-! ### Tables -/

/-- There is one table of a type with the right flag, whatever else was registered. -/
theorem table_eq_of_flags {registry other : Registry} {type : MessageType}
    {table table' : FieldTable} (types : other.types = registry.types)
    (builds : registry.Builds type table) (builds' : other.Builds type table')
    (flag : table.needsInitCheck = true ↔ registry.MayLack type)
    (flag' : table'.needsInitCheck = true ↔ other.MayLack type)
    (whole : registry.Whole type) : table' = table := by
  rw [whole.mayLack_iff (Registry.extends_of_types_eq types), ← flag] at flag'
  obtain ⟨valueTypes, check, resolved, rfl⟩ := builds
  obtain ⟨valueTypes', check', resolved', rfl⟩ := builds'
  rw [Registry.resolve_congr types, resolved] at resolved'
  cases resolved'
  have same : check' = check := Bool.eq_iff_iff.2 flag'
  rw [same]

/-- The store has a table for the type. -/
def HasTable (store : Store) (type : MessageType) : Prop :=
  ∃ table, store.catalog.table type = .ok table

/-- What the store answers about the table of the type is what building it now gives. -/
def UpToDate (store : Store) (type : MessageType) : Prop :=
  store.catalog.table type = (store.registry type.registry).buildTable type

/-- Both stores have a table for the type, or both answer what building it now gives. -/
def Concurs (first second : Store) (type : MessageType) : Prop :=
  first.HasTable type ∧ second.HasTable type ∨ first.UpToDate type ∧ second.UpToDate type

/-- A type for which there is a table is whole. -/
theorem whole_of_catalog (reachable : store.Reachable) {type : MessageType}
    (held : store.Holds type) {table : FieldTable} (found : store.catalog.table type = .ok table) :
    (store.registry type.registry).Whole type :=
  (reachable.vouched _).whole_of_tableOf (reachable.sound.registry _) held found

/-- A table that is there is the one that would be built now, as long as the registry is alive. So
nothing is outdated but failures. -/
theorem Reachable.upToDate_iff (reachable : store.Reachable) {type : MessageType}
    (held : store.Holds type) (alive : (store.registry type.registry).dropped = false) :
    store.UpToDate type ↔
      ∀ error, (store.registry type.registry).tables.lookup type.fullName = some (.error error) →
        (store.registry type.registry).buildTable type = .error error := by
  have sound := reachable.sound.registry type.registry
  constructor
  · intro current error kept
    rw [← current]
    simp only [catalog, Registry.tableOf, kept, Option.getD_some]
  · intro failures
    cases found : store.catalog.table type with
    | error error =>
        rw [UpToDate, found]
        simp only [catalog, Registry.tableOf] at found
        cases kept : (store.registry type.registry).tables.lookup type.fullName with
        | none =>
            rw [kept] at found
            exact found.symm
        | some result =>
            rw [kept] at found
            exact (failures error (kept.trans (congrArg some found))).symm
    | ok table =>
        have whole := whole_of_catalog reachable held found
        obtain ⟨table', built⟩ := (Registry.exists_buildTable_iff sound held).2 ⟨alive, whole⟩
        rw [UpToDate, found, built]
        exact congrArg _ (table_eq_of_flags rfl (Registry.builds_of_buildTable built)
          (reachable.sound.builds_of_table held found)
          (Registry.needsInitCheck_iff_of_buildTable sound held built)
          (reachable.needsInitCheck_iff held found) whole)

/-- Sessions with the same registrations that concur about a type give the same answer. -/
theorem table_eq_of_concurs (reachable : first.Reachable) (reachable' : second.Reachable)
    (same : first.bare = second.bare) {type : MessageType} (held : first.Holds type)
    (concurs : first.Concurs second type) :
    second.catalog.table type = first.catalog.table type := by
  have types := types_eq same type.registry
  rcases concurs with ⟨⟨table, found⟩, table', found'⟩ | ⟨current, current'⟩
  · have held' := holds_of_bare_eq same held
    rw [found, found']
    exact congrArg _ (table_eq_of_flags types (reachable.sound.builds_of_table held found)
      (reachable'.sound.builds_of_table held' found') (reachable.needsInitCheck_iff held found)
      (reachable'.needsInitCheck_iff held' found') (whole_of_catalog reachable held found))
  · rw [current, current', Registry.buildTable_congr types (dropped_eq same type.registry)]

/-! ## The coupling of two sessions -/

/-- The stores hold the type, and concur about all types that it reaches. -/
def ConcursFrom (first second : Store) (type : MessageType) : Prop :=
  first.Holds type ∧
    ∀ other, (first.registry type.registry).Reaches type other → first.Concurs second other

/-- The extension is registered, no other one of its name is coded in messages of the owner's
registry, and its values are messages of the types, or no messages. -/
structure Codable (store : Store) (coded : Ledger) (types : MessageType → Prop)
    (owner : MessageType) (type : ExtensionType) : Prop where
  known : store.Knows type
  sole : coded.Sole owner.registry type
  value : ∀ valueType, type.valueType = some valueType → types valueType

/-- Whatever messages and extensions reading a message of the type comes across, the stores concur
about their types, and no other extensions of the same names are coded. -/
structure Readable (coded : Ledger) (first second : Store) (type : MessageType) : Prop where
  holds : first.Holds type
  concurs : ∀ other, Relation.ReflTransGen first.Opens type other → first.Concurs second other
  sole : ∀ other number extension, Relation.ReflTransGen first.Opens type other →
    first.catalog.extension? other number = some extension →
      coded.Sole other.registry extension

/-- Two sessions from the given stores on, in which messages of some types are coded, with no other
extensions than those of the ledger. -/
def abreast (coded : Ledger) (first second : Store) (types : MessageType → Prop) : Coupling where
  linked store other := first.CodesWithin coded store ∧ second.CodesWithin coded other
  types := types
  extensions := first.Codable coded types
  mayLack := True

/-- What is asked of a type is asked of the types of its fields. -/
theorem ConcursFrom.links (h : first.ConcursFrom second type) (sound : first.Sound)
    {other : MessageType} (links : (first.registry type.registry).Links type other) :
    first.ConcursFrom second other := by
  obtain ⟨held, home⟩ := sound.home_of_mem links.mem_types
  refine ⟨held, fun further reached => ?_⟩
  rw [home] at reached
  exact h.2 further (.head links reached)

/-- The condition carries over to whatever reading comes across. -/
theorem Readable.opens (h : Readable coded first second type) (sound : first.Sound)
    {other : MessageType} (opens : first.Opens type other) : Readable coded first second other :=
  ⟨(sound.home_of_opens opens).1, fun further path => h.concurs further (.head opens path),
    fun further number extension path => h.sole further number extension (.head opens path)⟩

/-- What can be read can be written. -/
theorem Readable.concursFrom (h : Readable coded first second type) (sound : first.Sound) :
    first.ConcursFrom second type := by
  refine ⟨h.holds, fun other reached => ?_⟩
  have key : Readable coded first second other ∧ other.registry = type.registry := by
    induction reached with
    | refl => exact ⟨h, rfl⟩
    | tail _ links ih =>
        obtain ⟨readable, home⟩ := ih
        rw [← home] at links
        exact ⟨readable.opens sound (.inl links), (sound.home_of_mem links.mem_types).2.trans home⟩
  exact key.1.concurs other .refl

/-- It suffices that the stores concur about all types of a registry, and that messages of the
registry are coded with no other extensions of the names of its own ones. -/
theorem readable_of_registry (sound : first.Sound) {id : RegistryId}
    (concurs : ∀ type ∈ (first.registry id).types, first.Concurs second type)
    (sole : ∀ extension, first.Declares id extension → coded.Sole id extension)
    (mem : type ∈ (first.registry id).types) : Readable coded first second type := by
  obtain ⟨held, rfl⟩ := sound.home_of_mem mem
  refine ⟨held, fun other path => ?_, fun other number extension path found => ?_⟩
  · obtain ⟨held', home⟩ := sound.home_of_opened held path
    rw [Holds, home] at held'
    exact concurs other held'
  · have declared := (mem_extensions_of_extension? found).1
    rw [(sound.home_of_opened held path).2] at declared ⊢
    exact sole extension declared

/-- After any coding of the ledger's extensions, the table of a type is what the store gave before.
-/
theorem CodesWithin.run_table (codes : first.CodesWithin coded store) (sound : first.Sound)
    (held : first.Holds type) :
    ((Coding.table type).run store).1 = first.catalog.table type ∧
      first.CodesWithin coded ((Coding.table type).run store).2 :=
  ⟨(codes.codes.run_table sound held).1,
    codes.tail (.table ((sound.codes codes.codes).2.holds_iff.2 held))⟩

/-- And an extension without a namesake is coded by its own codec. -/
theorem CodesWithin.run_extensionCodec (codes : first.CodesWithin coded store)
    (after : After coded requests first) {owner : MessageType} {extension : ExtensionType}
    (held : first.Holds owner) (known : first.Knows extension)
    (sole : coded.Sole owner.registry extension) :
    ((Coding.extensionCodec owner extension).run store).1 = extension.codec ∧
      first.CodesWithin coded ((Coding.extensionCodec owner extension).run store).2 := by
  obtain ⟨home, declared⟩ := known
  obtain ⟨-, retains⟩ := after.reachable.sound.codes codes.codes
  exact ⟨(after.codes codes).run_extensionCodec sole,
    codes.tail (.codec (retains.holds_iff.2 held) (retains.declares_iff.2 declared) sole.listed)⟩

/-- Messages are written alike in both sessions, if the stores concur about all types that come up
in fields. -/
theorem After.lawful_abreast (after : After coded requests first)
    (after' : After coded requests second) {types : MessageType → Prop}
    (concurs : ∀ type, types type → first.Holds type ∧ first.Concurs second type)
    (links : ∀ type other, types type → (first.registry type.registry).Links type other →
      types other) :
    (abreast coded first second types).Lawful := by
  have same : first.bare = second.bare := after.bare_eq.trans after'.bare_eq.symm
  have sound := after.reachable.sound
  refine ⟨?_, ?_, ?_⟩
  · rintro type admitted store other ⟨codes, codes'⟩
    obtain ⟨held, concurs⟩ := concurs type admitted
    obtain ⟨run, codes⟩ := codes.run_table sound held
    obtain ⟨run', codes'⟩ := codes'.run_table after'.reachable.sound (holds_of_bare_eq same held)
    have agree := table_eq_of_concurs after.reachable after'.reachable same held concurs
    refine ⟨by rw [run, run', agree], ⟨fun _ _ => trivial, fun table found => ?_⟩, codes, codes'⟩
    have builds := sound.builds_of_table held (run.symm.trans found)
    exact ⟨_, builds, fun entry mem valueType value =>
      links type valueType admitted (builds.links_of_mem mem value)⟩
  · rintro owner type admitted ⟨known, sole, values⟩ store other ⟨codes, codes'⟩
    have held := (concurs owner admitted).1
    have known' : second.Knows type := known.imp fun home => declares_of_bare_eq same
    obtain ⟨run, codes⟩ := codes.run_extensionCodec after held known sole
    have held' := holds_of_bare_eq same held
    obtain ⟨run', codes'⟩ := codes'.run_extensionCodec after' held' known' sole
    rw [run, run']
    exact ⟨rfl, ⟨sound.legal_codec known, values⟩, codes, codes'⟩
  · rintro owner type ⟨known, -, values⟩
    exact ⟨sound.legal_codec known, values⟩

/-- They are read alike, if this is so of extensions as well. -/
theorem After.lawfulReading_abreast (after : After coded requests first)
    (after' : After coded requests second) :
    (abreast coded first second (Readable coded first second)).LawfulReading := by
  have same : first.bare = second.bare := after.bare_eq.trans after'.bare_eq.symm
  have sound := after.reachable.sound
  have lawful : (abreast coded first second (Readable coded first second)).Lawful :=
    after.lawful_abreast after' (fun type readable => ⟨readable.holds, readable.concurs type .refl⟩)
      (fun type other readable links => readable.opens sound (.inl links))
  refine ⟨lawful, ?_⟩
  rintro owner number readable store other ⟨codes, codes'⟩
  rw [codes.codes.run_findExtension sound, codes'.codes.run_findExtension after'.reachable.sound,
    extension?_of_bare_eq same]
  refine ⟨rfl, fun type found => ?_, codes, codes'⟩
  obtain ⟨known, names⟩ := knows_of_extension? found
  have values : ∀ valueType, type.valueType = some valueType →
      Readable coded first second valueType :=
    fun valueType value => readable.opens sound (.inr ⟨number, type, found, value⟩)
  exact ⟨⟨known, readable.sole owner number type .refl found, values⟩, names⟩

end Store

end ProtoWire
