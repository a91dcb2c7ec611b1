import Mathlib.Logic.Relation
import ProtoWire.Proofs.Registry.Catalog

/-!
# Sessions as steps

A session goes from store to store. What one operation does to a store is a `Store.Step`, what it
does to a single registry of the store a `Registry.Move` (`Step.move`), so that a property of
registries that each kind of move keeps holds throughout a session. Coding takes only the steps
that keep a table or a codec (`Store.Codes`); these leave the registrations and the answers about
tables as they are (`Sound.codes`), but not always those about codecs, which go by names.
-/

set_option autoImplicit false

namespace ProtoWire

/-! ## Moves of a registry -/

/-- What one operation of a session does to a registry. -/
inductive Registry.Move (registry : Registry) : Registry → Prop
  | stay : Move registry registry
  | register {later : Registry} {descriptor : MessageDescriptor} {storage : Storage}
      {type : MessageType} :
      registry.register descriptor storage = .ok (type, later) → Move registry later
  | registerExtension {later : Registry} {descriptor : ExtensionDescriptor}
      {type : ExtensionType} :
      registry.registerExtension descriptor = .ok (type, later) → Move registry later
  | drop : Move registry { registry with dropped := true }
  | keepTable {type : MessageType} : type ∈ registry.types →
      Move registry (registry.keepTable type)
  | keepCodec (type : ExtensionType) : Move registry (registry.keepCodec type)

namespace Registry.Move

variable {registry later : Registry}

theorem extends_of_move (move : registry.Move later) : registry.Extends later := by
  cases move with
  | stay => exact extends_of_types_eq rfl
  | register h => exact extends_of_register h
  | registerExtension h =>
      obtain ⟨-, -, -, -, -, rfl⟩ := eq_of_registerExtension h
      exact extends_of_types_eq rfl
  | drop => exact extends_of_types_eq rfl
  | keepTable => exact extends_of_types_eq (types_keepTable _ _)
  | keepCodec => exact extends_of_types_eq (types_keepCodec _ _)

theorem mem_types (move : registry.Move later) {type : MessageType} (mem : type ∈ registry.types) :
    type ∈ later.types := by
  cases move with
  | stay | drop => exact mem
  | register h =>
      obtain ⟨-, -, rfl⟩ := eq_of_register h
      exact List.mem_append_left _ mem
  | registerExtension h =>
      obtain ⟨-, -, -, -, -, rfl⟩ := eq_of_registerExtension h
      exact mem
  | keepTable =>
      rw [types_keepTable]
      exact mem
  | keepCodec =>
      rw [types_keepCodec]
      exact mem

/-- A dropped registry does not come back. -/
theorem alive (move : registry.Move later) (alive : later.dropped = false) :
    registry.dropped = false := by
  cases move with
  | stay => exact alive
  | register h =>
      obtain ⟨-, -, rfl⟩ := eq_of_register h
      exact alive
  | registerExtension h =>
      obtain ⟨-, -, -, -, -, rfl⟩ := eq_of_registerExtension h
      exact alive
  | drop => simp at alive
  | keepTable => rwa [dropped_keepTable] at alive
  | keepCodec => rwa [dropped_keepCodec] at alive

end Registry.Move

namespace Store

variable {store later : Store}

/-! ## Steps of a session -/

/-- Coding asks for a table or a codec, which is kept from then on. The codec may be that of an
extension which another registry than that of the carrying message has registered. -/
inductive Keeps (store : Store) : Store → Prop
  | table {type : MessageType} : store.Holds type →
      Keeps store (store.update ((store.registry type.registry).keepTable type))
  | codec {owner : MessageType} {home : RegistryId} {type : ExtensionType} :
      store.Holds owner → store.Declares home type →
      Keeps store (store.update ((store.registry owner.registry).keepCodec type))

/-- One operation of a session. -/
inductive Step (store : Store) : Store → Prop
  | add : Step store (store.add fun registry => registry).2
  | register {id : RegistryId} {descriptor : MessageDescriptor} {storage : Storage}
      {type : MessageType} {registry : Registry} :
      (store.registry id).register descriptor storage = .ok (type, registry) →
      Step store (store.update registry)
  | registerExtension {id : RegistryId} {descriptor : ExtensionDescriptor}
      {type : ExtensionType} {registry : Registry} :
      (store.registry id).registerExtension descriptor = .ok (type, registry) →
      Step store (store.update registry)
  | drop (id : RegistryId) : Step store (store.drop id)
  | keep {later : Store} : store.Keeps later → Step store later

/-- A session can go from the store to the later one. -/
def Leads : Store → Store → Prop :=
  Relation.ReflTransGen Step

/-- Coding messages can go from the store to the later one. -/
def Codes : Store → Store → Prop :=
  Relation.ReflTransGen Keeps

theorem Reachable.step (h : store.Reachable) (step : store.Step later) : later.Reachable := by
  cases step with
  | add => exact .add h
  | register registered => exact .register h registered
  | registerExtension registered => exact .registerExtension h registered
  | drop id => exact .drop id h
  | keep keeps =>
      cases keeps with
      | table held => exact .keepTable h held
      | codec held declared => exact .keepCodec h held declared

theorem Reachable.leads (h : store.Reachable) (leads : store.Leads later) : later.Reachable := by
  induction leads with
  | refl => exact h
  | tail _ step ih => exact ih.step step

/-- The stores of a session are those that steps lead to from the empty one. -/
theorem reachable_iff_leads : store.Reachable ↔ Store.empty.Leads store := by
  constructor
  · intro h
    induction h with
    | empty => exact .refl
    | add _ ih => exact ih.tail .add
    | register _ registered ih => exact ih.tail (.register registered)
    | registerExtension _ registered ih => exact ih.tail (.registerExtension registered)
    | drop id _ ih => exact ih.tail (.drop id)
    | keepTable _ held ih => exact ih.tail (.keep (.table held))
    | keepCodec _ held declared ih => exact ih.tail (.keep (.codec held declared))
  · exact Reachable.empty.leads

/-- A store in which one registry has moved. -/
theorem move_update {home : RegistryId} {registry : Registry} (same : registry.id = home)
    (move : (store.registry home).Move registry) (id : RegistryId) :
    (store.registry id).Move ((store.update registry).registry id) := by
  rw [registry_update]
  split
  · next here =>
      rw [here.1, same]
      exact move
  · exact .stay

/-- What a step does to each registry. -/
theorem Step.move (step : store.Step later) (sound : store.Sound) (id : RegistryId) :
    (store.registry id).Move (later.registry id) := by
  cases step with
  | add =>
      rw [registry_add]
      exact .stay
  | @register home _ _ _ registry registered =>
      have same : registry.id = home := by
        obtain ⟨-, -, rfl⟩ := Registry.eq_of_register registered
        exact sound.id home
      exact move_update same (.register registered) id
  | @registerExtension home _ _ registry registered =>
      have same : registry.id = home := by
        obtain ⟨-, -, -, -, -, rfl⟩ := Registry.eq_of_registerExtension registered
        exact sound.id home
      exact move_update same (.registerExtension registered) id
  | drop home =>
      have same : ({ store.registry home with dropped := true } : Registry).id = home :=
        sound.id home
      exact move_update same .drop id
  | keep keeps =>
      cases keeps with
      | @table type held =>
          have same : ((store.registry type.registry).keepTable type).id = type.registry := by
            rw [Registry.id_keepTable, sound.id]
          exact move_update same (.keepTable held) id
      | @codec owner _ type =>
          have same : ((store.registry owner.registry).keepCodec type).id = owner.registry := by
            rw [Registry.id_keepCodec, sound.id]
          exact move_update same (.keepCodec type) id

/-! ## What coding leaves as it is -/

/-- The later store has the same registrations and gives the same answers about tables, and what
the earlier one had kept of them is still kept. -/
structure Retains (store later : Store) : Prop where
  types : ∀ id, (later.registry id).types = (store.registry id).types
  extensions : ∀ id, (later.registry id).extensions = (store.registry id).extensions
  dropped : ∀ id, (later.registry id).dropped = (store.registry id).dropped
  table : ∀ type, store.Holds type → later.catalog.table type = store.catalog.table type
  kept : ∀ id name result, (store.registry id).tables.lookup name = some result →
    (later.registry id).tables.lookup name = some result

theorem Retains.refl (store : Store) : store.Retains store :=
  ⟨fun _ => rfl, fun _ => rfl, fun _ => rfl, fun _ _ => rfl, fun _ _ _ kept => kept⟩

theorem Retains.holds_iff (retains : store.Retains later) {type : MessageType} :
    later.Holds type ↔ store.Holds type := by
  rw [Holds, Holds, retains.types]

theorem Retains.declares_iff (retains : store.Retains later) {id : RegistryId}
    {type : ExtensionType} : later.Declares id type ↔ store.Declares id type := by
  rw [Declares, Declares, retains.extensions]

theorem Retains.extension? (retains : store.Retains later) :
    later.catalog.extension? = store.catalog.extension? := by
  funext owner number
  simp only [catalog, Registry.extension?, retains.extensions, retains.dropped]

theorem Retains.trans {last : Store} (first : store.Retains later) (second : later.Retains last) :
    store.Retains last := by
  refine ⟨?_, ?_, ?_, ?_, ?_⟩
  · intro id
    rw [second.types, first.types]
  · intro id
    rw [second.extensions, first.extensions]
  · intro id
    rw [second.dropped, first.dropped]
  · intro type held
    rw [second.table type (first.holds_iff.2 held), first.table type held]
  · intro id name result kept
    exact second.kept id name result (first.kept id name result kept)

theorem Sound.retains_keepTable (sound : store.Sound) {type : MessageType}
    (held : store.Holds type) :
    store.Retains (store.update ((store.registry type.registry).keepTable type)) := by
  have agrees := sound.agrees_keepTable held
  refine ⟨agrees.types, agrees.extensions, agrees.dropped, agrees.table, ?_⟩
  intro id name result kept
  rw [registry_update]
  split
  · next same =>
      rw [same.1, Registry.id_keepTable, sound.id] at kept
      rw [Registry.lookup_tables_keepTable]
      -- what was kept under the name is what is kept now
      split
      · next named =>
          rw [Registry.tableOf, ← named, kept]
          rfl
      · exact kept
  · exact kept

theorem Sound.retains_keepCodec (sound : store.Sound) (id : RegistryId) (type : ExtensionType) :
    store.Retains (store.update ((store.registry id).keepCodec type)) := by
  -- only the codecs of the one registry differ
  have same : ∀ other, (store.update ((store.registry id).keepCodec type)).registry other =
      store.registry other ∨
      (store.update ((store.registry id).keepCodec type)).registry other =
        (store.registry other).keepCodec type := by
    intro other
    rw [registry_update]
    split
    · next here =>
        right
        rw [here.1, Registry.id_keepCodec, sound.id]
    · exact .inl rfl
  refine ⟨?_, ?_, ?_, ?_, ?_⟩
  · intro other
    rcases same other with eq | eq <;> simp [eq]
  · intro other
    rcases same other with eq | eq <;> simp [eq]
  · intro other
    rcases same other with eq | eq <;> simp [eq]
  · intro other _
    simp only [catalog]
    rcases same other.registry with eq | eq <;> simp [eq, Registry.tableOf_keepCodec]
  · intro other name result kept
    rcases same other with eq | eq <;> simp [eq, kept]

theorem Sound.codes (sound : store.Sound) (codes : store.Codes later) :
    later.Sound ∧ store.Retains later := by
  induction codes with
  | refl => exact ⟨sound, .refl store⟩
  | tail _ keeps ih =>
      obtain ⟨sound', retains⟩ := ih
      cases keeps with
      | table held => exact ⟨sound'.keepTable held, retains.trans (sound'.retains_keepTable held)⟩
      | codec _ declared =>
          exact ⟨sound'.keepCodec _ declared, retains.trans (sound'.retains_keepCodec _ _)⟩

/-- A registry that holds something is one of the store. -/
theorem lt_length_of_holds {type : MessageType} (held : store.Holds type) :
    type.registry.index < store.registries.length := by
  by_contra outside
  rw [Holds, Store.registry, List.getElem?_eq_none (Nat.le_of_not_lt outside)] at held
  exact List.not_mem_nil held

/-- A registry that is put back where it was changes nothing. -/
theorem Sound.update_registry (sound : store.Sound) (id : RegistryId) :
    store.update (store.registry id) = store := by
  rw [Store.update, sound.id]
  cases inside : store.registries[id.index]? with
  | none => rw [List.set_eq_of_length_le (List.getElem?_eq_none_iff.1 inside)]
  | some registry =>
      obtain ⟨bound, eq⟩ := List.getElem?_eq_some_iff.1 inside
      rw [Store.registry, inside, Option.getD_some, ← eq, List.set_getElem_self]

/-- Asking again for a table that is kept changes nothing. -/
theorem Sound.update_keepTable_of_kept (sound : store.Sound) {type : MessageType}
    {result : Except Unbuildable FieldTable}
    (kept : (store.registry type.registry).tables.lookup type.fullName = some result) :
    store.update ((store.registry type.registry).keepTable type) = store := by
  have stays : (store.registry type.registry).keepTable type = store.registry type.registry := by
    rw [Registry.keepTable, kept]
  rw [stays, sound.update_registry]

end Store

end ProtoWire
