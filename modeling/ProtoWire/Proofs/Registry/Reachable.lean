import ProtoWire.Proofs.Registry.Sound

/-!
# Reachable stores

A session creates and drops registries, registers types and extensions, and codes messages,
which keeps tables and extension codecs. `Store.Reachable` holds of every store that such
operations lead to, in whatever order, and `Reachable.sound` says what all these stores
have in common.
-/

set_option autoImplicit false

namespace ProtoWire.Store

variable {store : Store}

/-- A registry of the store registered a message type. -/
def Holds (store : Store) (type : MessageType) : Prop :=
  type ∈ (store.registry type.registry).types

/-- A registry of the store registered an extension. -/
def Declares (store : Store) (id : RegistryId) (type : ExtensionType) : Prop :=
  type ∈ (store.registry id).extensions

/-! ## Registries of a changed store -/

/-- Only the registry with the identifier of the new one is replaced, and only if there is one. -/
theorem registry_update (store : Store) (registry : Registry) (id : RegistryId) :
    (store.update registry).registry id =
      if id = registry.id ∧ id.index < store.registries.length then registry
      else store.registry id := by
  simp only [Store.registry, update]
  rw [List.getElem?_set]
  by_cases same : id = registry.id
  · subst same
    by_cases inside : registry.id.index < store.registries.length
    · simp [inside]
    · simp [inside]
  · have apart : registry.id.index ≠ id.index := by
      intro index
      exact same (congrArg RegistryId.mk index.symm)
    simp [apart, same]

theorem registry_add (store : Store) (id : RegistryId) :
    (store.add fun registry => registry).2.registry id = store.registry id := by
  simp only [Store.registry, add, List.getElem?_append]
  split
  · rfl
  · next outside =>
      rw [List.getElem?_eq_none (Nat.le_of_not_lt outside)]
      cases offset : id.index - store.registries.length with
      | zero =>
          have index : store.registries.length = id.index := by omega
          simp [index]
      | succ offset => simp

/-! ## Sound stores -/

/-- What registration promises of a store: its registries are sound, and each kept codec is
that of an extension that some registry, not always the keeping one, has registered. -/
structure Sound (store : Store) : Prop where
  id : ∀ id, (store.registry id).id = id
  registry : ∀ id, (store.registry id).Sound
  codecs : ∀ id name codec, (store.registry id).codecs.lookup name = some codec →
    ∃ home type, store.Declares home type ∧ type.fullName = name ∧ codec = type.codec

/-- Whatever registry a type is found in, it is the one that the type names. -/
theorem Sound.holds_of_mem (sound : store.Sound) {id : RegistryId} {type : MessageType}
    (h : type ∈ (store.registry id).types) : store.Holds type := by
  have home := (sound.registry id).home type h
  rw [sound.id] at home
  rw [Holds, home]
  exact h

theorem Sound.home_of_mem (sound : store.Sound) {id : RegistryId} {type : MessageType}
    (h : type ∈ (store.registry id).types) : store.Holds type ∧ type.registry = id := by
  have home := (sound.registry id).home type h
  rw [sound.id] at home
  exact ⟨sound.holds_of_mem h, home⟩

theorem sound_empty : Store.empty.Sound := by
  have none : ∀ id, Store.empty.registry id = .empty id := fun id => by
    simp [Store.registry, empty]
  refine ⟨?_, ?_, ?_⟩
  · intro id
    rw [none]
    rfl
  · intro id
    rw [none]
    exact Registry.sound_empty id
  · intro id name codec kept
    rw [none] at kept
    simp [Registry.empty] at kept

/-- A sound registry may take the place of an earlier one if it keeps its extensions, and
only codecs of registered extensions. -/
theorem Sound.update {registry : Registry} (sound : store.Sound) (next : registry.Sound)
    (extensions : ∀ type ∈ (store.registry registry.id).extensions, type ∈ registry.extensions)
    (codecs : ∀ name codec, registry.codecs.lookup name = some codec →
      (store.registry registry.id).codecs.lookup name = some codec ∨
        ∃ home type, store.Declares home type ∧ type.fullName = name ∧ codec = type.codec) :
    (store.update registry).Sound := by
  -- no extension is lost, so each kept codec still is one of a registered extension
  have declares : ∀ home type, store.Declares home type →
      (store.update registry).Declares home type := by
    intro home type declared
    rw [Declares, registry_update]
    split
    · next same =>
        rw [same.1] at declared
        exact extensions type declared
    · exact declared
  refine ⟨?_, ?_, ?_⟩
  · intro id
    rw [registry_update]
    split
    · next same => exact same.1.symm
    · exact sound.id id
  · intro id
    rw [registry_update]
    split
    · exact next
    · exact sound.registry id
  · intro id name codec kept
    have known : ∃ home type, store.Declares home type ∧ type.fullName = name ∧
        codec = type.codec := by
      rw [registry_update] at kept
      split at kept
      · rcases codecs name codec kept with before | known
        · exact sound.codecs registry.id name codec before
        · exact known
      · exact sound.codecs id name codec kept
    obtain ⟨home, type, declared, rest⟩ := known
    exact ⟨home, type, declares home type declared, rest⟩

/-! ## Sessions -/

/-- The stores that a session can lead to. -/
inductive Reachable : Store → Prop
  | empty : Reachable .empty
  | add {store : Store} : Reachable store → Reachable (store.add fun registry => registry).2
  | register {store : Store} {id : RegistryId} {descriptor : MessageDescriptor}
      {storage : Storage} {type : MessageType} {registry : Registry} :
      Reachable store →
      (store.registry id).register descriptor storage = .ok (type, registry) →
      Reachable (store.update registry)
  | registerExtension {store : Store} {id : RegistryId} {descriptor : ExtensionDescriptor}
      {type : ExtensionType} {registry : Registry} :
      Reachable store →
      (store.registry id).registerExtension descriptor = .ok (type, registry) →
      Reachable (store.update registry)
  | drop {store : Store} (id : RegistryId) : Reachable store → Reachable (store.drop id)
  /-- Coding a message asks for the table of its type. -/
  | keepTable {store : Store} {type : MessageType} :
      Reachable store → store.Holds type →
      Reachable (store.update ((store.registry type.registry).keepTable type))
  /-- Coding a message asks for the codec of an attached extension, which may be registered
  in another registry than the type of the message. -/
  | keepCodec {store : Store} {owner : MessageType} {home : RegistryId} {type : ExtensionType} :
      Reachable store → store.Holds owner → store.Declares home type →
      Reachable (store.update ((store.registry owner.registry).keepCodec type))

/-- Keeping a table changes one registry, and leaves it sound. -/
theorem Sound.keepTable (sound : store.Sound) {type : MessageType} (held : store.Holds type) :
    (store.update ((store.registry type.registry).keepTable type)).Sound := by
  have next := (sound.registry type.registry).keepTable held
  refine sound.update next ?_ ?_
  · rw [Registry.id_keepTable, sound.id, Registry.extensions_keepTable]
    exact fun _ mem => mem
  · rw [Registry.id_keepTable, sound.id, Registry.codecs_keepTable]
    exact fun _ _ kept => .inl kept

/-- Any registry may keep the codec of an extension that some registry has registered. -/
theorem Sound.keepCodec (sound : store.Sound) (id : RegistryId) {home : RegistryId}
    {type : ExtensionType} (declared : store.Declares home type) :
    (store.update ((store.registry id).keepCodec type)).Sound := by
  refine sound.update (sound.registry id).keepCodec ?_ ?_
  · rw [Registry.id_keepCodec, sound.id, Registry.extensions_keepCodec]
    exact fun _ mem => mem
  · rw [Registry.id_keepCodec, sound.id]
    intro name codec kept
    rw [Registry.lookup_codecs_keepCodec] at kept
    split at kept
    · next same =>
        -- the codec under the name is the one that was kept, or else the extension's own
        cases before : (store.registry id).codecs.lookup type.fullName with
        | some codec' =>
            left
            rw [Registry.codecOf, before] at kept
            rw [same, before]
            exact kept
        | none =>
            right
            rw [Registry.codecOf, before] at kept
            exact ⟨home, type, declared, same.symm, (Option.some.inj kept).symm⟩
    · exact .inl kept

/-- Every store of a session is sound. -/
theorem Reachable.sound (h : store.Reachable) : store.Sound := by
  induction h with
  | empty => exact sound_empty
  | @add store _ ih =>
      -- a new registry holds nothing, as all registries beyond the last do
      have same := registry_add store
      refine ⟨?_, ?_, ?_⟩
      · intro id
        rw [same]
        exact ih.id id
      · intro id
        rw [same]
        exact ih.registry id
      · intro id name codec kept
        rw [same] at kept
        obtain ⟨home, type, declared, rest⟩ := ih.codecs id name codec kept
        refine ⟨home, type, ?_, rest⟩
        rw [Declares, same]
        exact declared
  | @register store id descriptor storage type registry _ registered ih =>
      have next := (ih.registry id).register registered
      obtain ⟨-, -, rfl⟩ := Registry.eq_of_register registered
      refine ih.update next ?_ ?_
      · rw [ih.id]
        exact fun _ mem => mem
      · rw [ih.id]
        exact fun _ _ kept => .inl kept
  | @registerExtension store id descriptor type registry _ registered ih =>
      have next := (ih.registry id).registerExtension registered
      obtain ⟨-, -, -, -, -, rfl⟩ := Registry.eq_of_registerExtension registered
      refine ih.update next ?_ ?_
      · rw [ih.id]
        exact fun _ mem => List.mem_append_left _ mem
      · rw [ih.id]
        exact fun _ _ kept => .inl kept
  | @drop store id _ ih =>
      refine ih.update (ih.registry id).drop ?_ ?_
      · rw [ih.id]
        exact fun _ mem => mem
      · rw [ih.id]
        exact fun _ _ kept => .inl kept
  | keepTable _ held ih => exact ih.keepTable held
  | @keepCodec store owner home type _ _ declared ih =>
      exact ih.keepCodec owner.registry declared

/-! ## Stores of one registry -/

/-- A store with one registry, which holds these types and nothing else. -/
def holding (types : List MessageType) : Store :=
  ⟨[{ Registry.empty ⟨0⟩ with types := types }]⟩

theorem reachable_holding_nil : (holding []).Reachable :=
  .add .empty

end ProtoWire.Store
