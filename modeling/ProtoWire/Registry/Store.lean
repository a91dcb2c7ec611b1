import ProtoWire.Registry.Basic

/-!
# Stores

A store holds all registries. Tables and extension codecs are worked out when
they are first asked for and kept from then on: a table with the registry of its
type, and the codec of an attached extension with the registry of the message
that carries it, under the extension's full name.
-/

set_option autoImplicit false

namespace ProtoWire

/-- All registries, each at the position that its identifier gives. -/
structure Store where
  registries : List Registry

namespace Store

/-- A store without registries. -/
def empty : Store :=
  ⟨[]⟩

/-- The registry of an identifier; one that holds nothing if there is none. -/
def registry (store : Store) (id : RegistryId) : Registry :=
  (store.registries[id.index]?).getD (.empty id)

/-- Puts a registry back at its position. -/
def update (store : Store) (registry : Registry) : Store :=
  ⟨store.registries.set registry.id.index registry⟩

/-- Adds a registry. -/
def add (store : Store) (fill : Registry → Registry) : RegistryId × Store :=
  let id : RegistryId := ⟨store.registries.length⟩
  (id, ⟨store.registries ++ [fill (.empty id)]⟩)

/-- Drops a registry. -/
def drop (store : Store) (id : RegistryId) : Store :=
  store.update { store.registry id with dropped := true }

end Store

/-- A computation that may work out tables and codecs. -/
abbrev Coding := StateM Store

namespace Registry

/-- The table of a type: the one kept, or else the one worked out now. -/
def tableOf (registry : Registry) (type : MessageType) : Except Unbuildable FieldTable :=
  (registry.tables.lookup type.fullName).getD (registry.buildTable type)

/-- Keeps the table of a type, unless one is kept already. -/
def keepTable (registry : Registry) (type : MessageType) : Registry :=
  match registry.tables.lookup type.fullName with
  | some _ => registry
  | none =>
      { registry with
        tables := (type.fullName, registry.buildTable type) :: registry.tables }

/-- The codec for an extension: the one kept under its name, or else its own. -/
def codecOf (registry : Registry) (type : ExtensionType) : FieldCodec :=
  (registry.codecs.lookup type.fullName).getD type.codec

/-- Keeps the codec of an extension, unless one is kept under its name already. -/
def keepCodec (registry : Registry) (type : ExtensionType) : Registry :=
  match registry.codecs.lookup type.fullName with
  | some _ => registry
  | none => { registry with codecs := (type.fullName, type.codec) :: registry.codecs }

end Registry

namespace Coding

/-- The table of a type, worked out on first use. -/
def table (type : MessageType) : Coding (Except Unbuildable FieldTable) := do
  let registry := (← get).registry type.registry
  modify (·.update (registry.keepTable type))
  return registry.tableOf type

/-- The codec for an extension of a message of the given type, worked out on
first use. -/
def extensionCodec (owner : MessageType) (type : ExtensionType) : Coding FieldCodec := do
  let registry := (← get).registry owner.registry
  modify (·.update (registry.keepCodec type))
  return registry.codecOf type

/-- An extension of a type under a number, while the type's registry is there. -/
def findExtension (owner : MessageType) (number : Nat) : Coding (Option ExtensionType) := do
  let registry := (← get).registry owner.registry
  return if registry.dropped then none else registry.extension? owner.fullName number

end Coding

end ProtoWire
