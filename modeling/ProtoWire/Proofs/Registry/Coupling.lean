import ProtoWire.Proofs.Registry.Session
import ProtoWire.Proofs.Schema.Table

/-!
# Coupled runs

Two runs are coupled if, started in linked stores, they return the same result and leave linked
stores again (`Coding.Coupled`). Coding looks tables, codecs and extensions up and nothing else
of a store, so whole runs are coupled once these three lookups are; what is needed of them is a
lawful `Coupling`. Linked stores may be one store, of which it is then known what it has come
from (`Store.reading`), or two stores.
-/

set_option autoImplicit false

namespace ProtoWire

/-! ## Runs -/

namespace Coding

theorem run_bind {α β : Type} (program : Coding α) (next : α → Coding β) (store : Store) :
    (program >>= next).run store = (next (program.run store).1).run (program.run store).2 :=
  rfl

theorem run_pure {α : Type} (result : α) (store : Store) :
    (pure result : Coding α).run store = (result, store) :=
  rfl

section

variable {α β : Type} {linked : Store → Store → Prop}

/-- Started in linked stores, the computations return the same result, of which the assertion
holds, and leave linked stores. -/
def Coupled (linked : Store → Store → Prop) (left right : Coding α) (assertion : α → Prop) :
    Prop :=
  ∀ store other, linked store other →
    (left.run store).1 = (right.run other).1 ∧ assertion (left.run store).1 ∧
      linked (left.run store).2 (right.run other).2

variable {left right : Coding α} {assertion : α → Prop} {goal : β → Prop}

theorem coupled_pure {result : α} (holds : assertion result) :
    Coupled linked (pure result) (pure result) assertion :=
  fun _ _ link => ⟨rfl, holds, link⟩

/-- Coupled programs may be run one after the other, the second from what the first returned. -/
theorem Coupled.bind {next next' : α → Coding β} (h : Coupled linked left right assertion)
    (h' : ∀ first, assertion first → Coupled linked (next first) (next' first) goal) :
    Coupled linked (left >>= next) (right >>= next') goal := by
  intro store other link
  obtain ⟨same, holds, link'⟩ := h store other link
  rw [run_bind, run_bind, ← same]
  exact h' _ holds _ _ link'

/-- What is known of one run that is coupled with itself. -/
theorem Coupled.of_run {program : Coding α} {store later : Store} {result : α}
    (h : Coupled linked program program assertion) (link : linked store store)
    (run : program.run store = (result, later)) : assertion result ∧ linked later later := by
  obtain ⟨-, holds, link'⟩ := h store store link
  rw [run] at holds link'
  exact ⟨holds, link'⟩

theorem Coupled.mono {weaker : α → Prop} (h : Coupled linked left right assertion)
    (imp : ∀ result, assertion result → weaker result) : Coupled linked left right weaker := by
  intro store other link
  obtain ⟨same, holds, link'⟩ := h store other link
  exact ⟨same, imp _ holds, link'⟩

/-- What every run yields may be added to what is known. -/
theorem Coupled.and_run {known : α → Prop} (h : Coupled linked left right assertion)
    (yields : ∀ store, known (left.run store).1) :
    Coupled linked left right fun result => assertion result ∧ known result := by
  intro store other link
  obtain ⟨same, holds, link'⟩ := h store other link
  exact ⟨same, ⟨holds, yields store⟩, link'⟩

/-- The results may be put into other words on both sides, if these are the same ones. -/
theorem Coupled.map {f g : α → β} (h : Coupled linked left right assertion)
    (h' : ∀ first, assertion first → f first = g first ∧ goal (f first)) :
    Coupled linked (f <$> left) (g <$> right) goal := by
  intro store other link
  obtain ⟨same, holds, link'⟩ := h store other link
  obtain ⟨same', holds'⟩ := h' _ holds
  exact ⟨same'.trans (congrArg g same), holds', link'⟩

end

end Coding

open Coding (Coupled coupled_pure)

/-! ## Couplings -/

/-- How runs are coupled, and what they may ask for. -/
structure Coupling where
  linked : Store → Store → Prop
  /-- The types whose tables are asked for. -/
  types : MessageType → Prop
  /-- The extensions whose codecs are asked for, given the type that they are attached to. -/
  extensions : MessageType → ExtensionType → Prop
  /-- Whether tables may be missing. -/
  mayLack : Prop
  /-- The input that may be read. -/
  reads : Bytes → Prop := fun _ => True
  reads_part : ∀ bytes part, reads bytes → part <:+: bytes → reads part := by
    exact fun _ _ _ _ => trivial

/-- The lookups of tables and codecs are coupled, and they lead to nothing that may not be asked
for. -/
structure Coupling.Lawful (coupling : Coupling) : Prop where
  table : ∀ type, coupling.types type →
    Coupled coupling.linked (Coding.table type) (Coding.table type) fun result =>
      (∀ error, result = .error error → coupling.mayLack) ∧
        ∀ table, result = .ok table → ∃ registry : Registry, registry.Builds type table ∧
          ∀ entry ∈ table.entries, ∀ valueType, entry.codec.valueType = some valueType →
            coupling.types valueType
  codec : ∀ owner type, coupling.types owner → coupling.extensions owner type →
    Coupled coupling.linked (Coding.extensionCodec owner type) (Coding.extensionCodec owner type)
      fun codec => codec.Legal ∧
        ∀ valueType, codec.valueType = some valueType → coupling.types valueType
  own : ∀ owner type, coupling.extensions owner type → type.codec.Legal ∧
    ∀ valueType, type.valueType = some valueType → coupling.types valueType

/-- So is the lookup of the extensions that reading attaches. -/
structure Coupling.LawfulReading (coupling : Coupling) : Prop extends coupling.Lawful where
  find : ∀ owner number, coupling.types owner →
    Coupled coupling.linked (Coding.findExtension owner number)
      (Coding.findExtension owner number) fun found =>
        ∀ type, found = some type → coupling.extensions owner type ∧
          type.extendee = owner.fullName ∧ type.number = number

namespace Store

variable {store later : Store}

/-- Some registry of the store has registered the extension. -/
def Knows (store : Store) (type : ExtensionType) : Prop :=
  ∃ home, store.Declares home type

/-- Registered extensions have legal codecs. -/
theorem Sound.legal_codec (sound : store.Sound) {type : ExtensionType} (known : store.Knows type) :
    type.codec.Legal := by
  obtain ⟨home, declared⟩ := known
  exact (sound.registry home).legal_codec declared

/-- The values of a registered extension are of a registered type. -/
theorem Sound.holds_value (sound : store.Sound) {type : ExtensionType} (known : store.Knows type)
    {valueType : MessageType} (value : type.valueType = some valueType) :
    store.Holds valueType := by
  obtain ⟨home, declared⟩ := known
  exact sound.holds_of_mem ((sound.registry home).extensionValueType type declared valueType value)

/-! ### Lookups after coding -/

/-- After any coding, the table of a type is what the store gave before. -/
theorem Codes.run_table (codes : store.Codes later) (sound : store.Sound) {type : MessageType}
    (held : store.Holds type) :
    ((Coding.table type).run later).1 = store.catalog.table type ∧
      store.Codes ((Coding.table type).run later).2 := by
  obtain ⟨-, retains⟩ := sound.codes codes
  exact ⟨retains.table type held, codes.tail (.table (retains.holds_iff.2 held))⟩

/-- A table that was asked for is kept. -/
theorem Sound.kept_of_run_table (sound : store.Sound) {type : MessageType}
    (held : store.Holds type) :
    (((Coding.table type).run store).2.registry type.registry).tables.lookup type.fullName =
      some (store.catalog.table type) := by
  have same : ((store.registry type.registry).keepTable type).id = type.registry := by
    rw [Registry.id_keepTable, sound.id]
  have asked : ((Coding.table type).run store).2 =
      store.update ((store.registry type.registry).keepTable type) := rfl
  rw [asked, registry_update, same, if_pos ⟨rfl, lt_length_of_holds held⟩,
    Registry.lookup_tables_keepTable, if_pos rfl]
  rfl

/-- Asking for it again, after any coding, is answered alike and changes nothing. -/
theorem Codes.run_table_again {type : MessageType}
    (codes : ((Coding.table type).run store).2.Codes later) (sound : store.Sound)
    (held : store.Holds type) :
    (Coding.table type).run later = (store.catalog.table type, later) := by
  have asked : ((Coding.table type).run store).2.Sound := sound.keepTable held
  obtain ⟨sound', retains⟩ := asked.codes codes
  have kept := retains.kept _ _ _ (sound.kept_of_run_table held)
  have answer : (later.registry type.registry).tableOf type = store.catalog.table type := by
    rw [Registry.tableOf, kept, Option.getD_some]
  exact Prod.ext answer (sound'.update_keepTable_of_kept kept)

/-- The codec under the name of an extension is that of an extension of this name, not always of
the one that was asked for. -/
theorem Codes.run_extensionCodec (codes : store.Codes later) (sound : store.Sound)
    {owner : MessageType} {type : ExtensionType} (held : store.Holds owner)
    (known : store.Knows type) :
    (∃ other, store.Knows other ∧ other.fullName = type.fullName ∧
      ((Coding.extensionCodec owner type).run later).1 = other.codec) ∧
      store.Codes ((Coding.extensionCodec owner type).run later).2 := by
  obtain ⟨sound', retains⟩ := sound.codes codes
  obtain ⟨home, declared⟩ := known
  refine ⟨?_, codes.tail (.codec (retains.holds_iff.2 held) (retains.declares_iff.2 declared))⟩
  have run : ((Coding.extensionCodec owner type).run later).1 =
      (later.registry owner.registry).codecOf type := rfl
  rw [run, Registry.codecOf]
  cases kept : (later.registry owner.registry).codecs.lookup type.fullName with
  | none => exact ⟨type, ⟨home, declared⟩, rfl, rfl⟩
  | some codec =>
      obtain ⟨home', other, declared', name, eq⟩ := sound'.codecs _ _ _ kept
      exact ⟨other, ⟨home', retains.declares_iff.1 declared'⟩, name, eq⟩

theorem Codes.run_findExtension (codes : store.Codes later) (sound : store.Sound)
    (owner : MessageType) (number : Nat) :
    (Coding.findExtension owner number).run later =
      (store.catalog.extension? owner number, later) := by
  obtain ⟨-, retains⟩ := sound.codes codes
  exact Prod.ext (congrFun (congrFun retains.extension? owner) number) rfl

/-- An extension that is found is registered, for the name of that type and with that number. -/
theorem knows_of_extension? {owner : MessageType} {number : Nat} {type : ExtensionType}
    (h : store.catalog.extension? owner number = some type) :
    store.Knows type ∧ type.extendee = owner.fullName ∧ type.number = number := by
  obtain ⟨declared, names⟩ := mem_extensions_of_extension? h
  exact ⟨⟨_, declared⟩, names⟩

/-- The fields of a table hold messages of registered types. -/
theorem Sound.holds_values_of_table (sound : store.Sound) {type : MessageType} {table : FieldTable}
    (held : store.Holds type) (h : store.catalog.table type = .ok table) :
    ∃ registry : Registry, registry.Builds type table ∧
      ∀ entry ∈ table.entries, ∀ valueType, entry.codec.valueType = some valueType →
        store.Holds valueType := by
  have builds := sound.builds_of_table held h
  refine ⟨_, builds, fun entry mem valueType value => ?_⟩
  exact sound.holds_of_mem (builds.mem_types_of_mem mem value)

/-! ### One run -/

/-- One run that reads parts of the input, of which it is known which store the coding has started
from. -/
def reading (store : Store) (input : Bytes) : Coupling where
  linked first second := first = second ∧ store.Codes first
  types := store.Holds
  extensions owner type := store.catalog.extension? owner type.number = some type
  mayLack := True
  reads part := part <:+: input
  reads_part _ _ input part := part.trans input

theorem Sound.lawful_reading (sound : store.Sound) (input : Bytes) :
    (store.reading input).LawfulReading := by
  refine ⟨⟨?_, ?_, ?_⟩, ?_⟩
  · rintro type held later _ ⟨rfl, codes⟩
    obtain ⟨run, codes'⟩ := codes.run_table sound held
    refine ⟨rfl, ⟨fun _ _ => trivial, fun table eq => ?_⟩, rfl, codes'⟩
    exact sound.holds_values_of_table held (run.symm.trans eq)
  · rintro owner type held found later _ ⟨rfl, codes⟩
    obtain ⟨known, -⟩ := knows_of_extension? found
    obtain ⟨⟨other, known', -, run⟩, codes'⟩ := codes.run_extensionCodec sound held known
    refine ⟨rfl, ?_, rfl, codes'⟩
    rw [run]
    exact ⟨sound.legal_codec known', fun _ => sound.holds_value known'⟩
  · intro owner type found
    obtain ⟨known, -⟩ := knows_of_extension? found
    exact ⟨sound.legal_codec known, fun _ => sound.holds_value known⟩
  · rintro owner number - later _ ⟨rfl, codes⟩
    rw [codes.run_findExtension sound]
    refine ⟨rfl, fun type found => ?_, rfl, codes⟩
    obtain ⟨-, extendee, rfl⟩ := knows_of_extension? found
    exact ⟨found, extendee, rfl⟩

end Store

end ProtoWire
