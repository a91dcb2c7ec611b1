import ProtoWire.Proofs.Message.Effect
import ProtoWire.Proofs.Message.RoundTrip
import ProtoWire.Proofs.Message.Visiting
import ProtoWire.Proofs.Registry.Abreast

/-!
# What was coded before

Coding leaves tables and codecs behind, which coding other messages will find. Two sessions that
make the same calls to register types and extensions may code what they like before, between and
after the calls: a message gives the same sizes, bytes and failures in both of them, and bytes give
the same message or failure (`Store.runsAlike_of_after`), if they concur about the tables that are
asked for, and no two extensions of one name are coded in messages of one registry.

Codecs are kept under names, and names are apart within one registry only. If extensions of one name
that two registries hold are coded in messages of the same registry, then coding one of them decides
how the other is coded from then on (`Store.affected_mixedStore`).
-/

set_option autoImplicit false

namespace ProtoWire

open Coding (Coupled coupled_pure)

namespace MessageType

variable {coupling : Coupling} {type : MessageType}

/-- A message of another type is refused, which asks for nothing. -/
theorem coupled_merge_any (lawful : coupling.LawfulReading) (admitted : coupling.types type)
    (message : Message) {bytes : Bytes} (input : coupling.reads bytes) :
    Coupled coupling.linked (type.merge message bytes) (type.merge message bytes) fun result =>
      result.1.type = message.type ∧
        (message.Bears coupling.extensions → result.1.Bears coupling.extensions) := by
  by_cases same : message.type = type
  · apply (coupled_merge lawful admitted same input).mono
    rintro ⟨after, failure⟩ effect
    cases failure with
    | none => exact ⟨effect.type, effect.bears⟩
    | some failure =>
        cases failure with
        | decode error => exact ⟨effect.type, effect.bears⟩
        | build error =>
            obtain rfl : after = message := effect
            exact ⟨rfl, id⟩
        | encode error | schema error => exact effect.elim
  · rw [merge, if_pos same]
    exact coupled_pure ⟨rfl, id⟩

/-- Decoding is coupled as merging into a new message is, and leaves a message of the type. -/
theorem coupled_decode (lawful : coupling.LawfulReading) (admitted : coupling.types type)
    {bytes : Bytes} (input : coupling.reads bytes) :
    Coupled coupling.linked (type.decode bytes) (type.decode bytes) fun result =>
      ∀ message, result = .ok message →
        message.type = type ∧ message.Bears coupling.extensions := by
  rw [decode]
  apply (coupled_merge_any lawful admitted type.newMessage input).bind
  rintro ⟨after, failure⟩ ⟨same, bears⟩
  cases failure with
  | some failure => exact coupled_pure (by simp)
  | none =>
      refine coupled_pure ?_
      rintro _ ⟨⟩
      exact ⟨same, bears (MessageOf.bears_newMessage type)⟩

end MessageType

namespace Store

variable {coded : Ledger} {requests : List Request} {first second : Store}

/-- The computation has the same result in both stores, and leaves both sessions with the calls that
they have made. -/
structure RunsAlike {α : Type} (coded : Ledger) (requests : List Request) (first second : Store)
    (program : Coding α) : Prop where
  result : (program.run first).1 = (program.run second).1
  first : After coded requests (program.run first).2
  second : After coded requests (program.run second).2

/-- Coupled programs run alike in two sessions: with the same result, after which both sessions go
on as such. -/
theorem runsAlike_of_coupled {α : Type} {program : Coding α} {assertion : α → Prop}
    {types : MessageType → Prop} (after : After coded requests first)
    (after' : After coded requests second)
    (h : Coupled (abreast coded first second types).linked program program assertion) :
    RunsAlike coded requests first second program := by
  obtain ⟨same, -, codes, codes'⟩ := h first second ⟨.refl, .refl⟩
  exact ⟨same, after.codes codes, after'.codes codes'⟩

/-- Let two sessions make the same calls, and code messages with any of the extensions of a ledger
before, between and after them. An extension that shares its name with no other one in the ledger is
coded by its own codec in messages of the registry. Messages with such extensions are sized and
written alike in both sessions, if these concur about the tables that are asked for, and bytes are
read alike; what is read are messages of which all this holds again. -/
theorem runsAlike_of_after (after : After coded requests first)
    (after' : After coded requests second) :
    (∀ owner type, coded.Sole owner.registry type →
      ((Coding.extensionCodec owner type).run first).1 = type.codec ∧
      ((Coding.extensionCodec owner type).run second).1 = type.codec) ∧
    (∀ message : Message, first.ConcursFrom second message.type →
      message.Bears (first.Codable coded (first.ConcursFrom second)) →
      (∀ trust, RunsAlike coded requests first second (message.size trust)) ∧
      (∀ trust, RunsAlike coded requests first second (message.marshal trust)) ∧
      RunsAlike coded requests first second message.encode) ∧
    ∀ type, Readable coded first second type → ∀ bytes,
      (∀ message, RunsAlike coded requests first second (type.merge message bytes)) ∧
      RunsAlike coded requests first second (type.decode bytes) ∧
      ∀ message, ((type.decode bytes).run first).1 = .ok message →
        message.type = type ∧ first.ConcursFrom second type ∧
          message.Bears (first.Codable coded (first.ConcursFrom second)) := by
  have sound := after.reachable.sound
  refine ⟨fun owner type sole => ?_, fun message concurs bears => ?_, fun type readable bytes => ?_⟩
  · exact ⟨after.run_extensionCodec sole, after'.run_extensionCodec sole⟩
  · have lawful : (abreast coded first second (first.ConcursFrom second)).Lawful :=
      after.lawful_abreast after' (fun type concurs => ⟨concurs.1, concurs.2 type .refl⟩)
        (fun type other concurs links => concurs.links sound links)
    refine ⟨fun trust => ?_, fun trust => ?_, ?_⟩
    · rw [← MessageOf.sizeOr_zero]
      exact runsAlike_of_coupled after after'
        (MessageOf.coupled_size lawful (fun _ => rfl) trust concurs bears)
    · rw [← MessageOf.marshalOr_zero]
      exact runsAlike_of_coupled after after'
        (MessageOf.coupled_marshal lawful (fun _ => rfl) trust concurs bears)
    · exact runsAlike_of_coupled after after' (MessageOf.coupled_encode lawful concurs bears)
  · have lawful := after.lawfulReading_abreast after'
    have input : (abreast coded first second (Readable coded first second)).reads bytes := trivial
    have decode := MessageType.coupled_decode lawful readable input
    refine ⟨fun message => ?_, runsAlike_of_coupled after after' decode, fun message decoded => ?_⟩
    · exact runsAlike_of_coupled after after'
        (MessageType.coupled_merge_any lawful readable message trivial)
    · obtain ⟨-, read, -⟩ := decode first second ⟨.refl, .refl⟩
      obtain ⟨same, bears⟩ := read message decoded
      refine ⟨same, readable.concursFrom sound, bears.mono fun inner codable entry mem => ?_⟩
      obtain ⟨known, sole, value⟩ := codable entry mem
      exact ⟨known, sole, fun valueType eq => (value valueType eq).concursFrom sound⟩

/-! ## An extension that two registries hold -/

/-- The calls that add a registry with nodes, sets, and the item of sets. -/
def itemCalls (id : RegistryId) : List Request :=
  [.add, .register id (.type nodeDescriptor .full), .register id (.type setType.descriptor .full),
    .register id (.extension itemType.descriptor)]

/-- The item of the registry's sets, which holds nodes of the registry. -/
def itemOf (id : RegistryId) : ExtensionType :=
  ⟨itemType.descriptor, some ⟨nodeDescriptor, .full, id⟩⟩

/-- What these calls make of a registry. -/
def itemRegistry (id : RegistryId) : Registry :=
  { Registry.empty id with
    types := [⟨nodeDescriptor, .full, id⟩, ⟨setType.descriptor, .full, id⟩]
    extensions := [itemOf id]
    extensionNames := [itemOf id] }

/-- In messages of each registry its own item is coded. -/
def ownItems : Ledger := fun id type => type = itemOf id

theorem sole_itemOf (id : RegistryId) : ownItems.Sole id (itemOf id) :=
  ⟨rfl, fun _ listed _ => congrArg ExtensionType.codec listed⟩

/-- A set with a node in its item. -/
def itemSet : Message :=
  setType.newMessage.attach ⟨itemOf ⟨0⟩, .message nodeType.newMessage⟩

/-- Nothing was coded before the set is. -/
def unusedItems : Store :=
  ⟨[itemRegistry ⟨0⟩, itemRegistry ⟨1⟩]⟩

/-- The set was encoded before the second registry was added. -/
def usedItems : Store :=
  (itemCalls ⟨1⟩).foldl enter (itemSet.encode.run ⟨[itemRegistry ⟨0⟩]⟩).2

theorem after_unusedItems : After ownItems (itemCalls ⟨0⟩ ++ itemCalls ⟨1⟩) unusedItems :=
  After.start.calls (itemCalls ⟨0⟩ ++ itemCalls ⟨1⟩)

theorem readable_items {first second : Store} (sound : first.Sound)
    (types : (first.registry ⟨0⟩).types = [nodeType, setType])
    (extensions : (first.registry ⟨0⟩).extensions = [itemOf ⟨0⟩])
    (node : first.Concurs second nodeType) (set : first.Concurs second setType) :
    ∀ type ∈ [nodeType, setType], Readable ownItems first second type := by
  have concurs : ∀ type ∈ (first.registry ⟨0⟩).types, first.Concurs second type := by
    rw [types]
    exact List.forall_mem_cons.2 ⟨node, List.forall_mem_singleton.2 set⟩
  rw [← types]
  refine fun type mem => readable_of_registry sound concurs (fun extension declared => ?_) mem
  rw [Declares, extensions, List.mem_singleton] at declared
  rw [declared]
  exact sole_itemOf ⟨0⟩

theorem codable_itemSet {first second : Store} (sound : first.Sound)
    (extensions : (first.registry ⟨0⟩).extensions = [itemOf ⟨0⟩])
    (readable : ∀ type ∈ [nodeType, setType], Readable ownItems first second type) :
    itemSet.Bears (first.Codable ownItems (first.ConcursFrom second)) := by
  have declared : first.Declares ⟨0⟩ (itemOf ⟨0⟩) := by
    rw [Declares, extensions]
    exact List.mem_singleton_self _
  have value : ∀ valueType, (itemOf ⟨0⟩).valueType = some valueType →
      first.ConcursFrom second valueType := by
    rintro _ ⟨⟩
    exact (readable nodeType List.mem_cons_self).concursFrom sound
  apply (MessageOf.bears_newMessage setType).attach
  exact ⟨⟨⟨⟨0⟩, declared⟩, sole_itemOf ⟨0⟩, value⟩,
    Value.bears_message.2 (MessageOf.bears_newMessage nodeType)⟩

theorem after_usedItems : After ownItems (itemCalls ⟨0⟩ ++ itemCalls ⟨1⟩) usedItems := by
  let alone : Store := ⟨[itemRegistry ⟨0⟩]⟩
  have after : After ownItems (itemCalls ⟨0⟩) alone := After.start.calls (itemCalls ⟨0⟩)
  have readable : ∀ type ∈ [nodeType, setType], Readable ownItems alone alone type :=
    readable_items after.reachable.sound rfl rfl (.inl ⟨⟨_, rfl⟩, ⟨_, rfl⟩⟩)
      (.inl ⟨⟨_, rfl⟩, ⟨_, rfl⟩⟩)
  have codable := codable_itemSet after.reachable.sound rfl readable
  have type := (readable setType (List.mem_cons_of_mem _ List.mem_cons_self)).concursFrom
    after.reachable.sound
  obtain ⟨-, writing, -⟩ := runsAlike_of_after after after
  exact (writing itemSet type codable).2.2.first.calls (itemCalls ⟨1⟩)

/-- The set is written and read alike whether it was encoded before the second registry was added,
with an item of the same name, or nothing was coded before. -/
theorem runsAlike_of_after_items :
    After ownItems (itemCalls ⟨0⟩ ++ itemCalls ⟨1⟩) usedItems ∧
      After ownItems (itemCalls ⟨0⟩ ++ itemCalls ⟨1⟩) unusedItems ∧
      (usedItems.registry ⟨0⟩).codecs ≠ (unusedItems.registry ⟨0⟩).codecs ∧
      (itemOf ⟨1⟩).codec ≠ (itemOf ⟨0⟩).codec ∧
      ((Coding.extensionCodec setType (itemOf ⟨0⟩)).run usedItems).1 = (itemOf ⟨0⟩).codec ∧
      (itemSet.encode.run usedItems).1.2 = .ok [11, 16, 5, 26, 0, 12] ∧
      ((setType.decode [11, 16, 5, 26, 0, 12]).run usedItems).1 = .ok itemSet := by
  have sound := after_usedItems.reachable.sound
  have readable : ∀ type ∈ [nodeType, setType], Readable ownItems usedItems unusedItems type :=
    readable_items sound rfl rfl (.inl ⟨⟨_, rfl⟩, ⟨_, rfl⟩⟩) (.inl ⟨⟨_, rfl⟩, ⟨_, rfl⟩⟩)
  have codable := codable_itemSet sound rfl readable
  have type := readable setType (List.mem_cons_of_mem _ List.mem_cons_self)
  obtain ⟨own, writing, reading⟩ := runsAlike_of_after after_usedItems after_unusedItems
  have written := (writing itemSet (type.concursFrom sound) codable).2.2.result
  have read := (reading setType type [11, 16, 5, 26, 0, 12]).2.1.result
  refine ⟨after_usedItems, after_unusedItems, by decide, by decide, (own _ _ (sole_itemOf ⟨0⟩)).1,
    ?_, ?_⟩
  · rw [written]
    decide
  · rw [read]
    rfl

/-! ## An extension of another registry -/

/-- The codec of the label is that of the other registry's extension once a node was encoded with
it: the label cannot be encoded any more, though it could be before, and what is read for it is a
number. -/
theorem affected_mixedStore :
    pairStore.Reachable ∧ pairStore.Codes mixedStore ∧ pairStore.Holds nodeType ∧
      pairStore.Knows labelType ∧
      ((Coding.extensionCodec nodeType labelType).run mixedStore).1 = numberType.codec ∧
      numberType.codec ≠ labelType.codec ∧
      ((nodeType.newMessage.attach ⟨labelType, .string "x"⟩).encode.run pairStore).1.2 =
        .ok [162, 6, 1, 120] ∧
      ((nodeType.newMessage.attach ⟨labelType, .string "x"⟩).encode.run mixedStore).1.2 =
        .error (.encode ⟨.wrongVariant .int32, [.field 100]⟩) ∧
      ((nodeType.decode [160, 6, 5]).run pairStore).1 =
        .ok (nodeType.newMessage.keepUnknown [160, 6, 5]) ∧
      ((nodeType.decode [160, 6, 5]).run mixedStore).1 =
        .ok (nodeType.newMessage.attach ⟨labelType, .int32 5⟩) := by
  have registered : ((nodeStore.add fun registry => registry).2.registry ⟨1⟩).registerExtension
      numberType.descriptor = .ok (numberType, pairStore.registry ⟨1⟩) := rfl
  have reachable : pairStore.Reachable := .registerExtension (.add reachable_nodeStore) registered
  have held : pairStore.Holds nodeType := List.mem_singleton_self nodeType
  have known : pairStore.Declares ⟨0⟩ labelType := List.mem_singleton_self labelType
  have tabled : pairStore.Codes (pairStore.update ((pairStore.registry ⟨0⟩).keepTable nodeType)) :=
    .single (.table held)
  have held' : (pairStore.update ((pairStore.registry ⟨0⟩).keepTable nodeType)).Holds nodeType :=
    List.mem_singleton_self nodeType
  have declared : (pairStore.update ((pairStore.registry ⟨0⟩).keepTable nodeType)).Declares ⟨1⟩
      numberType := List.mem_singleton_self numberType
  exact ⟨reachable, tabled.tail (.codec held' declared), held, ⟨_, known⟩, rfl, by decide,
    by decide, rfl, rfl, rfl⟩

end Store

end ProtoWire
