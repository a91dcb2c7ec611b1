import ProtoWire.Proofs.Message.Tree
import ProtoWire.Proofs.Registry.Reachable

/-!
# Messages of a store

A message is registered with a store if all types and extensions in it are, at every depth.
-/

set_option autoImplicit false

namespace ProtoWire

namespace MessageOf

/-- Every type and extension in the message is registered, the extensions with the registry of
the type that carries them. -/
inductive Registered (store : Store) : Message → Prop
  | intro {message : Message} :
      store.Holds message.type →
      (∀ entry ∈ message.attached, store.Declares message.type.registry entry.type) →
      (∀ inner ∈ message.children, Registered store inner) →
      Registered store message

variable {store : Store} {message inner : Message}

/-- The type of a registered message is held by the store. -/
theorem Registered.holds (h : message.Registered store) : store.Holds message.type := by
  cases h
  assumption

/-- What it carries was registered with the registry of its type. -/
theorem Registered.declares (h : message.Registered store) {entry : Attached}
    (mem : entry ∈ message.attached) : store.Declares message.type.registry entry.type := by
  cases h with
  | intro _ declared _ => exact declared entry mem

/-- The messages inside are registered, too. -/
theorem Registered.of_mem (h : message.Registered store) (inside : inner ∈ message.children) :
    inner.Registered store := by
  cases h with
  | intro _ _ below => exact below inner inside

/-- Size caches do not matter to being registered. -/
theorem registered_uncached {store : Store} {message : Message} :
    message.uncached.Registered store ↔ message.Registered store := by
  induction message using MessageOf.induction with
  | step message ih =>
      constructor
      · rintro ⟨held, declared, below⟩
        rw [type_uncached] at held declared
        refine ⟨held, ?_, ?_⟩
        · intro entry mem
          apply declared entry.uncached
          rw [attached_uncached]
          exact List.mem_map_of_mem mem
        · intro inner inside
          refine (ih inner inside).1 (below _ ?_)
          rw [children_uncached]
          exact List.mem_map_of_mem inside
      · rintro ⟨held, declared, below⟩
        refine ⟨by rwa [type_uncached], ?_, ?_⟩
        · intro entry mem
          rw [attached_uncached] at mem
          obtain ⟨before, mem', rfl⟩ := List.mem_map.1 mem
          rw [type_uncached]
          exact declared before mem'
        · intro inner inside
          rw [children_uncached] at inside
          obtain ⟨before, inside', rfl⟩ := List.mem_map.1 inside
          exact (ih before inside').2 (below before inside')

/-- Nor do they if two messages differ in them only. -/
theorem Registered.congr {store : Store} {a b : Message} (registered : a.Registered store)
    (h : a.uncached = b.uncached) : b.Registered store := by
  rw [← registered_uncached, ← h, registered_uncached]
  exact registered

end MessageOf

/-! ## A list of two nodes -/

/-- A node of a list, with a place for extensions. -/
def nodeDescriptor : MessageDescriptor :=
  ⟨"a.Node", .proto2,
    [.plain "weight" 1 .int32,
      { FieldDescriptor.plain "next" 2 .message with messageType := some "a.Node" }],
    [], [(100, 200)], false⟩

def nodeType : MessageType := ⟨nodeDescriptor, .full, ⟨0⟩⟩

/-- An extension of nodes. -/
def labelType : ExtensionType := ⟨⟨"a.label", "a.Node", .plain "label" 100 .string⟩, none⟩

/-- A store in which nodes and their extension are registered. -/
def nodeStore : Store :=
  ⟨[{ Registry.empty ⟨0⟩ with
    types := [nodeType], extensions := [labelType], extensionNames := [labelType] }]⟩

/-- The store comes from adding a registry and registering the type and its extension. -/
theorem reachable_nodeStore : nodeStore.Reachable := by
  have registered : ((Store.empty.add fun registry => registry).2.registry ⟨0⟩).register
      nodeDescriptor .full = .ok (nodeType, { Registry.empty ⟨0⟩ with types := [nodeType] }) := rfl
  have first := Store.Reachable.register (.add .empty) registered
  have extended : (Store.registry ⟨[{ Registry.empty ⟨0⟩ with types := [nodeType] }]⟩
      ⟨0⟩).registerExtension labelType.descriptor =
        .ok (labelType, nodeStore.registry ⟨0⟩) := rfl
  exact .registerExtension first extended

/-- A node with a label and another node inside, whose caches are wrong. -/
def node : Message :=
  ⟨nodeType,
    [some (.int32 5),
      some (.message ⟨nodeType, [some (.int32 (-1)), none], .filled 7, some [], some []⟩)],
    .filled 0, some [], some [⟨labelType, .string "x"⟩]⟩

/-- Both nodes are of the registered type, and the label is the registered one. -/
theorem registered_node : node.Registered nodeStore := by
  refine .intro List.mem_cons_self ?_ ?_
  · intro entry mem
    simp [node, MessageOf.attached] at mem
    subst mem
    exact List.mem_cons_self
  · intro inner mem
    simp [node, MessageOf.children, MessageOf.values, MessageOf.attached, Value.messages] at mem
    subst mem
    refine .intro List.mem_cons_self ?_ ?_
    · simp [MessageOf.attached]
    · simp [MessageOf.children, MessageOf.values, MessageOf.attached, Value.messages]

/-! ## A set of nodes -/

/-- A message set, whose extensions may have numbers from 4 on. -/
def setType : MessageType :=
  ⟨⟨"a.Set", .proto2, [], [], [(4, 1000)], true⟩, .full, ⟨0⟩⟩

/-- An extension of the set, whose items hold nodes. -/
def itemType : ExtensionType :=
  ⟨⟨"a.item", "a.Set",
    { FieldDescriptor.plain "item" 5 .message with messageType := some "a.Node" }⟩, some nodeType⟩

/-- A store in which nodes, their extension, the set and its extension are registered. -/
def setStore : Store :=
  ⟨[{ Registry.empty ⟨0⟩ with
    types := [nodeType, setType], extensions := [labelType, itemType],
    extensionNames := [labelType, itemType] }]⟩

/-- The set and its extension are registered after the nodes. -/
theorem reachable_setStore : setStore.Reachable := by
  have typed : (nodeStore.registry ⟨0⟩).register setType.descriptor .full =
      .ok (setType, { nodeStore.registry ⟨0⟩ with types := [nodeType, setType] }) := rfl
  have first := Store.Reachable.register reachable_nodeStore typed
  have extended : ((nodeStore.update { nodeStore.registry ⟨0⟩ with
      types := [nodeType, setType] }).registry ⟨0⟩).registerExtension itemType.descriptor =
        .ok (itemType, setStore.registry ⟨0⟩) := rfl
  exact .registerExtension first extended

theorem holds_setType : setStore.Holds setType :=
  List.mem_cons_of_mem _ (List.mem_singleton_self setType)

end ProtoWire
