import ProtoWire.Proofs.Message.ExtensionMap
import ProtoWire.Proofs.Message.Framing
import ProtoWire.Proofs.Message.Rendering

/-!
# Coherent caches

A message is coherent if each size kept in it, or in a message inside it, is the size that sizing
returns if it trusts no cache. For a coherent message the caches may be trusted: sizing and
marshaling return the same with them as without. Sizing, marshaling, encoding, copying, emptying
the cache and merging leave a message coherent, a merge also where it fails (`coherent_perform`).

Merging fills no cache. It empties the cache of each message that it changes before it changes it,
so that the sizes that are still kept afterwards are kept in messages as they were before
(`throughout_of_merge_unfilled`).
-/

set_option autoImplicit false

namespace ProtoWire

open Coding (Coupled Ensures coupled_pure ensures_pure)

namespace MessageOf

variable {store later : Store} {message after : Message}

/-- Each size kept in the message, or in a message inside it, is the one that sizing without
trust in caches returns. -/
def Coherent (store : Store) (message : Message) : Prop :=
  message.Throughout fun inner => ∀ size, inner.cache = .filled size →
    ((inner.size false).run store).1.2 = .ok size

/-- What is kept is the tally, in the store and in the stores that it grows to. -/
theorem coherent_iff (sound : store.Sound) (grows : store.Grows later)
    (registered : message.Registered store) :
    message.Coherent later ↔ message.Tallied store.catalog := by
  have size : ∀ inner : Message, inner.Registered store →
      ((inner.size false).run later).1.2 =
        (store.catalog.table inner.type).map fun _ => inner.tally store.catalog := by
    intro inner registered
    have distrusted : false = true → inner.Tallied store.catalog := by simp
    exact ((ensures_size_tally sound registered distrusted).run_grown grows).1.2
  induction message using MessageOf.induction with
  | step message ih =>
      constructor
      · rintro ⟨own, below⟩
        rw [size message registered] at own
        exact .intro own fun inner mem => (ih inner mem (registered.of_mem mem)).1 (below inner mem)
      · rintro ⟨own, below⟩
        rw [KeepsTally, ← size message registered] at own
        exact .intro own fun inner mem => (ih inner mem (registered.of_mem mem)).2 (below inner mem)

/-- What changes caches only, and leaves tallies in them, leaves a coherent message. -/
theorem Kept.coherent (kept : message.Kept store.catalog after) (sound : store.Sound)
    (grows : store.Grows later) (registered : message.Registered store)
    (coherent : message.Coherent store) : after.Coherent later := by
  rw [coherent_iff sound .refl registered] at coherent
  rw [coherent_iff sound grows (registered.congr kept.same.symm)]
  exact kept.tallied coherent

/-! ## Merging -/

/-- What merging can do to a message if it does anything: it empties its cache first. -/
def Emptied (coupling : Coupling) (nested : Effect) : Effect := fun message after failure =>
  after = message ∨ Merges coupling nested message.clearCachedSize after failure

/-- The same, if this many levels may still open. -/
def EmptiedWithin (coupling : Coupling) : Nat → Effect
  | 0 => Emptied coupling fun message after _ => after = message
  | depth + 1 => Emptied coupling (EmptiedWithin coupling depth)

section

variable {coupling : Coupling} {nested : Effect} {failure : Option Malformed} {bytes : Bytes}

theorem coupled_mergeInner_emptied (lawful : coupling.LawfulReading) {inside : Option Merger}
    (carried : nested.CarriedOutBy coupling inside) (depth : Nat) (group : Option Nat)
    (type : coupling.types message.type) (input : coupling.reads bytes) :
    Coupled coupling.linked (mergeInner inside depth group message bytes)
      (mergeInner inside depth group message bytes) fun result =>
        Emptied coupling nested message result.1 (failure? result.2) := by
  rw [mergeInner]
  apply (lawful.table message.type type).bind
  rintro result ⟨-, builds⟩
  cases result with
  | error error => exact coupled_pure (.inl rfl)
  | ok table =>
      obtain ⟨registry, builds, types⟩ := builds table rfl
      exact (coupled_mergeBody_emptied lawful carried builds types type group input).mono
        fun _ => .inr

theorem carriedOutBy_mergeAt_emptied (lawful : coupling.LawfulReading) (depth : Nat) :
    (EmptiedWithin coupling depth).CarriedOutBy coupling (some (mergeAt depth)) := by
  induction depth with
  | zero =>
      refine ⟨takesGroups_mergeAt 0, fun _ _ _ => .inl rfl, ?_⟩
      rintro _ ⟨⟩ group message bytes type input
      have unread : Effect.CarriedOutBy (fun message after _ => after = message) coupling none :=
        ⟨takesGroups_none, fun _ _ _ => rfl, by simp⟩
      exact coupled_mergeInner_emptied lawful unread 0 group type input
  | succ depth ih =>
      refine ⟨takesGroups_mergeAt (depth + 1), fun _ _ _ => .inl rfl, ?_⟩
      rintro _ ⟨⟩ group message bytes type input
      exact coupled_mergeInner_emptied lawful ih (depth + 1) group type input

variable {P : Message → Prop}

/-- A property of messages with filled caches holds throughout a message whose cache is empty after
it was merged into, if merging keeps it inside. -/
theorem Merges.throughout_of_unfilled
    (unfilled : ∀ message : Message, message.cache.clear = message.cache → P message)
    (inside : ∀ message after failure, nested message after failure →
      message.Throughout P → after.Throughout P)
    (h : Merges coupling nested message after failure)
    (empty : message.cache.clear = message.cache) (start : message.Throughout P) :
    after.Throughout P := by
  have new : ∀ type : MessageType, P type.newMessage := by
    intro type
    apply unfilled
    simp only [MessageType.newMessage]
    split <;> rfl
  induction h with
  | refl | refuse => exact start
  | trans first _ ih ih' =>
      have same := first.cache empty
      exact ih' (by rw [same, empty]) (ih empty start)
  | clearCachedSize message =>
      exact start.change (unfilled _ (SizeCache.clear_clear _)) fun _ mem => .inr mem
  | keepUnknown message bytes => exact start.change (unfilled _ empty) fun _ mem => .inr mem
  | @read message place slot failure offered reads =>
      have empty' : (place.leave message slot failure).cache.clear =
          (place.leave message slot failure).cache := by
        rw [Place.cache_leave, empty]
      apply start.change (unfilled _ empty')
      intro value mem
      rcases Place.mem_values_leave mem with before | ⟨eq, -⟩
      · exact .inr before
      · left
        have nested' : ∀ message after failure, nested message after failure →
            message.Throughout P → True → after.Throughout P :=
          fun message after failure effect start _ => inside message after failure effect start
        exact reads.throughout nested' new
          (fun value held => Place.throughout_of_held? start held) (fun _ _ => trivial)
          (fun _ _ _ _ _ => trivial) value eq

theorem Emptied.throughout
    (unfilled : ∀ message : Message, message.cache.clear = message.cache → P message)
    (inside : ∀ message after failure, nested message after failure →
      message.Throughout P → after.Throughout P)
    (h : Emptied coupling nested message after failure) (start : message.Throughout P) :
    after.Throughout P := by
  rcases h with rfl | merges
  · exact start
  · have empty : message.clearCachedSize.cache.clear = message.clearCachedSize.cache :=
      SizeCache.clear_clear _
    have emptied : message.clearCachedSize.Throughout P :=
      start.change (unfilled _ empty) fun _ mem => .inr mem
    exact merges.throughout_of_unfilled unfilled inside empty emptied

theorem EmptiedWithin.throughout
    (unfilled : ∀ message : Message, message.cache.clear = message.cache → P message)
    {depth : Nat} (h : EmptiedWithin coupling depth message after failure)
    (start : message.Throughout P) : after.Throughout P := by
  induction depth generalizing message after failure with
  | zero =>
      refine h.throughout unfilled ?_ start
      rintro message _ _ rfl start
      exact start
  | succ depth ih =>
      exact h.throughout unfilled (fun message after failure => ih) start

end

/-- A property of messages with filled caches that holds throughout a message holds throughout what
a merge leaves of it, whether the merge succeeded or failed. -/
theorem throughout_of_merge_unfilled {P : Message → Prop} (reachable : store.Reachable)
    (unfilled : ∀ message : Message, message.cache.clear = message.cache → P message)
    (held : store.Holds message.type) (start : message.Throughout P) (bytes : Bytes) :
    ((message.type.merge message bytes).run store).1.1.Throughout P := by
  have merged : Coupled (store.reading bytes).linked (message.type.merge message bytes)
      (message.type.merge message bytes) fun result => result.1.Throughout P := by
    have lawful := reachable.sound.lawful_reading bytes
    rw [MessageType.merge, if_neg (not_not_intro rfl)]
    apply (lawful.table message.type held).bind
    rintro result ⟨-, builds⟩
    cases result with
    | error error => exact coupled_pure start
    | ok table =>
        obtain ⟨registry, builds, types⟩ := builds table rfl
        have carried := carriedOutBy_mergeAt_emptied lawful (maxNesting - 1)
        have whole : bytes <:+: bytes := List.infix_rfl
        apply (coupled_mergeBody_emptied lawful carried builds types held none whole).bind
        rintro ⟨after, outcome⟩ merges
        have emptied : Emptied (store.reading bytes)
            (EmptiedWithin (store.reading bytes) (maxNesting - 1)) message after
              (failure? outcome) := .inr merges
        have kept := emptied.throughout unfilled
          (fun message after failure inside => inside.throughout unfilled) start
        cases outcome <;> exact coupled_pure kept
  exact (merged store store ⟨rfl, .refl⟩).2.1

/-- Merging asks for tables and codecs only, the latter of extensions that belong to the registry
of the message. -/
theorem grows_merge (sound : store.Sound) (held : store.Holds message.type) (bytes : Bytes) :
    store.Grows ((message.type.merge message bytes).run store).2 :=
  (MessageType.ensures_merge_accounts sound sound.frames_any held bytes).run.2

/-- A merge, whether it succeeds or fails, leaves a coherent message coherent. -/
theorem coherent_merge (reachable : store.Reachable) (registered : message.Registered store)
    (coherent : message.Coherent store) (bytes : Bytes) :
    ((message.type.merge message bytes).run store).1.1.Coherent
      ((message.type.merge message bytes).run store).2 := by
  have sound := reachable.sound
  have grows := grows_merge sound registered.holds bytes
  rw [coherent_iff sound .refl registered, ← coherent_iff sound grows registered] at coherent
  refine throughout_of_merge_unfilled reachable ?_ registered.holds coherent bytes
  -- nothing is said of a cache that is not filled
  intro message empty size filled
  rw [filled] at empty
  simp [SizeCache.clear] at empty

/-! ## Operations -/

/-- An operation that reads or changes the caches of a message. -/
inductive Operation where
  | size (trust : Bool)
  | marshal (trust : Bool)
  | encode
  | copy
  | clearCachedSize
  | merge (type : MessageType) (bytes : Bytes)

/-- What an operation leaves of a message. A copy is the message itself. -/
def Operation.perform : Operation → Message → Coding Message
  | .size trust, message => Prod.fst <$> message.size trust
  | .marshal trust, message => Marshaled.message <$> message.marshal trust
  | .encode, message => Prod.fst <$> message.encode
  | .copy, message => return message
  | .clearCachedSize, message => return message.clearCachedSize
  | .merge type bytes, message => Prod.fst <$> type.merge message bytes

theorem coherent_clearCachedSize (coherent : message.Coherent store) :
    message.clearCachedSize.Coherent store := by
  refine coherent.change ?_ fun _ mem => .inr mem
  intro size filled
  simp only [MessageOf.clearCachedSize] at filled
  cases cache : message.cache <;> simp [cache, SizeCache.clear] at filled

/-- Coding a coherent message leaves it coherent. -/
theorem coherent_of_kept (sound : store.Sound) (registered : message.Registered store)
    (coherent : message.Coherent store) {program : Coding Message}
    (kept : Ensures store program fun after => message.Kept store.catalog after) :
    (program.run store).1.Coherent (program.run store).2 := by
  obtain ⟨kept, grows⟩ := kept.run
  exact kept.coherent sound grows registered coherent

/-- The extensions of every message that operations lead to have different numbers. -/
theorem Formed.keyed {merged : List (Store × Bytes)} (formed : message.Formed merged) :
    message.Keyed :=
  formed.throughout_validExtensions.mono fun _ valid => valid.distinct

/-- With coherent caches, sizing and marshaling return the same whether they trust the caches or
not, and every operation leaves the message coherent. -/
theorem coherent_perform (reachable : store.Reachable) (registered : message.Registered store)
    (keyed : message.Keyed) (coherent : message.Coherent store) :
    ((message.size true).run store).1.2 = ((message.size false).run store).1.2 ∧
      ((message.marshal true).run store).1.bytes = ((message.marshal false).run store).1.bytes ∧
      ((message.marshal true).run store).1.failure =
        ((message.marshal false).run store).1.failure ∧
      ∀ operation : Operation, ((operation.perform message).run store).1.Coherent
        ((operation.perform message).run store).2 := by
  have sound := reachable.sound
  have tallied := (coherent_iff sound .refl registered).1 coherent
  have sized : ∀ trust, Ensures store (message.size trust) _ := fun trust =>
    ensures_size_tally sound registered fun _ => tallied
  have marshaled : ∀ trust, Ensures store (message.marshal trust) _ := fun trust =>
    ensures_marshal_render sound registered keyed fun _ => tallied
  have outputs := (marshaled true).run.1.2.trans (marshaled false).run.1.2.symm
  rw [Prod.mk.injEq] at outputs
  refine ⟨(sized true).run.1.2.trans (sized false).run.1.2.symm, outputs.1, outputs.2, ?_⟩
  intro operation
  cases operation with
  | size trust =>
      exact coherent_of_kept sound registered coherent
        (((sized trust).mono fun _ h => h.1).map Prod.fst)
  | marshal trust =>
      exact coherent_of_kept sound registered coherent
        (((marshaled trust).mono fun _ h => h.1).map Marshaled.message)
  | encode =>
      exact coherent_of_kept sound registered coherent
        ((ensures_encode_kept sound registered keyed tallied).map Prod.fst)
  | copy => exact coherent
  | clearCachedSize => exact coherent_clearCachedSize coherent
  | merge type bytes =>
      by_cases same : message.type = type
      · subst same
        exact coherent_merge reachable registered coherent bytes
      -- a message of another type is not merged into
      · rw [Operation.perform, MessageType.merge, if_pos same]
        exact coherent

/-- A node with a label and another node inside, whose caches are filled. -/
def sizedNode : Message :=
  ⟨nodeType,
    [some (.int32 5),
      some (.message ⟨nodeType, [some (.int32 (-1)), none], .filled 11, some [], some []⟩)],
    .filled 19, some [], some [⟨labelType, .string "x"⟩]⟩

theorem uncached_sizedNode : node.uncached = sizedNode.uncached := rfl

theorem coherent_sizedNode : sizedNode.Coherent nodeStore := by
  refine .intro ?_ fun inner mem => ?_
  · rintro _ ⟨⟩
    rfl
  · simp [sizedNode, children, values, attached, Value.messages] at mem
    subst mem
    refine .intro ?_ ?_
    · rintro _ ⟨⟩
      rfl
    · simp [children, values, attached, Value.messages]

theorem keyed_sizedNode : sizedNode.Keyed := by
  refine .intro (by decide) fun inner mem => ?_
  simp [sizedNode, children, values, attached, Value.messages] at mem
  subst mem
  refine .intro (by decide) ?_
  simp [children, values, attached, Value.messages]

/-- The merge fails inside the node in the node, after it has changed its weight. -/
theorem coherent_perform_node :
    sizedNode.cache = .filled 19 ∧
      ((sizedNode.size true).run nodeStore).1.2 = ((sizedNode.size false).run nodeStore).1.2 ∧
      ((nodeType.merge sizedNode [18, 3, 8, 7, 255]).run nodeStore).1.2 =
        some (.decode ⟨.invalidVarint, [.field 2]⟩) ∧
      (((Operation.merge nodeType [18, 3, 8, 7, 255]).perform sizedNode).run nodeStore).1.Coherent
        (((Operation.merge nodeType [18, 3, 8, 7, 255]).perform sizedNode).run nodeStore).2 := by
  have registered : sizedNode.Registered nodeStore := registered_node.congr uncached_sizedNode
  obtain ⟨size, -, -, operations⟩ :=
    coherent_perform reachable_nodeStore registered keyed_sizedNode coherent_sizedNode
  exact ⟨rfl, size, rfl, operations (.merge nodeType [18, 3, 8, 7, 255])⟩

end MessageOf

end ProtoWire
