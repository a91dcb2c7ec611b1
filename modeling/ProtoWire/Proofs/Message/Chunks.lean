import ProtoWire.Proofs.Message.Merging

/-!
# Packed and expanded input

The values of a repeated field can be written in one record or each in a record of its own, and
readers take both forms, whichever the field asks for, in any mix. So a list may be cut in any way
into chunks that are written in one form or the other (`Chunk`): merging the records adds all the
values to the list in their order (`MessageType.takes_chunks`).

The registry of an extension has to exist, and the codec that it keeps under the name of the
extension has to be the extension's own (`Store.CodesOwn`). Nothing is said of the case in which the
codec of another registry's extension of this name is kept, since only names tell kept codecs apart:
then records of the extension are read as if they were records of the other one.
-/

set_option autoImplicit false

namespace ProtoWire

open Coding (Yields yields_pure)

/-! ## Lists of a message -/

/-- What has a list of values: a repeated field or a repeated extension. -/
inductive Repeated where
  | field (declared : FieldDescriptor)
  | extension (type : ExtensionType)

namespace Repeated

def descriptor : Repeated → FieldDescriptor
  | field declared => declared
  | extension type => type.descriptor.field

/-- What a message holds for it. -/
def held? (list : Repeated) (message : Message) : Option Value :=
  match list with
  | field declared => message.get? declared.number
  | extension type => (message.extension? type.number).map AttachedOf.value

/-- The values that a message holds for it. -/
def items (list : Repeated) (message : Message) : List Value :=
  ((list.held? message).map Value.items).getD []

/-- Merging the records into the message succeeds and adds the values to the list. -/
def Takes (list : Repeated) (store : Store) (type : MessageType) (message : Message)
    (records : List Bytes) (values : List Value) : Prop :=
  ∃ after, ((type.merge message records.flatten).run store).1 = (after, none) ∧
    list.held? after = some (.list (list.items message ++ values))

end Repeated

namespace Store

/-- The lists of the messages of a type: its repeated fields, and the repeated extensions that were
registered for it in its own registry, under numbers that it leaves to extensions. -/
def Lists (store : Store) (type : MessageType) : Repeated → Prop
  | .field declared => declared ∈ type.fields ∧ declared.isRepeated = true
  | .extension extension =>
      (store.Declares type.registry extension ∧ extension.extendee = type.fullName) ∧
      (type.storage.extensions = true ∧
        type.descriptor.isExtensionNumber extension.number = true ∧
        ∀ field ∈ type.fields, field.number ≠ extension.number) ∧
      extension.descriptor.field.isRepeated = true

/-- An extension is known as long as the registry is there, and is coded by its own codec unless
another one was kept under its name. Of fields nothing is asked. -/
def CodesOwn (store : Store) (type : MessageType) : Repeated → Prop
  | .field _ => True
  | .extension extension =>
      (store.registry type.registry).dropped = false ∧
        (store.registry type.registry).codecOf extension = extension.codec

end Store

/-- A record of values of a kind under a number. One value may stand in a record of its own, and
any number of values in one record whose length can be written. -/
inductive Chunk (number : Nat) (kind : Kind) : List Value → Bytes → Prop
  | packed {values : List Value} {payloads : List Payload} :
      List.Forall₂ (fun value payload => kind.payload? value = some payload) values payloads →
      Payload.totalSize payloads < UInt64.size →
      Chunk number kind values (Tag.write number .lengthDelimited ++
        (Varint.write (Payload.totalSize payloads) ++ payloads.flatMap Payload.write))
  | expanded {value : Value} {payload : Payload} : kind.payload? value = some payload →
      Chunk number kind [value] (Tag.write number kind.wireType ++ payload.write)

/-- The records are chunks of values for a list of a message, whose kind can be packed. -/
structure Repeated.Chunked (list : Repeated) (store : Store) (type : MessageType)
    (message : Message) (chunks : List (List Value)) (records : List Bytes) : Prop where
  held : store.Holds type
  regular : type.descriptor.messageSet = false
  lists : store.Lists type list
  packable : list.descriptor.kind.isPackable = true
  shaped : message.Shaped
  type : message.type = type
  cut : List.Forall₂ (Chunk list.descriptor.number list.descriptor.kind) chunks records
  nonempty : records ≠ []

theorem Kind.isMessage_of_isPackable {kind : Kind} (packable : kind.isPackable = true) :
    kind.isMessage = false := by
  cases kind <;> simp [Kind.isPackable] at packable <;> rfl

/-- The payloads of packable kinds have no length of their own. -/
theorem Payload.fits_of_isPackable {kind : Kind} {value : Value} {payload : Payload}
    (packable : kind.isPackable = true) (h : kind.payload? value = some payload) :
    payload.fits := by
  cases payload with
  | delimited body =>
      have wire := Kind.wireType_of_payload? h
      cases kind <;> simp [Kind.isPackable] at packable <;>
        simp [Payload.wireType, Kind.wireType] at wire
  | _ => trivial

section

variable {store : Store} {inside : Option Merger} {depth : Nat} {group : Option Nat}
  {type : MessageType} {table : FieldTable} {codec : FieldCodec} {list : Repeated}
  {message : Message} {chunks : List (List Value)} {records : List Bytes}

/-- A record fills the place with its values, whatever the arrangement of the place. -/
theorem Chunk.fills {values : List Value} {record : Bytes}
    (h : Chunk codec.number codec.kind values record)
    (repeated : codec.arrangement.isRepeated = true) (packable : codec.kind.isPackable = true)
    (slot : Option Value) :
    codec.Fills store inside slot record
      (.list ((slot.map Value.items).getD [] ++ values)) := by
  have scalar := Kind.isMessage_of_isPackable packable
  cases h with
  | packed all small => exact FieldCodec.fills_packed scalar repeated packable all small slot
  | expanded h =>
      exact FieldCodec.fills_item scalar repeated h (Payload.fits_of_isPackable packable h) slot

/-- Records one after the other fill the place with all their values. -/
theorem fills_chunks (all : List.Forall₂ (Chunk codec.number codec.kind) chunks records)
    (nonempty : records ≠ []) (repeated : codec.arrangement.isRepeated = true)
    (packable : codec.kind.isPackable = true) (slot : Option Value) :
    codec.Fills store inside slot records.flatten
      (.list ((slot.map Value.items).getD [] ++ chunks.flatten)) := by
  refine FieldCodec.fills_flatten (all.imp ?_) nonempty slot
  intro values record chunk slot
  exact chunk.fills repeated packable slot

/-! ## Places of lists -/

/-- The place holds the list in all messages of the type, which read the records of its number into
it. -/
structure Place.Serves (store : Store) (type : MessageType) (table : FieldTable) (place : Place)
    (list : Repeated) : Prop where
  number : place.codec.number = list.descriptor.number
  kind : place.codec.kind = list.descriptor.kind
  legal : isFieldNumber place.codec.number = true
  repeated : place.codec.arrangement.isRepeated = true
  held? : ∀ message : Message, message.type = type → list.held? message = place.held? message
  room : ∀ message : Message, message.Shaped → message.type = type → place.Room message
  opens : ∀ message : Message, message.Shaped → message.type = type → ∀ wire,
    place.codec.accepts wire = true →
      store.catalog.place? table message place.codec.number wire = some place

theorem exists_serves_field (builds : (store.registry type.registry).Builds type table)
    {field : FieldDescriptor} (mem : field ∈ type.fields) (repeated : field.isRepeated = true) :
    ∃ place : Place, place.Serves store type table (.field field) := by
  obtain ⟨position, declared⟩ := List.mem_iff_getElem?.1 mem
  obtain ⟨entry, listed, valueType, resolves, eq⟩ := builds.exists_entry declared
  have number : entry.number = field.number := by rw [eq]; rfl
  refine ⟨.field entry, ?_⟩
  constructor
  case number => exact number
  case kind =>
    rw [Place.codec, eq]
    rfl
  case legal => exact (builds.legal_of_mem listed).number
  case repeated =>
    rw [Place.codec, eq]
    exact (Arrangement.isRepeated_ofField _ _).trans repeated
  case held? =>
    rintro message rfl
    rw [Repeated.held?, ← number, builds.get?_of_mem listed, Place.held?]
  case room =>
    rintro message shaped rfl
    rw [Place.Room, shaped.slots, eq]
    exact (List.getElem?_eq_some_iff.1 declared).1
  case opens =>
    intro message shaped same wire accepts
    have found : table.entry? entry.codec.number = some entry :=
      builds.entry?_eq_some_iff.2 ⟨listed, rfl⟩
    rw [Place.codec, Catalog.place?, found]
    exact if_pos accepts

theorem serves_extension (sound : store.Sound)
    (builds : (store.registry type.registry).Builds type table) {extension : ExtensionType}
    (lists : store.Lists type (.extension extension))
    (codes : store.CodesOwn type (.extension extension)) :
    (Place.extension extension extension.codec).Serves store type table (.extension extension) := by
  obtain ⟨⟨declared, extendee⟩, ⟨storage, takes, undeclared⟩, repeated⟩ := lists
  obtain ⟨alive, own⟩ := codes
  have known : store.catalog.extension? type extension.number = some extension := by
    have found := (sound.registry type.registry).extensionNumbered extension declared
    rw [extendee] at found
    simp only [Store.catalog, alive, Bool.false_eq_true, if_false, found]
  constructor
  case number => rfl
  case kind => rfl
  case legal => exact ((sound.registry type.registry).legal_codec declared).number
  case repeated => exact (Arrangement.isRepeated_ofField _ _).trans repeated
  case held? => exact fun _ _ => rfl
  case room =>
    rintro message shaped rfl
    exact shaped.extensions.trans storage
  case opens =>
    rintro message shaped rfl wire accepts
    have place : message.extensions.isSome = true := shaped.extensions.trans storage
    have coded : store.catalog.codec message.type extension = extension.codec := own
    have number : extension.codec.number = extension.number := rfl
    -- the number is left to extensions, so the table does not answer first
    rw [Place.codec, Catalog.place?, number, builds.entry?_eq_none_iff.2 undeclared]
    simp only [place, takes, Bool.and_self, if_true, known, coded]
    exact if_pos accepts

theorem Store.Lists.exists_serves (lists : store.Lists type list) (codes : store.CodesOwn type list)
    (sound : store.Sound) (builds : (store.registry type.registry).Builds type table) :
    ∃ place : Place, place.Serves store type table list := by
  cases list with
  | field declared => exact exists_serves_field builds lists.1 lists.2
  | extension extension => exact ⟨_, serves_extension sound builds lists codes⟩

/-! ## Merging chunks -/

/-- Records of chunks are absorbed into the place of the list. -/
theorem Place.Serves.absorbs {place : Place} (serves : place.Serves store type table list)
    (sound : store.Sound) (chunked : list.Chunked store type message chunks records) :
    MessageOf.Absorbs store (MessageOf.mergeRecord inside depth table group) message
      records.flatten (place.fill message (.list (list.items message ++ chunks.flatten))) := by
  have cut := chunked.cut
  have packable := chunked.packable
  rw [← serves.number, ← serves.kind] at cut
  rw [← serves.kind] at packable
  rw [Repeated.items, serves.held? message chunked.type]
  have fills : place.codec.Fills store inside (place.held? message) records.flatten _ :=
    fills_chunks cut chunked.nonempty serves.repeated packable _
  exact MessageOf.absorbs_place sound place serves.legal fills (chunked.type ▸ chunked.held)
    (serves.opens message chunked.shaped chunked.type)
    (serves.room message chunked.shaped chunked.type) rfl

/-- The cached size of a message is no part of its lists. -/
theorem Repeated.Chunked.clearCachedSize
    (chunked : list.Chunked store type message chunks records) :
    list.Chunked store type message.clearCachedSize chunks records :=
  { chunked with shaped := chunked.shaped.clearCachedSize }

theorem Repeated.items_clearCachedSize (list : Repeated) (message : Message) :
    list.items message.clearCachedSize = list.items message := by
  cases list <;> rfl

end

namespace MessageType

variable {store : Store} {type : MessageType} {table : FieldTable} {list : Repeated}
  {message : Message} {chunks : List (List Value)} {records : List Bytes}

/-- However values are cut into chunks, merging their records adds all of them to the list, whether
or not the values of the list are written in one record. -/
theorem takes_chunks (h : store.Reachable) (codes : store.CodesOwn type list)
    (found : ((Coding.table type).run store).1 = .ok table)
    (chunked : list.Chunked store type message chunks records) :
    list.Takes store type message records chunks.flatten := by
  have builds := h.sound.builds_of_table chunked.held found
  obtain ⟨place, serves⟩ := chunked.lists.exists_serves codes h.sound builds
  have isRegular : table.isMessageSet = false := builds.isMessageSet.trans chunked.regular
  have answered : Yields store (Coding.table type) (.ok table) := by
    have catalog : store.catalog.table type = .ok table := found
    rw [← catalog]
    exact Coding.yields_table h.sound chunked.held
  -- merging starts with the message without its cached size
  have start := chunked.clearCachedSize
  have merges : Yields store (type.merge message records.flatten)
      (place.fill message.clearCachedSize (.list (list.items message ++ chunks.flatten)),
        none) := by
    rw [merge, if_neg (not_not_intro chunked.type), ← list.items_clearCachedSize]
    apply answered.bind
    simp only [MessageOf.mergeBody, isRegular, Bool.false_eq_true, if_false]
    exact ((serves.absorbs h.sound start).toEnd _).bind (yields_pure _)
  refine ⟨_, merges.run, ?_⟩
  rw [serves.held? _ ((Place.type_fill _ _ _).trans start.type)]
  exact (serves.room _ start.shaped start.type).held?_fill _

end MessageType

/-! ## Polls -/

/-- A poll, whose votes are not packed. -/
def votes : FieldDescriptor :=
  { FieldDescriptor.plain "votes" 1 .sint32 with cardinality := .repeated }

def pollType : MessageType := ⟨⟨"p.Poll", .proto2, [votes], [], [(100, 200)], false⟩, .full, ⟨0⟩⟩

/-- An extension of polls, which is packed. -/
def scoresType : ExtensionType :=
  ⟨⟨"p.scores", "p.Poll",
    { FieldDescriptor.plain "scores" 100 .int32 with cardinality := .repeated, packed := true }⟩,
    none⟩

/-- A store in which polls and their extension are registered. -/
def pollStore : Store :=
  ⟨[{ Registry.empty ⟨0⟩ with
    types := [pollType], extensions := [scoresType], extensionNames := [scoresType] }]⟩

theorem reachable_pollStore : pollStore.Reachable := by
  have registered : ((Store.holding []).registry ⟨0⟩).register pollType.descriptor .full =
      .ok (pollType, (Store.holding [pollType]).registry ⟨0⟩) := rfl
  have first : (Store.holding [pollType]).Reachable :=
    .register Store.reachable_holding_nil registered
  have extended : ((Store.holding [pollType]).registry ⟨0⟩).registerExtension
      scoresType.descriptor = .ok (scoresType, pollStore.registry ⟨0⟩) := rfl
  exact .registerExtension first extended

/-- What is left of the store when the table of polls was asked for and the registry is gone. -/
def droppedStore : Store :=
  (pollStore.update ((pollStore.registry ⟨0⟩).keepTable pollType)).drop ⟨0⟩

theorem reachable_droppedStore : droppedStore.Reachable := by
  have held : pollStore.Holds pollType := List.mem_singleton_self pollType
  exact .drop ⟨0⟩ (reachable_pollStore.keepTable held)

/-- A poll with a field whose type is not registered. -/
def draftType : MessageType :=
  ⟨⟨"p.Draft", .proto2,
    [votes, { FieldDescriptor.plain "part" 2 .message with messageType := some "p.Part" }],
    [], [], false⟩, .full, ⟨0⟩⟩

theorem reachable_draftStore : (Store.holding [draftType]).Reachable := by
  have registered : ((Store.holding []).registry ⟨0⟩).register draftType.descriptor .full =
      .ok (draftType, (Store.holding [draftType]).registry ⟨0⟩) := rfl
  exact .register Store.reachable_holding_nil registered

/-- One score in a packed record. -/
theorem chunk_score : Chunk 100 .int32 [.int32 5] [162, 6, 1, 5] := by
  have payloads : List.Forall₂ (fun value payload => Kind.int32.payload? value = some payload)
      [.int32 5] [.varint 5] :=
    .cons rfl .nil
  exact .packed payloads (by decide)

theorem chunked_scores {store : Store} (held : store.Holds pollType)
    (declared : store.Declares ⟨0⟩ scoresType) :
    (Repeated.extension scoresType).Chunked store pollType pollType.newMessage [[.int32 5]]
      [[162, 6, 1, 5]] where
  held := held
  regular := rfl
  lists := ⟨⟨declared, rfl⟩, ⟨rfl, by decide, by decide⟩, rfl⟩
  packable := rfl
  shaped := pollType.shaped_newMessage
  type := rfl
  cut := .cons chunk_score .nil
  nonempty := by simp

/-- A poll with one vote. -/
def poll : Message :=
  pollType.newMessage.putSlot 0 (some (.list [.int32 1]))

theorem shaped_poll : poll.Shaped := by
  have childless : poll.children = [] := by decide
  exact .intro rfl rfl (by simp [childless])

/-- A vote in a record of its own. -/
theorem chunk_vote : Chunk 1 .sint32 [.int32 7] [8, 14] := by
  have payload : Kind.sint32.payload? (.int32 7) = some (.varint 14) := by decide
  exact .expanded payload

theorem chunks_votes : List.Forall₂ (Chunk 1 .sint32) [[], [.int32 (-3), .int32 4], [.int32 7]]
    [[10, 0], [10, 2, 5, 8], [8, 14]] := by
  have two : List.Forall₂ (fun value payload => Kind.sint32.payload? value = some payload)
      [.int32 (-3), .int32 4] [.varint 5, .varint 8] :=
    .cons (by decide) (.cons (by decide) .nil)
  exact .cons (.packed .nil (by decide)) (.cons (.packed two (by decide)) (.cons chunk_vote .nil))

namespace MessageType

/-- Votes are added in both forms, and so are scores. -/
theorem takes_chunks_poll :
    (Repeated.field votes).items poll = [.int32 1] ∧
      (Repeated.field votes).Takes pollStore pollType poll [[10, 0], [10, 2, 5, 8], [8, 14]]
        [.int32 (-3), .int32 4, .int32 7] ∧
      (Repeated.extension scoresType).Takes pollStore pollType pollType.newMessage
        [[162, 6, 1, 5]] [.int32 5] := by
  have held : pollStore.Holds pollType := List.mem_singleton_self pollType
  have found : ((Coding.table pollType).run pollStore).1 = .ok (.build pollType [none] true) := by
    decide +kernel
  have chunked : (Repeated.field votes).Chunked pollStore pollType poll
      [[], [.int32 (-3), .int32 4], [.int32 7]] [[10, 0], [10, 2, 5, 8], [8, 14]] :=
    ⟨held, rfl, ⟨List.mem_singleton_self votes, rfl⟩, rfl, shaped_poll, rfl, chunks_votes, by simp⟩
  have declared : pollStore.Declares ⟨0⟩ scoresType := List.mem_singleton_self scoresType
  have plain : pollStore.CodesOwn pollType (.field votes) := trivial
  have own : pollStore.CodesOwn pollType (.extension scoresType) := ⟨rfl, rfl⟩
  exact ⟨rfl, takes_chunks reachable_pollStore plain found chunked,
    takes_chunks reachable_pollStore own found (chunked_scores held declared)⟩

/-- Nothing is merged where a message field names no registered type, and a registry that is gone
has no extensions. -/
theorem not_takes_chunks :
    ((Store.holding [draftType]).Reachable ∧
      (Repeated.field votes).Chunked (.holding [draftType]) draftType draftType.newMessage
        [[.int32 7]] [[8, 14]] ∧
      ¬ (Repeated.field votes).Takes (.holding [draftType]) draftType draftType.newMessage
        [[8, 14]] [.int32 7]) ∧
    (droppedStore.Reachable ∧
      (Repeated.extension scoresType).Chunked droppedStore pollType pollType.newMessage
        [[.int32 5]] [[162, 6, 1, 5]] ∧
      ¬ (Repeated.extension scoresType).Takes droppedStore pollType pollType.newMessage
        [[162, 6, 1, 5]] [.int32 5]) := by
  refine ⟨⟨reachable_draftStore, ?_, ?_⟩, reachable_droppedStore, ?_, ?_⟩
  · exact ⟨List.mem_singleton_self draftType, rfl, ⟨List.mem_cons_self, rfl⟩, rfl,
      draftType.shaped_newMessage, rfl, .cons chunk_vote .nil, by simp⟩
  · rintro ⟨after, merged, -⟩
    have failed : ((draftType.merge draftType.newMessage [8, 14]).run (.holding [draftType])).1 =
        (draftType.newMessage,
          some (.build ⟨"p.Draft", some 2, .unregisteredMessageType⟩)) := rfl
    cases failed.symm.trans merged
  · exact chunked_scores (List.mem_singleton_self pollType) (List.mem_singleton_self scoresType)
  · rintro ⟨after, merged, held⟩
    have kept : ((pollType.merge pollType.newMessage [162, 6, 1, 5]).run droppedStore).1 =
        (pollType.newMessage.keepUnknown [162, 6, 1, 5], none) := rfl
    cases kept.symm.trans merged
    cases held

end MessageType

end ProtoWire
