import ProtoWire.Proofs.Message.Decoding

/-!
# Round trips

The encoding of a well-typed message merges field by field into any message of its type, and
decodes to the canonical form of the message (`MessageType.merge_encode`). Every message that
was decoded is well typed and so has an encoding, which decodes to the canonical form of the
message and is the encoding of that form, too (`MessageType.encode_decode`).

Both hold of types whose extensions are coded by their own codecs (`Store.OwnCodecs`). The codec
of an extension is kept under the extension's name with the registry of the message that it is
attached to. So an extension of another registry, once it was encoded as a part of some message,
decides how the registry's own extension of the same name is coded.
-/

set_option autoImplicit false

namespace ProtoWire

open Coding (Yields Ensures)

namespace MessageOf

variable {store : Store} {message : Message}

theorem encoding_of_wireForm {catalog : Catalog} {table : FieldTable} {bytes : Bytes}
    (found : catalog.table message.type = .ok table)
    (h : message.wireForm catalog = .ok bytes) : message.encoding catalog = .ok bytes := by
  rw [encoding, found, h]
  rfl

/-- A well-typed message can be encoded, and the encoding is its wire form. -/
theorem WellTyped.exists_encoding {depth : Nat} (sound : store.Sound)
    (held : store.Holds message.type) (own : store.OwnCodecs message.type)
    (h : message.WellTyped store.catalog depth) :
    ∃ bytes, message.wireForm store.catalog = .ok bytes ∧
      Ensures store message.encode fun encoded => encoded.2 = .ok bytes := by
  obtain ⟨bytes, written⟩ := h.exists_wireForm sound held own
  obtain ⟨table, found, -⟩ := wellTyped_iff.1 h
  have encoded := ensures_encode sound (h.registered sound held)
  rw [encoding_of_wireForm found written] at encoded
  exact ⟨bytes, written, encoded⟩

end MessageOf

/-! ## Nodes in two stores -/

theorem ownCodecs_nodeStore : nodeStore.OwnCodecs nodeType :=
  reachable_nodeStore.sound.ownCodecs_of_registry (List.mem_singleton_self nodeType) fun _ _ => rfl

/-- Nodes have no groups. -/
theorem plainGroups_of_nodes {store : Store} (sound : store.Sound)
    (types : (store.registry ⟨0⟩).types = [nodeType])
    (extensions : (store.registry ⟨0⟩).extensions = [labelType]) : store.PlainGroups nodeType := by
  have noGroup : ∀ field ∈ nodeType.fields, field.kind ≠ .group := by decide
  have mem_types : ∀ owner, owner ∈ (store.registry ⟨0⟩).types ↔ owner = nodeType := by
    simp [types]
  have mem_extensions : ∀ extension, extension ∈ (store.registry ⟨0⟩).extensions ↔
      extension = labelType := by
    simp [extensions]
  have held : store.Holds nodeType := (mem_types nodeType).2 rfl
  have opened : ∀ owner, Relation.ReflTransGen store.Opens nodeType owner → owner = nodeType := by
    intro owner path
    obtain ⟨held', home⟩ := sound.home_of_opened held path
    rw [Store.Holds, home] at held'
    exact (mem_types owner).1 held'
  constructor
  · intro owner path table found entry listed group
    obtain rfl := opened owner path
    obtain ⟨field, valueType, declared, -, eq⟩ :=
      (sound.builds_of_table held found).field_of_mem listed
    rw [eq] at group
    exact absurd group (noGroup field (List.mem_of_getElem? declared))
  · intro owner path number extension found group
    obtain rfl := opened owner path
    have declared := (Store.mem_extensions_of_extension? found).1
    obtain rfl := (mem_extensions extension).1 declared
    cases group

theorem plainGroups_nodeStore : nodeStore.PlainGroups nodeType :=
  plainGroups_of_nodes reachable_nodeStore.sound rfl rfl

/-- A node with a node inside that has another one inside. -/
def deepNode : Message :=
  ⟨nodeType,
    [some (.int32 1),
      some (.message ⟨nodeType,
        [none, some (.message ⟨nodeType, [some (.int32 3), none], .empty, some [], some []⟩)],
        .empty, some [], some []⟩)],
    .empty, some [], some []⟩

/-- A node with a label, a node inside and a record of a field that nodes do not declare. -/
def richNode : Message :=
  ⟨nodeType,
    [some (.int32 5),
      some (.message ⟨nodeType, [some (.int32 7), none], .empty, some [], some []⟩)],
    .empty, some [24, 9], some [⟨labelType, .string "x"⟩]⟩

/-- The second node merged into the first. -/
def mergedNode : Message :=
  ⟨nodeType,
    [some (.int32 5),
      some (.message ⟨nodeType,
        [some (.int32 7),
          some (.message ⟨nodeType, [some (.int32 3), none], .empty, some [], some []⟩)],
        .empty, some [], some []⟩)],
    .empty, some [24, 9], some [⟨labelType, .string "x"⟩]⟩

theorem wellTyped_of_decode_node {input : Bytes} {message : Message}
    (decoded : ((nodeType.decode input).run nodeStore).1 = .ok message) :
    message.WellTyped nodeStore.catalog maxNesting := by
  have held : nodeStore.Holds nodeType := List.mem_singleton_self nodeType
  have ensured := MessageType.ensures_decode reachable_nodeStore.sound held ownCodecs_nodeStore
    plainGroups_nodeStore input
  exact (ensured.run.1 message decoded).2

/-- An extension that bears the name of the label. -/
def numberType : ExtensionType := ⟨⟨"a.label", "a.Node", .plain "number" 101 .int32⟩, none⟩

/-- The store of nodes with another registry, in which that extension is registered. -/
def pairStore : Store :=
  ⟨nodeStore.registries ++ [{ Registry.empty ⟨1⟩ with
    extensions := [numberType], extensionNames := [numberType] }]⟩

/-- What is left of the store after a node was encoded with that extension. -/
def mixedStore : Store :=
  let tabled := pairStore.update ((pairStore.registry ⟨0⟩).keepTable nodeType)
  tabled.update ((tabled.registry ⟨0⟩).keepCodec numberType)

/-- The store of nodes with another registry, in which an extension is registered. -/
def besideNodes (foreign : ExtensionType) : Store :=
  ⟨nodeStore.registries ++ [{ Registry.empty ⟨1⟩ with
    extensions := [foreign], extensionNames := [foreign] }]⟩

/-- What is left of it after a node was encoded with that extension. -/
def mixedWith (foreign : ExtensionType) : Store :=
  let tabled := (besideNodes foreign).update
    (((besideNodes foreign).registry ⟨0⟩).keepTable nodeType)
  tabled.update ((tabled.registry ⟨0⟩).keepCodec foreign)

theorem reachable_mixedWith (foreign : ExtensionType)
    (registered : ((nodeStore.add fun registry => registry).2.registry ⟨1⟩).registerExtension
      foreign.descriptor = .ok (foreign, (besideNodes foreign).registry ⟨1⟩)) :
    (mixedWith foreign).Reachable := by
  have pair : (besideNodes foreign).Reachable :=
    .registerExtension (.add reachable_nodeStore) registered
  have held : (besideNodes foreign).Holds nodeType := List.mem_singleton_self nodeType
  have tabled := pair.keepTable held
  have held' : ((besideNodes foreign).update
      (((besideNodes foreign).registry ⟨0⟩).keepTable nodeType)).Holds nodeType :=
    List.mem_singleton_self nodeType
  have declared : ((besideNodes foreign).update
      (((besideNodes foreign).registry ⟨0⟩).keepTable nodeType)).Declares ⟨1⟩ foreign :=
    List.mem_singleton_self foreign
  exact .keepCodec tabled held' declared

theorem reachable_mixedStore : mixedStore.Reachable :=
  reachable_mixedWith numberType rfl

namespace MessageType

open MessageOf

variable {store : Store} {type : MessageType}

/-- The encoding of a well-typed message can be merged into any well-typed message of the type,
and leaves the field-wise merge of the two. Decoded, it gives the message in canonical form. -/
theorem merge_encode (reachable : store.Reachable) (held : store.Holds type)
    (own : store.OwnCodecs type) {target source : Message} {levels : Nat}
    (target_typed : target.WellTyped store.catalog levels) (target_type : target.type = type)
    (source_typed : source.WellTyped store.catalog maxNesting) (source_type : source.type = type) :
    ∃ bytes, (source.encode.run store).1.2 = .ok bytes ∧
      (bytes.length < UInt64.size →
        ((type.merge target bytes).run (source.encode.run store).2).1 =
            (overlay target source, none) ∧
          ((type.decode bytes).run (source.encode.run store).2).1 = .ok source.canonical) := by
  subst source_type
  have sound := reachable.sound
  obtain ⟨bytes, written, encoded⟩ := source_typed.exists_encoding sound held own
  obtain ⟨eq, grows⟩ := encoded.run
  refine ⟨bytes, eq, fun small => ⟨?_, ?_⟩⟩
  · have shaped := target_typed.shaped sound (target_type ▸ held)
    exact (yields_merge sound held own source_typed rfl shaped target_type small written _ grows).1
  · rw [← overlay_newMessage sound held source_typed]
    exact (yields_decode sound held own source_typed rfl small written _ grows).1

theorem merge_encode_node :
    (richNode.encode.run nodeStore).1.2 = .ok [162, 6, 1, 120, 8, 5, 18, 2, 8, 7, 24, 9] ∧
      ((nodeType.merge deepNode [162, 6, 1, 120, 8, 5, 18, 2, 8, 7, 24, 9]).run
        (richNode.encode.run nodeStore).2).1 = (mergedNode, none) ∧
      overlay deepNode richNode = mergedNode ∧ richNode.canonical = richNode := by
  have held : nodeStore.Holds nodeType := List.mem_singleton_self nodeType
  have deep : ((nodeType.decode [8, 1, 18, 4, 18, 2, 8, 3]).run nodeStore).1 = .ok deepNode := rfl
  have rich : ((nodeType.decode [162, 6, 1, 120, 8, 5, 18, 2, 8, 7, 24, 9]).run nodeStore).1 =
      .ok richNode := rfl
  obtain ⟨bytes, encoded, reads⟩ := merge_encode reachable_nodeStore held ownCodecs_nodeStore
    (wellTyped_of_decode_node deep) rfl (wellTyped_of_decode_node rich) rfl
  have known : (richNode.encode.run nodeStore).1.2 =
      .ok [162, 6, 1, 120, 8, 5, 18, 2, 8, 7, 24, 9] := by decide
  rw [known] at encoded
  cases encoded
  obtain ⟨merged, decoded⟩ := reads (by decide)
  have merged' : ((nodeType.merge deepNode [162, 6, 1, 120, 8, 5, 18, 2, 8, 7, 24, 9]).run
      (richNode.encode.run nodeStore).2).1 = (mergedNode, none) := rfl
  have decoded' : ((nodeType.decode [162, 6, 1, 120, 8, 5, 18, 2, 8, 7, 24, 9]).run
      (richNode.encode.run nodeStore).2).1 = .ok richNode := rfl
  rw [merged'] at merged
  rw [decoded'] at decoded
  exact ⟨known, merged', (Prod.mk.inj merged).1.symm, (Except.ok.inj decoded).symm⟩

/-- After another registry's extension was encoded under the name of the label, a node with a
label is well typed and has no encoding: what is asked for is a number. -/
theorem encode_label_mixedStore :
    mixedStore.Reachable ∧ mixedStore.Holds nodeType ∧
      (nodeType.newMessage.attach ⟨labelType, .string "x"⟩).WellTyped mixedStore.catalog
        maxNesting ∧
      ((nodeType.newMessage.attach ⟨labelType, .string "x"⟩).encode.run mixedStore).1.2 =
        .error (.encode ⟨.wrongVariant .int32, [.field 100]⟩) := by
  have held : mixedStore.Holds nodeType := List.mem_singleton_self nodeType
  have builds := reachable_mixedStore.sound.builds_of_table held rfl
  have typed : (nodeType.newMessage.attach ⟨labelType, .string "x"⟩).WellTyped
      mixedStore.catalog maxNesting :=
    wellTyped_iff.2 ⟨_, rfl, (typed_newMessage builds).attach rfl ⟨rfl, rfl, rfl, rfl⟩⟩
  exact ⟨reachable_mixedStore, held, typed, rfl⟩

/-- A message that was decoded is well typed. Its encoding decodes to its canonical form, and
is the encoding of that form. -/
theorem encode_decode (reachable : store.Reachable) (held : store.Holds type)
    (own : store.OwnCodecs type) (plain : store.PlainGroups type)
    {input : Bytes} {message : Message} {later : Store}
    (decoded : (type.decode input).run store = (.ok message, later)) :
    message.type = type ∧ message.WellTyped store.catalog maxNesting ∧
      ∃ bytes, (message.encode.run later).1.2 = .ok bytes ∧
        (bytes.length < UInt64.size →
          ∃ last, (type.decode bytes).run (message.encode.run later).2 =
              (.ok message.canonical, last) ∧
            (message.canonical.encode.run last).1.2 = .ok bytes) := by
  have sound := reachable.sound
  obtain ⟨typed, grows⟩ := (ensures_decode sound held own plain input).run
  rw [decoded] at typed grows
  obtain ⟨rfl, wellTyped⟩ := typed message rfl
  obtain ⟨bytes, written, encoded⟩ := wellTyped.exists_encoding sound held own
  obtain ⟨eq, grows'⟩ := encoded.run_grown grows
  refine ⟨rfl, wellTyped, bytes, eq, fun small => ?_⟩
  have reads := yields_decode sound held own wellTyped rfl small written
  rw [overlay_newMessage sound held wellTyped] at reads
  obtain ⟨eq', grows''⟩ := reads _ grows'
  refine ⟨_, Prod.ext eq' rfl, ?_⟩
  -- what was decoded again is well typed, too, so that it can be encoded
  obtain ⟨again, -⟩ := (ensures_decode sound held own plain bytes).run_grown grows'
  rw [eq'] at again
  obtain ⟨-, wellTyped'⟩ := again message.canonical rfl
  have same := wireForm_canonical sound held own wellTyped
  have held' : store.Holds message.canonical.type := by rwa [type_canonical]
  have own' : store.OwnCodecs message.canonical.type := by rwa [type_canonical]
  obtain ⟨bytes', written', encoded'⟩ := wellTyped'.exists_encoding sound held' own'
  rw [same, written] at written'
  cases written'
  exact (encoded'.run_grown grows'').1

theorem encode_decode_node :
    ((nodeType.decode [8, 133, 0, 24, 9, 18, 2, 8, 7, 162, 6, 1, 120]).run nodeStore).1 =
        .ok richNode ∧
      richNode.WellTyped nodeStore.catalog maxNesting ∧
      ∃ later last, (richNode.encode.run later).1.2 =
          .ok [162, 6, 1, 120, 8, 5, 18, 2, 8, 7, 24, 9] ∧
        (nodeType.decode [162, 6, 1, 120, 8, 5, 18, 2, 8, 7, 24, 9]).run
            (richNode.encode.run later).2 = (.ok richNode.canonical, last) ∧
        (richNode.canonical.encode.run last).1.2 =
          .ok [162, 6, 1, 120, 8, 5, 18, 2, 8, 7, 24, 9] := by
  have held : nodeStore.Holds nodeType := List.mem_singleton_self nodeType
  -- a varint with a byte too many, and fields out of order
  have decoded : (nodeType.decode [8, 133, 0, 24, 9, 18, 2, 8, 7, 162, 6, 1, 120]).run nodeStore =
      (.ok richNode,
        ((nodeType.decode [8, 133, 0, 24, 9, 18, 2, 8, 7, 162, 6, 1, 120]).run nodeStore).2) := rfl
  obtain ⟨-, typed, bytes, encoded, again⟩ := encode_decode reachable_nodeStore held
    ownCodecs_nodeStore plainGroups_nodeStore decoded
  have known : (richNode.encode.run ((nodeType.decode
      [8, 133, 0, 24, 9, 18, 2, 8, 7, 162, 6, 1, 120]).run nodeStore).2).1.2 =
        .ok [162, 6, 1, 120, 8, 5, 18, 2, 8, 7, 24, 9] := by decide
  rw [known] at encoded
  cases encoded
  obtain ⟨last, decoded', encoded'⟩ := again (by decide)
  exact ⟨congrArg Prod.fst decoded, typed, _, last, known, decoded', encoded'⟩

/-- After another registry's extension was encoded under the name of the label, a label that is
no text is decoded. Its encoding bears the number of the other extension, under which nothing is
found when it is decoded again. -/
theorem decode_label_mixedStore :
    mixedStore.Reachable ∧ mixedStore.Holds nodeType ∧ mixedStore.PlainGroups nodeType ∧
      ∃ message later, (nodeType.decode [160, 6, 5]).run mixedStore = (.ok message, later) ∧
        ¬ message.WellTyped mixedStore.catalog maxNesting ∧
        (message.encode.run later).1.2 = .ok [168, 6, 5] ∧
        ((nodeType.decode [168, 6, 5]).run (message.encode.run later).2).1 =
          .ok (nodeType.newMessage.keepUnknown [168, 6, 5]) := by
  have held : mixedStore.Holds nodeType := List.mem_singleton_self nodeType
  have plain := plainGroups_of_nodes reachable_mixedStore.sound rfl rfl
  refine ⟨reachable_mixedStore, held, plain, nodeType.newMessage.attach ⟨labelType, .int32 5⟩, _,
    rfl, ?_, by decide, rfl⟩
  intro wellTyped
  obtain ⟨table, found, typed⟩ := wellTyped_iff.1 wellTyped
  cases found
  obtain ⟨-, -, -, fits⟩ := typed.attached ⟨labelType, .int32 5⟩ List.mem_cons_self
  have text : (Kind.string.payload? (.int32 5)).isSome = true := fits
  simp [Kind.payload?] at text

end MessageType

end ProtoWire
