import ProtoWire.Proofs.Message.Effect
import ProtoWire.Proofs.Message.Visiting
import ProtoWire.Proofs.Registry.Vouching

/-!
# Tables of nested messages

A table vouches for the tables of all types that its type reaches, and so does the registration
of an extension for those that its value type reaches. So coding a message for which there is a
table never comes across a nested message for which there is none (`Store.vouches_of_settled`),
provided that no failure is kept about one of these types which was completed later.

Failures are kept for good. If the table of a type was asked for before the types of its fields
were registered, then no table is vouched for that nests it (`not_vouched_staleStore`).
-/

set_option autoImplicit false

namespace ProtoWire

/-! ## The coupling of settled types -/

namespace Store

variable {store : Store} {id : RegistryId}

/-- Coding that asks for tables of these types, and for the registry's own extensions with values
of these types, only. No table may be missing. -/
def vouching (store : Store) (id : RegistryId) (types : MessageType → Prop) : Coupling where
  linked first second := first = second ∧ store.Grows first
  types := types
  extensions _ type := store.Native id type ∧
    ∀ valueType, type.valueType = some valueType → types valueType
  mayLack := False

/-- The type is registered and whole, and no failure is kept of it that stands in the way of its
table. -/
structure Stands (store : Store) (id : RegistryId) (type : MessageType) : Prop where
  mem : type ∈ (store.registry id).types
  whole : (store.registry id).Whole type
  settled : (store.registry id).Settled type

/-- Its table is there, as long as its registry is. -/
theorem Stands.exists_table {type : MessageType} (stands : store.Stands id type)
    (sound : store.Sound) (alive : (store.registry id).dropped = false) :
    ∃ table, store.catalog.table type = .ok table := by
  obtain ⟨-, home⟩ := sound.home_of_mem stands.mem
  have assured := stands.settled.assures (sound.registry id) alive stands.mem stands.whole
  simp only [catalog, home]
  exact assured.exists_tableOf (sound.registry id) alive stands.mem

/-- The coupling is lawful if the types include those of all fields of theirs. -/
theorem Sound.lawful_vouching (sound : store.Sound) (alive : (store.registry id).dropped = false)
    {types : MessageType → Prop} (stands : ∀ type, types type → store.Stands id type)
    (links : ∀ type other, types type → (store.registry id).Links type other → types other) :
    (store.vouching id types).Lawful := by
  refine ⟨?_, ?_, ?_⟩
  · rintro type known later _ ⟨rfl, grows⟩
    obtain ⟨held, home⟩ := sound.home_of_mem (stands type known).mem
    obtain ⟨run, grows'⟩ := Coding.yields_table sound held later grows
    obtain ⟨table, found⟩ := (stands type known).exists_table sound alive
    rw [run, found]
    refine ⟨rfl, ⟨by simp, ?_⟩, rfl, grows'⟩
    rintro _ ⟨⟩
    have builds := sound.builds_of_table held found
    rw [home] at builds
    exact ⟨_, builds, fun entry listed valueType value =>
      links type valueType known (builds.links_of_mem listed value)⟩
  · rintro owner type known ⟨native, values⟩ later _ ⟨rfl, grows⟩
    obtain ⟨held, rfl⟩ := sound.home_of_mem (stands owner known).mem
    obtain ⟨run, grows'⟩ := Coding.yields_extensionCodec sound held native.declared later grows
    have coded : store.catalog.codec owner type = type.codec := native.coded
    rw [run, coded]
    exact ⟨rfl, ⟨(sound.registry _).legal_codec native.declared, values⟩, rfl, grows'⟩
  · exact fun _ type ⟨native, values⟩ => ⟨(sound.registry id).legal_codec native.declared, values⟩

/-- It is lawful for reading if the types include those of all extensions that are found for them,
too, and these are coded by their own codecs. -/
theorem Sound.lawfulReading_vouching (sound : store.Sound)
    (alive : (store.registry id).dropped = false) {types : MessageType → Prop}
    (stands : ∀ type, types type → store.Stands id type)
    (opens : ∀ type other, types type → store.Opens type other → types other)
    (own : ∀ type, types type → store.OwnCodecs type) :
    (store.vouching id types).LawfulReading := by
  refine ⟨sound.lawful_vouching alive stands fun type other known links => ?_, ?_⟩
  · obtain ⟨-, rfl⟩ := sound.home_of_mem (stands type known).mem
    exact opens type other known (.inl links)
  · rintro owner number known later _ ⟨rfl, grows⟩
    obtain ⟨-, rfl⟩ := sound.home_of_mem (stands owner known).mem
    obtain ⟨run, grows'⟩ := Coding.yields_findExtension sound owner number later grows
    rw [run]
    refine ⟨rfl, fun type found => ⟨⟨(own owner known).native found, ?_⟩, ?_⟩, rfl, grows'⟩
    · exact fun valueType value => opens owner valueType known (.inr ⟨number, type, found, value⟩)
    · exact (mem_extensions_of_extension? found).2

/-- What a whole type reaches stands, if it is settled. -/
theorem stands_of_reaches {type other : MessageType} (mem : type ∈ (store.registry id).types)
    (whole : (store.registry id).Whole type) (settled : (store.registry id).SettledFrom type)
    (reached : (store.registry id).Reaches type other) : store.Stands id other :=
  ⟨reached.mem_types mem, whole.of_reaches reached, settled other reached⟩

/-- So does what reading comes across, since the extensions that are found were vouched for. -/
theorem Reachable.stands_of_opened (reachable : store.Reachable) {type other : MessageType}
    (mem : type ∈ (store.registry id).types) (whole : (store.registry id).Whole type)
    (settled : ∀ further, Relation.ReflTransGen store.Opens type further →
      (store.registry id).Settled further)
    (path : Relation.ReflTransGen store.Opens type other) : store.Stands id other := by
  induction path with
  | refl => exact ⟨mem, whole, settled type .refl⟩
  | @tail middle last path opens ih =>
      obtain ⟨-, rfl⟩ := reachable.sound.home_of_mem ih.mem
      obtain ⟨held, home⟩ := reachable.sound.home_of_opens opens
      rw [Holds, home] at held
      refine ⟨held, ?_, settled last (path.tail opens)⟩
      rcases opens with links | ⟨number, extension, found, value⟩
      · exact ih.whole.of_reaches (.single links)
      · have declared := (mem_extensions_of_extension? found).1
        exact (reachable.vouched _).extensions extension declared last value

end Store

/-! ## Failures for lack of a table -/

/-- The failure says that there is no table of a nested message's type. -/
def Failure.LacksTable : Failure → Prop
  | .encode error => error.fault = .nestedTable
  | .decode error => error.fault = .nestedTable
  | _ => False

section

variable {coupling : Coupling}

/-- If a merge failed then the bytes are at fault, or a table may be missing. -/
def Coupling.Explains (coupling : Coupling) : Effect :=
  fun _ _ failure => ∀ error, failure = some error → error.fault.OfBytes ∨ coupling.mayLack

/-- A value that cannot be read has bytes at fault, or a message inside is explained. -/
theorem FieldCodec.Reads.explained {nested : Effect}
    (inside : ∀ message after failure, nested message after failure →
      coupling.Explains message after failure)
    {codec : FieldCodec} {slot after : Option Value} {failure : Option Malformed}
    (reads : codec.Reads nested slot after failure) {error : Malformed}
    (failed : failure = some error) : error.fault.OfBytes ∨ coupling.mayLack := by
  cases reads with
  | scalar => cases failed
  | refused _ ofBytes =>
      cases failed
      exact .inl ofBytes
  | scalars _ _ faults => exact .inl (faults error failed)
  | single _ effect => exact inside _ _ _ effect error failed
  | item _ _ effect eq =>
      rw [eq] at failed
      obtain ⟨inner, failed', rfl⟩ := Option.map_eq_some_iff.1 failed
      exact inside _ _ _ effect inner failed'

/-- By induction over the merge: each step that refuses input is explained. -/
theorem MessageOf.MergesWithin.explained {depth : Nat} {message after : Message}
    {failure : Option Malformed} (h : MergesWithin coupling depth message after failure) :
    coupling.Explains message after failure := by
  apply MergesWithin.induction _ _ h
  · rintro message fault ofBytes _ ⟨⟩
    exact .inl ofBytes
  · intro nested inside message after failure merges
    induction merges with
    | refl | clearCachedSize | keepUnknown => simp [Coupling.Explains]
    | trans _ _ _ ih => exact ih
    | refuse message cause =>
        rintro _ ⟨⟩
        exact cause
    | read offered reads =>
        intro error eq
        obtain ⟨inner, failed, rfl⟩ := Option.map_eq_some_iff.1 eq
        have cause := reads.explained inside failed
        exact cause

/-- Where no table may be missing, no merge fails for lack of one. -/
theorem MessageType.Merges.not_lacksTable {message after : Message} {failure : Failure}
    (h : MessageType.Merges coupling message after (some failure)) (allThere : ¬ coupling.mayLack) :
    ¬ failure.LacksTable := by
  cases failure with
  | decode error =>
      rcases MessageOf.MergesWithin.explained h error rfl with ofBytes | lacks
      · exact ofBytes
      · exact absurd lacks allThere
  | build error => exact not_false
  | encode error => exact h.elim
  | schema error => exact not_false

end

/-! ## Messages without a table of their own -/

namespace MessageOf

open Coding (run_bind)

variable {store : Store} {message : Message} {error : Unbuildable}

theorem run_table_of_error {type : MessageType}
    (missing : store.catalog.table type = .error error) :
    (Coding.table type).run store = (.error error, ((Coding.table type).run store).2) :=
  Prod.ext missing rfl

theorem run_sizeOr_of_error (missing : store.catalog.table message.type = .error error)
    (absent : Nat) (trust : Bool) :
    (message.sizeOr absent trust).run store = (message.size trust).run store := by
  rw [sizeOr, size, measureWith, measureWith]
  cases (if trust then message.cache.get? else none) with
  | some size => rfl
  | none => rw [run_bind, run_bind, run_table_of_error missing]

/-- A message without a table of its own is not written at all. -/
theorem run_marshalOr_of_error (missing : store.catalog.table message.type = .error error)
    (absent : Nat) (trust : Bool) :
    ((message.marshalOr absent trust).run store) =
      (⟨message, [], some (.build error)⟩, ((Coding.table message.type).run store).2) := by
  rw [marshalOr, marshalBy, run_bind, run_table_of_error missing]
  rfl

theorem run_encode_of_error (missing : store.catalog.table message.type = .error error) :
    (message.encode.run store).1.2 = .error (.build error) := by
  have sized : (message.size false).run store =
      ((message, .error error), ((Coding.table message.type).run store).2) := by
    rw [size, measureWith, if_neg Bool.false_ne_true]
    rw [run_bind, run_table_of_error missing]
    rfl
  rw [encode, run_bind, sized]
  rfl

end MessageOf

/-! ## Vouching -/

/-- The tables of all types that the type reaches are there whenever they are asked for, as long
as the registry is alive. -/
def Store.Vouches (store : Store) (id : RegistryId) (type : MessageType) : Prop :=
  ∀ later, store.Leads later → (later.registry id).dropped = false →
    ∀ other, (later.registry id).Reaches type other →
      ∃ table, ((Coding.table other).run later).1 = .ok table

/-- Coding the message never comes across a nested message without a table: it does not matter
for what size such messages would count, and no failure is about one. -/
structure MessageOf.NestsTables (store : Store) (message : Message) : Prop where
  size : ∀ absent trust, (message.sizeOr absent trust).run store = (message.size trust).run store
  marshal : ∀ absent trust,
    (message.marshalOr absent trust).run store = (message.marshal trust).run store
  marshal_failure : ∀ trust failure, ((message.marshal trust).run store).1.failure = some failure →
    ¬ failure.LacksTable
  encode_failure : ∀ failure, (message.encode.run store).1.2 = .error failure →
    ¬ failure.LacksTable

/-- So it never comes across nested ones. -/
theorem MessageOf.nestsTables_of_error {store : Store} {message : Message} {error : Unbuildable}
    (missing : store.catalog.table message.type = .error error) : message.NestsTables store := by
  refine ⟨run_sizeOr_of_error missing, fun absent trust => ?_, fun trust failure eq => ?_,
    fun failure eq => ?_⟩
  · rw [← marshalOr_zero, run_marshalOr_of_error missing, run_marshalOr_of_error missing]
  · rw [← marshalOr_zero, run_marshalOr_of_error missing] at eq
    cases eq
    exact not_false
  · rw [run_encode_of_error missing] at eq
    cases eq
    exact not_false

/-- In a coupling of a store with itself, in which no table may be missing. -/
theorem MessageOf.nestsTables_of_lawful {store : Store} {message : Message} {coupling : Coupling}
    (lawful : coupling.Lawful) (allThere : ¬ coupling.mayLack)
    (alone : ∀ first second, coupling.linked first second → first = second)
    (link : coupling.linked store store) (admitted : coupling.types message.type)
    (carries : message.Bears coupling.extensions) : message.NestsTables store := by
  have noMatter : ∀ absent : Nat, coupling.mayLack → absent = 0 :=
    fun _ lacks => absurd lacks allThere
  refine ⟨fun absent trust => ?_, fun absent trust => ?_, fun trust failure eq => ?_,
    fun failure eq => ?_⟩
  · rw [← sizeOr_zero]
    obtain ⟨same, -, link'⟩ := coupled_size lawful (noMatter absent) trust admitted carries _ _ link
    exact Prod.ext same (alone _ _ link')
  · rw [← marshalOr_zero]
    obtain ⟨same, -, link'⟩ :=
      coupled_marshal lawful (noMatter absent) trust admitted carries _ _ link
    exact Prod.ext same (alone _ _ link')
  · rw [← marshalOr_zero] at eq
    obtain ⟨-, explained, -⟩ := coupled_marshal lawful (noMatter 0) trust admitted carries _ _ link
    rcases explained failure eq with ⟨error, rfl, cause⟩ | lacks
    · exact cause
    · exact absurd lacks allThere
  · obtain ⟨-, explained, -⟩ := coupled_encode lawful admitted carries _ _ link
    rcases explained failure eq with ⟨error, rfl, cause⟩ | lacks
    · exact cause
    · exact absurd lacks allThere

namespace Store

variable {store : Store} {id : RegistryId}

/-- A type for which there is a table is whole. -/
theorem whole_of_table (reachable : store.Reachable) {type : MessageType}
    (mem : type ∈ (store.registry id).types) {table : FieldTable}
    (found : store.catalog.table type = .ok table) : (store.registry id).Whole type := by
  obtain ⟨-, rfl⟩ := reachable.sound.home_of_mem mem
  exact (reachable.vouched _).whole_of_tableOf (reachable.sound.registry _) mem found

section

variable {type : MessageType} (reachable : store.Reachable)
  (alive : (store.registry id).dropped = false) (mem : type ∈ (store.registry id).types)
  (own : store.OwnCodecs type)
  (settled : ∀ other, Relation.ReflTransGen store.Opens type other →
    (store.registry id).Settled other)

include reachable alive mem own settled

/-- Merging input never lacks the table of a nested message. -/
theorem not_lacksTable_of_merge {message : Message} {bytes : Bytes} {failure : Failure}
    (failed : ((type.merge message bytes).run store).1.2 = some failure) :
    ¬ failure.LacksTable := by
  by_cases same : message.type = type
  case neg =>
    rw [MessageType.merge, if_pos same] at failed
    cases failed
    exact not_false
  cases found : store.catalog.table type with
  | error error =>
      rw [MessageType.merge, if_neg (not_not_intro same), Coding.run_bind,
        MessageOf.run_table_of_error found] at failed
      cases failed
      exact not_false
  | ok table =>
      have whole := whole_of_table reachable mem found
      have lawful : (store.vouching id (Relation.ReflTransGen store.Opens type)).LawfulReading :=
        reachable.sound.lawfulReading_vouching alive
          (fun other path => reachable.stands_of_opened mem whole settled path)
          (fun _ _ path opens => path.tail opens) fun _ path => own.opened path
      obtain ⟨-, effect, -⟩ := MessageType.coupled_merge lawful .refl same trivial _ _ ⟨rfl, .refl⟩
      rw [failed] at effect
      exact effect.not_lacksTable not_false

/-- Nor does decoding, which merges into a new message. -/
theorem not_lacksTable_of_decode {bytes : Bytes} {failure : Failure}
    (failed : ((type.decode bytes).run store).1 = .error failure) : ¬ failure.LacksTable := by
  have merged : ((type.merge type.newMessage bytes).run store).1.2 = some failure := by
    rw [MessageType.decode, Coding.run_bind] at failed
    generalize (type.merge type.newMessage bytes).run store = run at failed ⊢
    obtain ⟨⟨after, outcome⟩, later⟩ := run
    cases outcome <;> cases failed
    rfl
  exact not_lacksTable_of_merge reachable alive mem own settled merged

end

/-- Nor do sizing and marshaling, whatever tables the fields and extensions of the message ask for.
-/
theorem Reachable.nestsTables (reachable : store.Reachable)
    (alive : (store.registry id).dropped = false) {message : Message}
    (mem : message.type ∈ (store.registry id).types)
    (settled : (store.registry id).SettledFrom message.type)
    (carries : message.Carries fun extension => store.Native id extension ∧
      ∀ valueType, extension.valueType = some valueType →
        (store.registry id).SettledFrom valueType) : message.NestsTables store := by
  cases found : store.catalog.table message.type with
  | error error => exact MessageOf.nestsTables_of_error found
  | ok table =>
      have sound := reachable.sound
      have lawful : (store.vouching id fun type => ∀ other,
          (store.registry id).Reaches type other → store.Stands id other).Lawful :=
        sound.lawful_vouching alive (fun _ stands => stands _ .refl)
          fun _ _ stands links other reached => stands other (.head links reached)
      have whole := whole_of_table reachable mem found
      refine MessageOf.nestsTables_of_lawful lawful not_false (fun _ _ link => link.1) ⟨rfl, .refl⟩
        (fun other reached => stands_of_reaches mem whole settled reached)
        (carries.mono fun inner kinds entry listed => ?_)
      -- the value types of the extensions were vouched for
      obtain ⟨native, settled'⟩ := kinds entry listed
      refine ⟨native, fun valueType value other reached => ?_⟩
      have registered := (sound.registry id).extensionValueType _ native.declared valueType value
      have whole' := (reachable.vouched id).extensions _ native.declared valueType value
      exact stands_of_reaches registered whole' (settled' valueType value) reached

/-- If no failures are kept about types which were completed later then a table vouches for the
tables of all types that its type reaches, and so does a registered extension for those of its value
type. Coding messages of the registry with extensions of the registry never comes across a nested
message without a table, whether it writes or reads. -/
theorem vouches_of_settled (reachable : store.Reachable) :
    (∀ type ∈ (store.registry id).types, (store.registry id).SettledFrom type →
      ∀ table, ((Coding.table type).run store).1 = .ok table → store.Vouches id type) ∧
    (∀ extension, store.Declares id extension → ∀ valueType,
      extension.valueType = some valueType → (store.registry id).SettledFrom valueType →
        store.Vouches id valueType) ∧
    ((store.registry id).dropped = false →
      (∀ message : Message, message.type ∈ (store.registry id).types →
        (store.registry id).SettledFrom message.type →
        (message.Carries fun extension => store.Native id extension ∧
          ∀ valueType, extension.valueType = some valueType →
            (store.registry id).SettledFrom valueType) →
        message.NestsTables store) ∧
      ∀ type ∈ (store.registry id).types, store.OwnCodecs type →
        (∀ other, Relation.ReflTransGen store.Opens type other →
          (store.registry id).Settled other) →
        ∀ bytes failure,
          (∀ message, ((type.merge message bytes).run store).1.2 = some failure →
            ¬ failure.LacksTable) ∧
          (((type.decode bytes).run store).1 = .error failure → ¬ failure.LacksTable)) := by
  have vouches : ∀ type ∈ (store.registry id).types, (store.registry id).SettledFrom type →
      (store.registry id).Whole type → store.Vouches id type :=
    fun type mem settled whole later leads alive other reached =>
      leads.exists_table reachable settled alive mem whole reached
  refine ⟨?_, ?_, fun alive => ⟨?_, ?_⟩⟩
  · intro type mem settled table found
    exact vouches type mem settled (whole_of_table reachable mem found)
  · intro extension declared valueType value settled
    have sound := reachable.sound.registry id
    exact vouches valueType (sound.extensionValueType extension declared valueType value) settled
      ((reachable.vouched id).extensions extension declared valueType value)
  · exact fun message mem settled carries => reachable.nestsTables alive mem settled carries
  · intro type mem own settled bytes failure
    constructor
    · exact fun message failed => not_lacksTable_of_merge reachable alive mem own settled failed
    · exact fun failed => not_lacksTable_of_decode reachable alive mem own settled failed

end Store

/-! ## A failure that is kept for good -/

def leafType : MessageType :=
  ⟨⟨"t.Leaf", .proto3, [.plain "n" 1 .int32], [], [], false⟩, .full, ⟨0⟩⟩

/-- A type that nests leaves. -/
def childType : MessageType :=
  ⟨⟨"t.Child", .proto3,
    [{ FieldDescriptor.plain "leaf" 1 .message with messageType := some "t.Leaf" }], [], [], false⟩,
    .full, ⟨0⟩⟩

/-- A type that nests the type that nests leaves. -/
def parentType : MessageType :=
  ⟨⟨"t.Parent", .proto3,
    [{ FieldDescriptor.plain "child" 1 .message with messageType := some "t.Child" }], [], [],
    false⟩, .full, ⟨0⟩⟩

/-- A parent with a child that has a leaf. -/
def family : Message :=
  let child := childType.newMessage.putSlot 0 (some (.message leafType.newMessage))
  parentType.newMessage.putSlot 0 (some (.message child))

/-- No extensions are attached. -/
theorem carries_family (kind : ExtensionType → Prop) : family.Carries kind := by
  rw [MessageOf.carries_iff_bears]
  have child : (childType.newMessage.putSlot 0 (some (.message leafType.newMessage))).Bears
      fun _ => kind := by
    apply (MessageOf.bears_newMessage childType).putSlot
    rintro _ ⟨⟩
    exact Value.bears_message.2 (MessageOf.bears_newMessage leafType)
  apply (MessageOf.bears_newMessage parentType).putSlot
  rintro _ ⟨⟩
  exact Value.bears_message.2 child

/-- A store with one registry, which holds these types and tables. -/
def storeOf (types : List MessageType) (tables : List (String × Except Unbuildable FieldTable)) :
    Store :=
  ⟨[{ Registry.empty ⟨0⟩ with types := types, tables := tables }]⟩

/-- The three types were registered before any table was asked for. -/
def familyStore : Store :=
  storeOf [childType, leafType, parentType] []

/-- The table of the child was asked for before the leaf was registered. -/
def staleStore : Store :=
  storeOf [childType, leafType, parentType]
    [("t.Child", .error ⟨"t.Child", some 1, .unregisteredMessageType⟩)]

theorem reachable_childStore : (storeOf [childType] []).Reachable := by
  have registered : ((Store.empty.add fun registry => registry).2.registry ⟨0⟩).register
      childType.descriptor .full =
        .ok (childType, { Registry.empty ⟨0⟩ with types := [childType] }) := rfl
  exact .register (.add .empty) registered

/-- The leaf and the parent may be registered whatever is kept by then. -/
theorem reachable_completed {tables : List (String × Except Unbuildable FieldTable)}
    (h : (storeOf [childType] tables).Reachable) :
    (storeOf [childType, leafType, parentType] tables).Reachable := by
  have leaf : ((storeOf [childType] tables).registry ⟨0⟩).register leafType.descriptor .full =
      .ok (leafType, (storeOf [childType, leafType] tables).registry ⟨0⟩) := rfl
  have parent : ((storeOf [childType, leafType] tables).registry ⟨0⟩).register
      parentType.descriptor .full =
        .ok (parentType, (storeOf [childType, leafType, parentType] tables).registry ⟨0⟩) := rfl
  exact .register (.register h leaf) parent

theorem reachable_familyStore : familyStore.Reachable :=
  reachable_completed reachable_childStore

theorem reachable_staleStore : staleStore.Reachable := by
  have held : (storeOf [childType] []).Holds childType := List.mem_singleton_self childType
  exact reachable_completed (.keepTable reachable_childStore held)

namespace Store

theorem vouches_of_settled_family :
    (∀ type, (familyStore.registry ⟨0⟩).Settled type) ∧ familyStore.Vouches ⟨0⟩ parentType ∧
      family.NestsTables familyStore ∧ ((family.size false).run familyStore).1.2 = .ok 4 ∧
      ((parentType.decode [10, 2, 10, 0]).run familyStore).1 = .ok family ∧
      ((parentType.decode [10, 1]).run familyStore).1 = .error (.decode ⟨.truncated, [.field 1]⟩) ∧
      ¬ (Failure.decode ⟨.truncated, [.field 1]⟩).LacksTable := by
  have settled : ∀ type, (familyStore.registry ⟨0⟩).Settled type := by
    intro type error kept
    cases kept
  have parent : parentType ∈ (familyStore.registry ⟨0⟩).types :=
    List.mem_of_mem_getLast? rfl
  have own : familyStore.OwnCodecs parentType :=
    reachable_familyStore.sound.ownCodecs_of_registry parent fun _ _ => rfl
  obtain ⟨tables, -, coding⟩ := @vouches_of_settled familyStore ⟨0⟩ reachable_familyStore
  obtain ⟨writing, reading⟩ := coding rfl
  exact ⟨settled, tables parentType parent (fun other _ => settled other) _ rfl,
    writing family parent (fun other _ => settled other) (carries_family _), rfl, rfl, rfl,
    (reading parentType parent own (fun other _ => settled other) [10, 1] _).2 rfl⟩

/-- Parents have a table, and children, which parents reach, have none, since it was asked for too
early. So a parent with a child can neither be read nor be written, and its child counts for
nothing when it is sized. -/
theorem not_vouched_staleStore :
    staleStore.Reachable ∧ (staleStore.registry ⟨0⟩).dropped = false ∧
      (∃ table, ((Coding.table parentType).run staleStore).1 = .ok table) ∧
      (staleStore.registry ⟨0⟩).Reaches parentType childType ∧
      ((Coding.table childType).run staleStore).1 =
        .error ⟨"t.Child", some 1, .unregisteredMessageType⟩ ∧
      ¬ staleStore.Vouches ⟨0⟩ parentType ∧
      ((parentType.decode [10, 0]).run staleStore).1 =
        .error (.decode ⟨.nestedTable, [.field 1]⟩) ∧
      (family.encode.run staleStore).1.2 = .error (.encode ⟨.nestedTable, [.field 1]⟩) ∧
      ((family.size false).run staleStore).1.2 = .ok 2 := by
  have reached : (staleStore.registry ⟨0⟩).Reaches parentType childType :=
    .single ⟨_, List.mem_cons_self, rfl⟩
  have failed : ((Coding.table childType).run staleStore).1 =
      .error ⟨"t.Child", some 1, .unregisteredMessageType⟩ := rfl
  refine ⟨reachable_staleStore, rfl, ⟨_, rfl⟩, reached, failed, ?_, rfl, by decide, rfl⟩
  intro vouches
  obtain ⟨table, found⟩ := vouches staleStore .refl rfl childType reached
  rw [failed] at found
  cases found

end Store

end ProtoWire
