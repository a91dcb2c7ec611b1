import ProtoWire.Proofs.Json.Members
import ProtoWire.Proofs.Message.JsonValues

/-!
# Reading messages back

The JSON form of a message has one member for each field that is set and for each extension. Its
members are read in the order of their names, and whatever that order is, each of them brings
back what it was written for and leaves the others alone (`Gathers.member`). So a message that
conforms to its type reads back with its content (`Registry.readMessage_toJson`).
-/

set_option autoImplicit false

namespace ProtoWire

/-! ## The members of the JSON form -/

/-- The names of the fields are different, and none of them is in brackets. -/
structure MessageType.Legible (type : MessageType) : Prop where
  distinct : (type.fields.map (·.name)).Nodup
  plain : ∀ field ∈ type.fields, Json.bracketed? field.name = none

/-- The name of the member that an extension is. -/
def ExtensionType.memberName (type : ExtensionType) : String :=
  "[" ++ type.fullName ++ "]"

namespace MessageOf

variable {message after : Message}

/-- The members of the JSON form of a message without unknown bytes. -/
def members (message : Message) : List (String × Json) :=
  (message.type.fields.filterMap fun field =>
    (message.get? field.number).map fun value => (field.name, value.toJson)) ++
  message.attached.map fun entry => (entry.type.memberName, entry.value.toJson)

/-- A message without unknown bytes is written as its members. -/
theorem toJson_eq (known : message.unknown.getD [] = []) :
    message.toJson = .ofMembers message.members := by
  obtain ⟨type, slots, cache, unknown, extensions⟩ := message
  have rest : extensionsToJson extensions =
      ((⟨type, slots, cache, unknown, extensions⟩ : Message).attached).map
        fun entry => (entry.type.memberName, entry.value.toJson) := by
    cases extensions with
    | none => rfl
    | some entries => exact attachedToJson_eq entries
  rw [toJson, messageToJson, List.append_nil, rest]
  · rw [members]
    congr 2
    refine List.filterMap_congr fun field _ => ?_
    rw [slotsToJson_eq, get?]
    cases type.descriptor.position? field.number with
    | none => rfl
    | some position =>
        simp only [Option.bind_some, slot?, List.getElem?_map]
        rcases slots[position]? with _ | _ | value <;> rfl
  · rintro byte bytes rfl
    simp at known

section

variable (numbers : (message.type.fields.map (·.number)).Nodup)

include numbers in
/-- A declared number leads to the slot of its field. -/
theorem get?_number {position : Nat} {field : FieldDescriptor}
    (declared : message.type.fields[position]? = some field) :
    message.get? field.number = message.slot? position := by
  rw [get?, Registry.position?_of_nodup numbers declared, Option.bind_some]

include numbers in
/-- So does setting it. -/
theorem set_number {position : Nat} {field : FieldDescriptor}
    (declared : message.type.fields[position]? = some field) (value : Value) :
    message.set field.number value = .ok (message.putField position value) := by
  rw [set, fieldPosition, Registry.position?_of_nodup numbers declared]
  rfl

include numbers in
/-- A member is a field that is set or an extension. -/
theorem mem_members_iff {member : String × Json} :
    member ∈ message.members ↔
      (∃ position field value, message.type.fields[position]? = some field ∧
        message.slot? position = some value ∧ member = (field.name, value.toJson)) ∨
      ∃ entry ∈ message.attached, member = (entry.type.memberName, entry.value.toJson) := by
  rw [members, List.mem_append, List.mem_filterMap, List.mem_map]
  apply or_congr
  · constructor
    · rintro ⟨field, mem, eq⟩
      obtain ⟨position, declared⟩ := List.mem_iff_getElem?.1 mem
      rw [get?_number numbers declared, Option.map_eq_some_iff] at eq
      obtain ⟨value, held, rfl⟩ := eq
      exact ⟨position, field, value, declared, held, rfl⟩
    · rintro ⟨position, field, value, declared, held, rfl⟩
      refine ⟨field, List.mem_of_getElem? declared, ?_⟩
      rw [get?_number numbers declared, held]
      rfl
  · exact exists_congr fun entry => and_congr_right fun _ => eq_comm

end

/-- An extension that belongs to the type may be set. -/
theorem setExtension_of_belongs {registry : Registry} {entry : Attached}
    (belongs : entry.Belongs registry message.type) (place : message.extensions.isSome = true)
    (value : Value) :
    message.setExtension entry.type value = .ok (message.attach ⟨entry.type, value⟩) := by
  have extendee : entry.type.extendee = message.type.descriptor.fullName := belongs.extendee
  simp only [setExtension, extendee, belongs.inRange]
  obtain ⟨entries, eq⟩ := Option.isSome_iff_exists.1 place
  simp [eq]

variable {registry : Registry}

theorem bracketed?_memberName (type : ExtensionType) :
    Json.bracketed? type.memberName = some type.fullName :=
  Json.bracketed?_eq_some_iff.2 rfl

/-- No extension has a name without brackets. -/
theorem memberName_ne_of_plain {name : String} (plain : Json.bracketed? name = none)
    (type : ExtensionType) : name ≠ type.memberName := by
  rintro rfl
  simp [bracketed?_memberName] at plain

section

variable (sound : registry.Sound)
  (registered : ∀ entry ∈ message.attached, entry.type ∈ registry.extensions)
  (distinct : (message.attached.map (·.type.number)).Nodup)

include sound registered distinct in
/-- A message has one extension of a member name. -/
theorem eq_of_memberName {entry other : Attached} (mem : entry ∈ message.attached)
    (mem' : other ∈ message.attached) (same : entry.type.memberName = other.type.memberName) :
    entry = other := by
  have names := congrArg Json.bracketed? same
  rw [bracketed?_memberName, bracketed?_memberName] at names
  have types := sound.extension_eq_of_fullName (registered entry mem) (registered other mem')
    (Option.some.inj names)
  exact List.inj_on_of_nodup_map distinct mem mem' (congrArg ExtensionType.number types)

include sound registered distinct in
/-- No two members have one name. -/
theorem nodup_members (legible : message.type.Legible) : (message.members.map Prod.fst).Nodup := by
  have fields : ((message.type.fields.filterMap fun field => (message.get? field.number).map
      fun value => (field.name, value.toJson)).map Prod.fst).Sublist
      (message.type.fields.map (·.name)) := by
    induction message.type.fields with
    | nil => exact .slnil
    | cons field fields ih =>
        rw [List.filterMap_cons]
        cases message.get? field.number with
        | none => exact ih.cons _
        | some value => exact ih.cons_cons _
  rw [members, List.map_append, List.map_map]
  refine List.nodup_append.2 ⟨legible.distinct.sublist fields, ?_, ?_⟩
  · refine (List.nodup_map_iff_inj_on (List.Nodup.of_map _ distinct)).2 ?_
    exact fun entry mem other mem' same =>
      eq_of_memberName sound registered distinct mem mem' same
  · intro name inFields name' inExtensions
    obtain ⟨field, mem, rfl⟩ := List.mem_map.1 (fields.subset inFields)
    obtain ⟨entry, -, rfl⟩ := List.mem_map.1 inExtensions
    exact memberName_ne_of_plain (legible.plain field mem) entry.type

end

theorem Conforms.registered (conforms : message.Conforms registry) :
    ∀ entry ∈ message.attached, entry.type ∈ registry.extensions :=
  fun entry mem => (conforms.attached entry mem).registered

/-- The names of the members differ, for fields and extensions alike. -/
theorem Conforms.nodup_members (conforms : message.Conforms registry) (sound : registry.Sound)
    (legible : message.type.Legible) : (message.members.map Prod.fst).Nodup :=
  MessageOf.nodup_members sound conforms.registered conforms.distinct legible

/-! ## Reading the members -/

/-- A message of the type that holds what the members of some names were written for, and nothing
else. -/
structure Gathers (message : Message) (names : List String) (after : Message) : Prop where
  type : after.type = message.type
  length : after.slots.length = message.type.fields.length
  cache : after.cache = message.type.newMessage.cache
  unknown : after.unknown = message.type.newMessage.unknown
  place : after.extensions.isSome = message.type.storage.extensions
  slots : ∀ position field, message.type.fields[position]? = some field →
    (after.slot? position).map (Value.mapMessages content) =
      if field.name ∈ names then (message.slot? position).map (Value.mapMessages content)
      else message.type.initialSlot field
  distinct : (after.attached.map (·.type.number)).Nodup
  attached : ∀ entry, entry ∈ after.attached.map (AttachedOf.mapMessages content) ↔
    ∃ held ∈ message.attached,
      held.type.memberName ∈ names ∧ held.mapMessages content = entry

theorem gathers_newMessage (message : Message) : message.Gathers [] message.type.newMessage where
  type := rfl
  length := by simp [MessageType.newMessage]
  cache := rfl
  unknown := rfl
  place := by
    rw [MessageType.newMessage]
    cases message.type.storage.extensions <;> rfl
  slots := by
    intro position field declared
    rw [MessageType.slot?_newMessage _ declared, if_neg List.not_mem_nil,
      MessageType.initialSlot]
    split
    · rfl
    · cases field.kind <;> rfl
  distinct := by simp
  attached := by simp

/-- Setting a field brings back the value of its member. -/
theorem Gathers.putField {names : List String} (gathers : message.Gathers names after)
    (conforms : message.Conforms registry) (legible : message.type.Legible) {position : Nat}
    {field : FieldDescriptor} {value read : Value}
    (declared : message.type.fields[position]? = some field)
    (held : message.slot? position = some value)
    (same : read.mapMessages content = value.mapMessages content) :
    message.Gathers (field.name :: names) (after.putField position read) where
  type := by rw [type_putField, gathers.type]
  length := by rw [length_slots_putField, gathers.length]
  cache := by rw [cache_putField, gathers.cache]
  unknown := by rw [unknown_putField, gathers.unknown]
  place := by rw [extensions_putField, gathers.place]
  slots := by
    intro other field' declared'
    have inside : position < after.slots.length := by
      rw [gathers.length]
      exact (List.getElem?_eq_some_iff.1 declared).1
    rw [slot?_putField after inside, gathers.type]
    by_cases here : other = position
    · subst here
      obtain rfl := Option.some.inj (declared.symm.trans declared')
      rw [if_pos rfl, if_pos List.mem_cons_self, held, Option.map_some, Option.map_some, same]
    · have name : field'.name ≠ field.name := fun same =>
        here (position_eq_of_key_eq legible.distinct declared' declared same)
      rw [if_neg here]
      cases siblings : message.type.areSiblings position other with
      -- a sibling is not set, so that nothing is lost when it is unset
      | true =>
          have absent := conforms.exclusive position other siblings (by rw [held]; rfl)
          rw [MessageType.areSiblings_comm] at siblings
          have mayBeAbsent := mayBeAbsent_of_areSiblings siblings declared'
          rw [if_pos rfl, absent, MessageType.initialSlot_of_mayBeAbsent _ mayBeAbsent]
          simp
      | false =>
          rw [if_neg Bool.false_ne_true, gathers.slots other field' declared']
          simp only [List.mem_cons, name, false_or]
  distinct := by rw [attached_putField]; exact gathers.distinct
  attached := by
    intro entry
    have other : ∀ type : ExtensionType, type.memberName ∈ field.name :: names ↔
        type.memberName ∈ names := by
      intro type
      have ne := memberName_ne_of_plain (legible.plain field (List.mem_of_getElem? declared)) type
      simp [ne.symm]
    simp only [attached_putField, gathers.attached, other]

/-- Attaching an extension brings back the value of its member. -/
theorem Gathers.attach {names : List String} (gathers : message.Gathers names after)
    (sound : registry.Sound) (conforms : message.Conforms registry)
    (legible : message.type.Legible) {entry : Attached} (mem : entry ∈ message.attached)
    (fresh : entry.type.memberName ∉ names) {read : Value}
    (same : read.mapMessages content = entry.value.mapMessages content) :
    message.Gathers (entry.type.memberName :: names) (after.attach ⟨entry.type, read⟩) where
  type := gathers.type
  length := gathers.length
  cache := gathers.cache
  unknown := gathers.unknown
  place := by rw [← gathers.place, MessageOf.attach, Option.isSome_map]
  slots := by
    intro position field declared
    have ne := memberName_ne_of_plain (legible.plain field (List.mem_of_getElem? declared))
      entry.type
    simp only [List.mem_cons, ne, false_or]
    exact gathers.slots position field declared
  distinct := nodup_attach after gathers.distinct _
  attached := by
    intro other
    have place : after.extensions.isSome = true := by
      rw [gathers.place, ← conforms.extensionPlace]
      exact isSome_extensions_of_mem _ mem
    have brought : AttachedOf.mapMessages content ⟨entry.type, read⟩ =
        entry.mapMessages content := by
      rw [AttachedOf.mapMessages, same]
      rfl
    -- an extension that was read before has another number
    have apart : ∀ held ∈ message.attached, held.type.memberName ∈ names →
        held.type.number ≠ entry.type.number := by
      intro held mem' listed number
      rw [List.inj_on_of_nodup_map conforms.distinct mem' mem number] at listed
      exact fresh listed
    rw [attached_attach after _ place, List.map_append, List.mem_append, List.map_singleton,
      List.mem_singleton, brought]
    constructor
    · rintro (before | rfl)
      · obtain ⟨held, mem', listed, eq⟩ := (gathers.attached other).1
          ((List.filter_sublist.map _).subset before)
        exact ⟨held, mem', List.mem_cons_of_mem _ listed, eq⟩
      · exact ⟨entry, mem, List.mem_cons_self, rfl⟩
    · rintro ⟨held, mem', listed, rfl⟩
      rcases List.mem_cons.1 listed with name | listed
      · right
        rw [eq_of_memberName sound conforms.registered conforms.distinct mem' mem name]
      · left
        obtain ⟨found, inside, eq⟩ :=
          List.mem_map.1 ((gathers.attached _).2 ⟨held, mem', listed, rfl⟩)
        have type : found.type = held.type := (AttachedOf.mk.inj eq).1
        refine List.mem_map.2 ⟨found, List.mem_filter.2 ⟨inside, ?_⟩, eq⟩
        simpa [type] using apart held mem' listed

variable {read : MessageType → Json → Except Unfit Message} {names : List String}

/-- A member is put into the slot of the field of its name. -/
theorem readMember_field (numbers : (message.type.fields.map (·.number)).Nodup)
    (legible : message.type.Legible) {position : Nat} {field : FieldDescriptor}
    (declared : message.type.fields[position]? = some field) {json : Json} {value : Value}
    (reads : field.readValue read registry json = .ok value) :
    registry.readMember read message field.name json = .ok (message.putField position value) := by
  have mem := List.mem_of_getElem? declared
  have found : message.type.fields.find? (fun other => other.name == field.name) = some field :=
    (find?_key_eq_some_iff legible.distinct).2 ⟨mem, rfl⟩
  rw [Registry.readMember, legible.plain field mem]
  simp only [found, reads, Except.mapError]
  change (message.set field.number value).mapError Unfit.misuse = _
  rw [set_number numbers declared]
  rfl

/-- A member in brackets is attached to the extension of that name. -/
theorem readMember_extension (sound : registry.Sound) {entry : Attached}
    (belongs : entry.Belongs registry message.type) (place : message.extensions.isSome = true)
    {json : Json} {value : Value}
    (reads : entry.type.descriptor.field.readValue read registry json = .ok value) :
    registry.readMember read message entry.type.memberName json =
      .ok (message.attach ⟨entry.type, value⟩) := by
  rw [Registry.readMember, bracketed?_memberName]
  simp only [sound.extensionNamed _ belongs.registered, reads]
  change (message.setExtension entry.type value).mapError Unfit.misuse = _
  rw [setExtension_of_belongs belongs place]
  rfl

section

variable (sound : registry.Sound) (conforms : message.Conforms registry)
  (legible : message.type.Legible) (numbers : (message.type.fields.map (·.number)).Nodup)
  (nested : ∀ inner ∈ message.children, inner.ReadsBack read)

include sound conforms legible numbers nested in
/-- Reading a member brings back what it was written for. -/
theorem Gathers.member (gathers : message.Gathers names after) {member : String × Json}
    (mem : member ∈ message.members) (fresh : member.1 ∉ names) :
    ∃ later, registry.readMember read after member.1 member.2 = .ok later ∧
      message.Gathers (member.1 :: names) later := by
  rcases (mem_members_iff numbers).1 mem with
    ⟨position, field, value, declared, held, rfl⟩ | ⟨entry, listed, rfl⟩
  · obtain ⟨value', reads, same⟩ := FieldDescriptor.readValue_toJson
      (conforms.holds position field value declared held) fun inner inside =>
        nested inner (mem_children_of_slot? held inside)
    refine ⟨_, ?_, gathers.putField conforms legible declared held same⟩
    rw [← gathers.type] at numbers legible declared
    exact readMember_field numbers legible declared reads
  · have belongs := conforms.attached entry listed
    obtain ⟨value', reads, same⟩ := FieldDescriptor.readValue_toJson belongs.holds
      fun inner inside => nested inner (mem_children_of_attached listed inside)
    have place : after.extensions.isSome = true := by
      rw [gathers.place, ← conforms.extensionPlace]
      exact isSome_extensions_of_mem _ listed
    refine ⟨_, ?_, gathers.attach sound conforms legible listed fresh same⟩
    rw [← gathers.type] at belongs
    exact readMember_extension sound belongs place reads

include sound conforms legible numbers nested in
/-- Reading members of different names brings back what they were written for. -/
theorem Gathers.foldlM (gathers : message.Gathers names after) {members : List (String × Json)}
    (listed : ∀ member ∈ members, member ∈ message.members)
    (different : (members.map Prod.fst).Nodup)
    (fresh : ∀ member ∈ members, member.1 ∉ names) :
    ∃ later, members.foldlM
        (fun message member => registry.readMember read message member.1 member.2) after =
          .ok later ∧
      message.Gathers ((members.map Prod.fst).reverse ++ names) later := by
  induction members generalizing names after with
  | nil => exact ⟨after, rfl, gathers⟩
  | cons member members ih =>
      rw [List.map_cons, List.nodup_cons] at different
      obtain ⟨next, reads, gathers'⟩ := gathers.member sound conforms legible numbers nested
        (listed member List.mem_cons_self) (fresh member List.mem_cons_self)
      have fresh' : ∀ other ∈ members, other.1 ∉ member.1 :: names := by
        intro other mem listed'
        rcases List.mem_cons.1 listed' with same | before
        · exact different.1 (same ▸ List.mem_map_of_mem mem)
        · exact fresh other (List.mem_cons_of_mem _ mem) before
      obtain ⟨later, reads', gathers''⟩ := ih gathers'
        (fun other mem => listed other (List.mem_cons_of_mem _ mem)) different.2 fresh'
      refine ⟨later, ?_, ?_⟩
      · rw [List.foldlM_cons, reads]
        exact reads'
      · simpa using gathers''

include conforms numbers in
/-- A message that holds what all members were written for has the content of the message. -/
theorem Gathers.content_eq (gathers : message.Gathers names after)
    (all : ∀ member ∈ message.members, member.1 ∈ names) : after.content = message.content := by
  apply content_congr gathers.type
  · rw [gathers.length, conforms.slots]
  · intro position
    cases declared : message.type.fields[position]? with
    | none =>
        have outside := List.getElem?_eq_none_iff.1 declared
        rw [slot?, slot?, List.getElem?_eq_none (by rw [gathers.length]; exact outside),
          List.getElem?_eq_none (by rw [conforms.slots]; exact outside)]
    | some field =>
        rw [gathers.slots position field declared]
        cases held : message.slot? position with
        | some value =>
            have listed := all (field.name, value.toJson)
              ((mem_members_iff numbers).2 (.inl ⟨position, field, value, declared, held, rfl⟩))
            rw [if_pos listed]
        | none =>
            rw [MessageType.initialSlot_of_mayBeAbsent _
              (conforms.present position field declared held)]
            simp
  · rw [gathers.cache, conforms.cache, MessageType.newMessage]
    cases message.type.storage.sizeCache <;> rfl
  · rw [gathers.unknown, conforms.unknown]
  · rw [gathers.place, conforms.extensionPlace]
  · exact gathers.distinct
  · exact conforms.distinct
  · intro entry
    rw [gathers.attached, List.mem_map]
    refine exists_congr fun held => and_congr_right fun mem => ?_
    have listed := all _ ((mem_members_iff numbers).2 (.inr ⟨held, mem, rfl⟩))
    exact ⟨And.right, fun eq => ⟨listed, eq⟩⟩

/-! ## Messages inside messages -/

theorem depth_toJson_le {value : Value} {inner : Message} (inside : inner ∈ value.messages) :
    inner.toJson.depth ≤ value.toJson.depth := by
  induction value using Value.induction with
  | list items ih =>
      rw [Value.messages_list] at inside
      obtain ⟨item, mem, inside⟩ := List.mem_flatMap.1 inside
      have bound := ih item mem inside
      have below := Json.depth_le_itemsDepth (List.mem_map_of_mem (f := Value.toJson) mem)
      rw [Value.toJson, itemsToJson_eq, Json.depth]
      omega
  | other value single =>
      cases value with
      | message held =>
          rw [Value.messages_message, List.mem_singleton] at inside
          subst inside
          exact Nat.le_refl _
      | list items => exact absurd rfl (single items)
      | _ => simp [Value.messages] at inside

include sound conforms legible numbers in
/-- The JSON form of a message nests more deeply than those of the messages inside it. -/
theorem Conforms.depth_lt {inner : Message} (mem : inner ∈ message.children) :
    inner.toJson.depth < message.toJson.depth := by
  have inMembers : ∃ member ∈ message.members, inner.toJson.depth ≤ member.2.depth := by
    obtain ⟨value, held, inside⟩ := List.mem_flatMap.1 mem
    have bound := depth_toJson_le inside
    rcases conforms.cases_values held with ⟨position, field, declared, slot⟩ | ⟨entry, listed, rfl⟩
    · exact ⟨_, (mem_members_iff numbers).2
        (.inl ⟨position, field, value, declared, slot, rfl⟩), bound⟩
    · exact ⟨_, (mem_members_iff numbers).2 (.inr ⟨entry, listed, rfl⟩), bound⟩
  obtain ⟨member, listed, bound⟩ := inMembers
  have sorted := (Json.perm_sortMembers (conforms.nodup_members sound legible)).mem_iff.2 listed
  have below := Json.depth_le_membersDepth sorted
  rw [toJson_eq conforms.known, Json.ofMembers, Json.depth]
  omega

end

/-- Messages that conform to whole types read back. -/
theorem readsBack (sound : registry.Sound) (vouched : registry.Vouched)
    (legible : ∀ type ∈ registry.types, type.Legible) (message : Message)
    (conforms : message.Throughout (Conforms registry)) (mem : message.type ∈ registry.types)
    (whole : registry.Whole message.type) {depth : Nat} (deep : message.toJson.depth ≤ depth) :
    message.ReadsBack (registry.readMessageAt depth) := by
  induction message using MessageOf.induction generalizing depth with
  | step message ih =>
      have here := conforms.here
      have numbers := (whole _ .refl).nodup_numbers
      have legible' := legible _ mem
      have sorted := Json.perm_sortMembers (here.nodup_members sound legible')
      have below : ∀ inner ∈ message.children, inner.toJson.depth < message.toJson.depth :=
        fun inner inside => here.depth_lt sound legible' numbers inside
      have rendered := toJson_eq here.known
      cases depth with
      | zero =>
          rw [rendered, Json.ofMembers, Json.depth] at deep
          omega
      | succ depth =>
          have nested : ∀ inner ∈ message.children,
              inner.ReadsBack (registry.readMessageAt depth) := by
            intro inner inside
            obtain ⟨mem', whole'⟩ := here.whole sound vouched whole inside
            have := below inner inside
            exact ih inner inside (conforms.of_mem inside) mem' whole' (by omega)
          obtain ⟨after, reads, gathers⟩ := (gathers_newMessage message).foldlM sound here legible'
            numbers nested (fun member => sorted.mem_iff.1)
            ((sorted.map Prod.fst).nodup_iff.2 (here.nodup_members sound legible'))
            (fun _ _ => List.not_mem_nil)
          refine ⟨after, ?_, gathers.content_eq here numbers fun member listed => ?_⟩
          · rw [rendered]
            exact reads
          · rw [List.append_nil, List.mem_reverse]
            exact List.mem_map_of_mem (sorted.mem_iff.2 listed)

end MessageOf

/-- In every registry in which the fields of types have different names without brackets, the JSON
form of a message that conforms to a type with a table reads back as a message that is equal to it
and has the same content, bit for bit. -/
theorem Registry.readMessage_toJson {store : Store} (reachable : store.Reachable) {id : RegistryId}
    (legible : ∀ type ∈ (store.registry id).types, type.Legible) {message : Message}
    (mem : message.type ∈ (store.registry id).types) {table : FieldTable}
    (built : (store.registry id).tableOf message.type = .ok table)
    (conforms : message.Throughout (MessageOf.Conforms (store.registry id))) :
    ∃ after, (store.registry id).readMessage message.type message.toJson = .ok after ∧
      after.eq message = true ∧ after.content = message.content := by
  have sound := reachable.sound.registry id
  have vouched := reachable.vouched id
  have whole := vouched.whole_of_tableOf sound mem built
  obtain ⟨after, reads, same⟩ :=
    MessageOf.readsBack sound vouched legible message conforms mem whole (Nat.le_refl _)
  exact ⟨after, reads, MessageOf.eq_of_content conforms same, same⟩

/-! ## A report -/

def blobType : MessageType :=
  ⟨⟨"a.Blob", .proto3, [.plain "data" 1 .bytes], [], [], false⟩, .full, ⟨0⟩⟩

/-- A report with a place for extensions. -/
def reportType : MessageType :=
  ⟨⟨"a.Report", .proto2,
      [.plain "id" 1 .uint64, .plain "ratio" 2 .float,
        { FieldDescriptor.plain "tags" 3 .string with cardinality := .repeated },
        { FieldDescriptor.plain "blob" 4 .message with messageType := some "a.Blob" }],
      [], [(100, 200)], false⟩,
    .full, ⟨0⟩⟩

/-- An extension of reports. -/
def flagType : ExtensionType := ⟨⟨"a.flag", "a.Report", .plain "flag" 100 .bool⟩, none⟩

def reportStore : Store :=
  ⟨[{ Registry.empty ⟨0⟩ with
      types := [blobType, reportType], extensions := [flagType], extensionNames := [flagType] }]⟩

theorem reachable_reportStore : reportStore.Reachable := by
  have blob : ((Store.empty.add fun registry => registry).2.registry ⟨0⟩).register
      blobType.descriptor .full =
        .ok (blobType, { Registry.empty ⟨0⟩ with types := [blobType] }) := rfl
  have first := Store.Reachable.register (.add .empty) blob
  have report : (Store.registry ⟨[{ Registry.empty ⟨0⟩ with types := [blobType] }]⟩ ⟨0⟩).register
      reportType.descriptor .full =
        .ok (reportType, { Registry.empty ⟨0⟩ with types := [blobType, reportType] }) := rfl
  have second := Store.Reachable.register first report
  have flag : (Store.registry ⟨[{ Registry.empty ⟨0⟩ with types := [blobType, reportType] }]⟩
      ⟨0⟩).registerExtension flagType.descriptor = .ok (flagType, reportStore.registry ⟨0⟩) := rfl
  exact .registerExtension second flag

def blob : Message :=
  ⟨blobType, [some (.bytes [0, 255])], .empty, some [], some []⟩

/-- A report with the largest number, a ratio of one half, no tags and a flag. -/
def report : Message :=
  ⟨reportType,
    [some (.uint64 18446744073709551615), some (.single 1056964608), some (.list []),
      some (.message blob)],
    .empty, some [], some [⟨flagType, .bool true⟩]⟩

theorem legible_reportStore : ∀ type ∈ (reportStore.registry ⟨0⟩).types, type.Legible := by
  intro type mem
  have cases : type = blobType ∨ type = reportType := by
    simpa [reportStore, Store.registry] using mem
  rcases cases with rfl | rfl <;> constructor <;> decide

theorem conforms_blob : blob.Conforms (reportStore.registry ⟨0⟩) where
  slots := rfl
  cache := rfl
  unknownPlace := rfl
  known := rfl
  extensionPlace := rfl
  holds := by
    intro position field value declared held
    rcases position with _ | position
    · cases declared
      cases held
      rfl
    · simp [blob, blobType, MessageType.fields] at declared
  present := by
    intro position field declared held
    rcases position with _ | position
    · cases held
    · simp [blob, blobType, MessageType.fields] at declared
  exclusive := MessageOf.exclusive_of_plain (by decide)
  distinct := by simp [blob, MessageOf.attached]
  attached := by simp [blob, MessageOf.attached]

theorem conforms_report : report.Conforms (reportStore.registry ⟨0⟩) where
  slots := rfl
  cache := rfl
  unknownPlace := rfl
  known := rfl
  extensionPlace := rfl
  holds := by
    intro position field value declared held
    rcases position with _ | _ | _ | _ | position
    case succ.succ.succ.succ => simp [report, reportType, MessageType.fields] at declared
    all_goals
      cases declared
      cases held
    · rfl
    · exact ⟨rfl, BinaryFormat.finite_iff.2 (by decide)⟩
    · exact ⟨[], rfl, by simp⟩
    · exact ⟨rfl, rfl⟩
  present := by
    intro position field declared held
    rcases position with _ | _ | _ | _ | position
    case succ.succ.succ.succ => simp [report, reportType, MessageType.fields] at declared
    all_goals cases held
  exclusive := MessageOf.exclusive_of_plain (by decide)
  distinct := by simp [report, MessageOf.attached]
  attached := by
    intro entry mem
    rw [List.mem_singleton.1 mem]
    exact ⟨List.mem_cons_self, rfl, rfl, rfl⟩

theorem throughout_conforms_report :
    report.Throughout (MessageOf.Conforms (reportStore.registry ⟨0⟩)) := by
  refine .intro conforms_report fun inner mem => ?_
  have only : inner = blob := by
    simpa [report, MessageOf.children, MessageOf.values, MessageOf.attached, Value.messages,
      itemsMessages] using mem
  subst only
  refine .intro conforms_blob ?_
  simp [blob, MessageOf.children, MessageOf.values, MessageOf.attached, Value.messages]

theorem Registry.readMessage_toJson_report :
    ∃ after, (reportStore.registry ⟨0⟩).readMessage reportType report.toJson = .ok after ∧
      after.eq report = true ∧ after.content = report.content := by
  have mem : report.type ∈ (reportStore.registry ⟨0⟩).types :=
    List.mem_cons_of_mem _ List.mem_cons_self
  obtain ⟨table, built⟩ : ∃ table, (reportStore.registry ⟨0⟩).tableOf report.type = .ok table :=
    ⟨_, rfl⟩
  exact Registry.readMessage_toJson reachable_reportStore legible_reportStore mem built
    throughout_conforms_report

end ProtoWire
