import ProtoWire.Proofs.Message.JsonAccepting

/-!
# Messages read from JSON and written again

A message that was read from JSON reads back from its own JSON form, with its content bit for bit,
if all its numbers of 32 bits are finite, at every depth. If one of them is not then its form is
`null`, which is no number, and the message does not read back
(`Registry.readsBack_iff_finiteSingles`). Reading does not keep such numbers out: a number of 64
bits that is too large is narrowed to infinity (`Registry.ratio_beyond_single`).
-/

set_option autoImplicit false

namespace ProtoWire

/-! ## Numbers that are not finite -/

theorem BinaryFormat.convert_of_not_finite {source target : BinaryFormat} {bits : Nat}
    (infinite : ¬ source.Finite bits) :
    convert source target bits =
      target.infinity + if source.signBit ≤ bits then target.signBit else 0 := by
  rw [convert]
  exact if_neg infinite

theorem Json.ofDouble_of_not_finite {bits : UInt64}
    (infinite : ¬ BinaryFormat.double.Finite bits.toNat) : Json.ofDouble bits = .null :=
  if_neg infinite

/-- A number of 32 bits that is not finite has no form of its own. -/
theorem singleToJson_of_not_finite {bits : UInt32}
    (infinite : ¬ BinaryFormat.single.Finite bits.toNat) : singleToJson bits = .null := by
  rw [singleToJson, BinaryFormat.convert_of_not_finite infinite]
  apply Json.ofDouble_of_not_finite
  split <;> exact (BinaryFormat.finite_iff.not.2 (by decide))

namespace Value

variable {read : MessageType → Json → Except Unfit Message}

/-- One value whose form does not read back. -/
def LostOne (read : MessageType → Json → Except Unfit Message) : Value → Prop
  | .single bits => ¬ BinaryFormat.single.Finite bits.toNat
  | .message inner => ∀ after, read inner.type inner.toJson ≠ .ok after
  | _ => False

/-- The value of a field, whose form does not read back. -/
def Lost (read : MessageType → Json → Except Unfit Message) (value : Value) : Prop :=
  value.LostOne read ∨ ∃ item ∈ value.items, item.LostOne read

end Value

/-! ## Values -/

namespace FieldDescriptor

variable {registry : Registry} {field : FieldDescriptor} {value : Value} {inner : Message}
  {read : MessageType → Json → Except Unfit Message}

theorem GivesOne.ne_list (gives : field.GivesOne registry value) (items : List Value) :
    value ≠ .list items := by
  rintro rfl
  have holds : field.HoldsOne registry (.list items) := gives
  exact holds.ne_list items rfl

/-- A message in one value is that value. -/
theorem GivesOne.of_mem_messages (gives : field.GivesOne registry value)
    (inside : inner ∈ value.messages) :
    value = .message inner ∧ field.kind.isMessage = true ∧
      registry.type? (field.messageType.getD "") = some inner.type := by
  cases value with
  | message held =>
      rw [Value.messages_message, List.mem_singleton] at inside
      subst inside
      exact ⟨rfl, gives⟩
  | list items => exact absurd rfl (gives.ne_list items)
  | _ => simp [Value.messages] at inside

theorem Gives.of_mem_messages (gives : field.Gives registry value)
    (inside : inner ∈ value.messages) :
    (value = .message inner ∨ .message inner ∈ value.items) ∧ field.kind.isMessage = true ∧
      registry.type? (field.messageType.getD "") = some inner.type := by
  rw [Gives] at gives
  split at gives
  · obtain ⟨items, rfl, each⟩ := gives
    rw [Value.messages_list] at inside
    obtain ⟨item, mem, inside⟩ := List.mem_flatMap.1 inside
    obtain ⟨rfl, declared⟩ := (each item mem).of_mem_messages inside
    exact ⟨.inr mem, declared⟩
  · obtain ⟨eq, declared⟩ := gives.of_mem_messages inside
    exact ⟨.inl eq, declared⟩

theorem readSingle_of_lostOne (gives : field.GivesOne registry value) (lost : value.LostOne read)
    (after : Value) : field.readSingle read registry value.toJson ≠ .ok after := by
  intro reads
  cases value with
  | single bits =>
      have kind : field.kind = .float := gives
      rw [Value.toJson, singleToJson_of_not_finite lost] at reads
      simp only [readSingle, kind] at reads
      cases reads
  | message inner =>
      have declared : field.HoldsOne registry (.message inner) := gives
      rw [Value.toJson, readSingle_of_isMessage declared.1 declared.2] at reads
      cases read' : read inner.type (messageToJson inner) with
      | error => rw [read'] at reads; cases reads
      | ok after => exact lost after read'
  | _ => exact lost

theorem mapM_readSingle_of_lostOne {items : List Value}
    (gives : ∀ item ∈ items, field.GivesOne registry item) {item : Value} (mem : item ∈ items)
    (lost : item.LostOne read) (after : List Value) :
    (items.map Value.toJson).mapM (field.readSingle read registry) ≠ .ok after := by
  intro reads
  induction items generalizing after with
  | nil => simp at mem
  | cons first items ih =>
      rw [List.forall_mem_cons] at gives
      rw [List.map_cons, List.mapM_cons] at reads
      obtain ⟨first', here, reads'⟩ := exists_of_bind_eq_ok reads
      obtain ⟨rest, behind, -⟩ := exists_of_bind_eq_ok reads'
      rcases List.mem_cons.1 mem with rfl | later
      · exact readSingle_of_lostOne gives.1 lost first' here
      · exact ih gives.2 later rest behind

/-- A value that is lost makes reading fail. -/
theorem readValue_of_lost (gives : field.Gives registry value) (lost : value.Lost read)
    (after : Value) : field.readValue read registry value.toJson ≠ .ok after := by
  rw [Gives] at gives
  cases repeated : field.isRepeated with
  | false =>
      rw [repeated, if_neg Bool.false_ne_true] at gives
      simp only [readValue, repeated, Bool.not_false, if_true]
      rcases lost with here | ⟨item, mem, -⟩
      · exact readSingle_of_lostOne gives here after
      · cases value with
        | list items => exact absurd rfl (gives.ne_list items)
        | _ => simp [Value.items] at mem
  | true =>
      rw [repeated, if_pos rfl] at gives
      obtain ⟨items, rfl, each⟩ := gives
      rcases lost with here | ⟨item, mem, lost⟩
      · exact here.elim
      · intro reads
        rw [Value.toJson, itemsToJson_eq] at reads
        simp only [readValue, repeated, Bool.not_true, Bool.false_eq_true, if_false] at reads
        obtain ⟨values, reads', -⟩ := exists_of_bind_eq_ok reads
        exact mapM_readSingle_of_lostOne each mem lost values reads'

end FieldDescriptor

/-! ## Messages -/

namespace MessageOf

variable {registry : Registry} {message after : Message}
  {read : MessageType → Json → Except Unfit Message}

/-- The numbers of 32 bits in the fields and extensions of a message are finite. -/
def FiniteSingles (message : Message) : Prop :=
  ∀ value ∈ message.values, value.FiniteSingles

theorem type_of_readMember {key : String} {json : Json} (sound : registry.Sound)
    (reads : registry.readMember read message key json = .ok after) :
    after.type = message.type := by
  rcases cases_of_readMember sound reads with ⟨_, -, _, -, set⟩ | ⟨_, -, _, -, set⟩
  · obtain ⟨position, rfl⟩ := eq_putField_of_set set
    exact type_putField ..
  · obtain ⟨rfl, -⟩ := of_setExtension set
    rfl

/-- One member that cannot be read is enough for reading to fail. -/
theorem readMembers_ne_ok {members : List (String × Json)} (sound : registry.Sound)
    {member : String × Json} (mem : member ∈ members)
    (fails : ∀ other : Message, other.type = message.type → ∀ after,
      registry.readMember read other member.1 member.2 ≠ .ok after) (after : Message) :
    members.foldlM
      (fun message member => registry.readMember read message member.1 member.2) message ≠
        .ok after := by
  intro reads
  induction members generalizing message with
  | nil => simp at mem
  | cons first members ih =>
      rw [List.foldlM_cons] at reads
      obtain ⟨next, here, behind⟩ := exists_of_bind_eq_ok reads
      rcases List.mem_cons.1 mem with rfl | later
      · exact fails message rfl next here
      · refine ih later (fun other type => ?_) behind
        exact fails other (type.trans (type_of_readMember sound here))

theorem readMember_field_ne_ok (legible : message.type.Legible) {field : FieldDescriptor}
    (mem : field ∈ message.type.fields) {json : Json}
    (fails : ∀ value, field.readValue read registry json ≠ .ok value) (after : Message) :
    registry.readMember read message field.name json ≠ .ok after := by
  intro reads
  have found : message.type.fields.find? (fun other => other.name == field.name) = some field :=
    (find?_key_eq_some_iff legible.distinct).2 ⟨mem, rfl⟩
  rw [Registry.readMember, legible.plain field mem] at reads
  simp only [found] at reads
  obtain ⟨value, reads', -⟩ := exists_of_bind_eq_ok reads
  exact fails value (mapError_eq_ok_iff.1 reads')

theorem readMember_extension_ne_ok (sound : registry.Sound) {extension : ExtensionType}
    (registered : extension ∈ registry.extensions) {json : Json}
    (fails : ∀ value, extension.descriptor.field.readValue read registry json ≠ .ok value)
    (after : Message) :
    registry.readMember read message extension.memberName json ≠ .ok after := by
  intro reads
  rw [Registry.readMember, bracketed?_memberName] at reads
  simp only [sound.extensionNamed _ registered] at reads
  obtain ⟨value, reads', -⟩ := exists_of_bind_eq_ok reads
  exact fails value reads'

/-- The values of a composed message are those of its fields and extensions. -/
theorem Composed.cases_values (composed : message.Composed registry) {value : Value}
    (held : value ∈ message.values) :
    (∃ position field, message.type.fields[position]? = some field ∧
      message.slot? position = some value ∧ field.Gives registry value) ∨
    ∃ entry ∈ message.attached, entry.value = value ∧ entry.type ∈ registry.extensions ∧
      entry.type.descriptor.field.Gives registry value := by
  rcases mem_values_iff.1 held with ⟨position, slot⟩ | ⟨entry, listed, rfl⟩
  · have bound := lt_length_of_slot? slot
    rw [composed.slots] at bound
    have declared := List.getElem?_eq_getElem bound
    exact .inl ⟨position, _, declared, slot, composed.gives position _ value declared slot⟩
  · obtain ⟨registered, -, -, gives⟩ := composed.attached entry listed
    exact .inr ⟨entry, listed, rfl, registered, gives⟩

/-- A message with a value that is lost does not read back. -/
theorem Composed.ne_ok_of_lost (composed : message.Composed registry) (sound : registry.Sound)
    (legible : message.type.Legible) (numbers : (message.type.fields.map (·.number)).Nodup)
    {depth : Nat} {value : Value} (held : value ∈ message.values)
    (lost : value.Lost (registry.readMessageAt depth)) (after : Message) :
    registry.readMessageAt (depth + 1) message.type message.toJson ≠ .ok after := by
  have distinct := nodup_members sound (fun entry mem => (composed.attached entry mem).1)
    composed.distinct legible
  have sorted := Json.perm_sortMembers distinct
  rw [toJson_eq composed.known]
  rcases composed.cases_values held with
    ⟨position, field, declared, slot, gives⟩ | ⟨entry, listed, rfl, registered, gives⟩
  · have mem : (field.name, value.toJson) ∈ message.members :=
      (mem_members_iff numbers).2 (.inl ⟨position, field, value, declared, slot, rfl⟩)
    refine readMembers_ne_ok sound (sorted.mem_iff.2 mem) (fun other type => ?_) after
    have type' : other.type = message.type := type
    refine readMember_field_ne_ok (type' ▸ legible) ?_
      (FieldDescriptor.readValue_of_lost gives lost)
    rw [type']
    exact List.mem_of_getElem? declared
  · have mem : (entry.type.memberName, entry.value.toJson) ∈ message.members :=
      (mem_members_iff numbers).2 (.inr ⟨entry, listed, rfl⟩)
    exact readMembers_ne_ok sound (sorted.mem_iff.2 mem) (fun other _ =>
      readMember_extension_ne_ok sound registered
        (FieldDescriptor.readValue_of_lost gives lost)) after

/-- The messages inside a composed message are values of it or items of such, and of whole
types. -/
theorem Composed.exists_value (composed : message.Composed registry) (sound : registry.Sound)
    (vouched : registry.Vouched) (whole : registry.Whole message.type) {inner : Message}
    (mem : inner ∈ message.children) :
    (∃ value ∈ message.values, value = .message inner ∨ .message inner ∈ value.items) ∧
      inner.type ∈ registry.types ∧ registry.Whole inner.type := by
  obtain ⟨value, held, inside⟩ := List.mem_flatMap.1 mem
  rcases composed.cases_values held with
    ⟨position, field, declared, -, gives⟩ | ⟨entry, -, -, registered, gives⟩
  · obtain ⟨place, isMessage, found⟩ := gives.of_mem_messages inside
    exact ⟨⟨value, held, place⟩, whole.of_field declared isMessage found⟩
  · obtain ⟨place, isMessage, found⟩ := gives.of_mem_messages inside
    exact ⟨⟨value, held, place⟩, vouched.whole_of_extension sound registered isMessage found⟩

/-- A composed message with an infinite number at any depth does not read back. -/
theorem ne_ok_of_infinite (sound : registry.Sound) (vouched : registry.Vouched)
    (legible : ∀ type ∈ registry.types, type.Legible) (message : Message)
    (composed : message.Throughout (Composed registry)) (mem : message.type ∈ registry.types)
    (whole : registry.Whole message.type) (infinite : ¬ message.Throughout FiniteSingles)
    (depth : Nat) (after : Message) :
    registry.readMessageAt depth message.type message.toJson ≠ .ok after := by
  induction message using MessageOf.induction generalizing depth after with
  | step message ih =>
      have here := composed.here
      cases depth with
      | zero => exact fun reads => by cases reads
      | succ depth =>
          have lost : ∃ value ∈ message.values, value.Lost (registry.readMessageAt depth) := by
            rw [throughout_iff, not_and_or] at infinite
            rcases infinite with infinite | infinite
            · rw [FiniteSingles] at infinite
              push Not at infinite
              obtain ⟨value, held, infinite⟩ := infinite
              rw [Value.FiniteSingles] at infinite
              push Not at infinite
              obtain ⟨bits, rfl | mem, infinite⟩ := infinite
              · exact ⟨_, held, .inl infinite⟩
              · exact ⟨value, held, .inr ⟨_, mem, infinite⟩⟩
            · push Not at infinite
              obtain ⟨inner, inside, infinite⟩ := infinite
              obtain ⟨⟨value, held, place⟩, mem', whole'⟩ :=
                here.exists_value sound vouched whole inside
              have lost : (Value.message inner).LostOne (registry.readMessageAt depth) :=
                ih inner inside (composed.of_mem inside) mem' whole' infinite depth
              rcases place with rfl | item
              · exact ⟨_, held, .inl lost⟩
              · exact ⟨value, held, .inr ⟨_, item, lost⟩⟩
          obtain ⟨value, held, lost⟩ := lost
          exact here.ne_ok_of_lost sound (legible _ mem) (whole _ .refl).nodup_numbers held lost
            after

end MessageOf

open MessageOf (Composed FiniteSingles)

/-- A message that was read with an infinite number at any depth does not read back. -/
theorem Registry.readMessage_toJson_ne_ok {registry : Registry} (sound : registry.Sound)
    (vouched : registry.Vouched) (legible : ∀ type ∈ registry.types, type.Legible)
    {type : MessageType} (mem : type ∈ registry.types) (whole : registry.Whole type) {json : Json}
    (representable : json.Representable) {message : Message}
    (accepted : registry.readMessage type json = .ok message)
    (infinite : ¬ message.Throughout FiniteSingles) (after : Message) :
    registry.readMessage type message.toJson ≠ .ok after := by
  obtain ⟨rfl, composed⟩ := composes_readMessageAt sound vouched json.depth type json message mem
    whole representable accepted
  exact MessageOf.ne_ok_of_infinite sound vouched legible message composed mem whole infinite _
    after

/-- In every registry in which the fields of types have different names without brackets, whatever
JSON value is read as a message of a type with a table: the message reads back from its own JSON
form, as one that is equal to it and has the same content, bit for bit, just if its numbers of
32 bits are finite at every depth. -/
theorem Registry.readsBack_iff_finiteSingles {store : Store} (reachable : store.Reachable)
    {id : RegistryId} (legible : ∀ type ∈ (store.registry id).types, type.Legible)
    {type : MessageType} (mem : type ∈ (store.registry id).types) {table : FieldTable}
    (built : (store.registry id).tableOf type = .ok table) {json : Json}
    (representable : json.Representable) {message : Message}
    (accepted : (store.registry id).readMessage type json = .ok message) :
    (∃ after, (store.registry id).readMessage type message.toJson = .ok after ∧
        after.eq message = true ∧ after.content = message.content) ↔
      message.Throughout FiniteSingles := by
  have sound := reachable.sound.registry id
  have vouched := reachable.vouched id
  have whole := vouched.whole_of_tableOf sound mem built
  constructor
  · rintro ⟨after, reads, -⟩
    by_contra infinite
    exact Registry.readMessage_toJson_ne_ok sound vouched legible mem whole representable accepted
      infinite after reads
  · intro finite
    obtain ⟨rfl, composed⟩ := Registry.composes_readMessageAt sound vouched json.depth type json
      message mem whole representable accepted
    have conforms : message.Throughout (MessageOf.Conforms (store.registry id)) :=
      (composed.and finite).mono fun inner h => h.1.conforms h.2
    obtain ⟨after, reads, same⟩ :=
      MessageOf.readsBack sound vouched legible message conforms mem whole (Nat.le_refl _)
    exact ⟨after, reads, MessageOf.eq_of_content conforms same, same⟩

/-! ## Reports -/

/-- The members of a report without its ratio. -/
def reportMembers : List (String × Json) :=
  [("[a.flag]", .bool true), ("blob", .object [("data", .string "00FF")]),
    ("id", .int 18446744073709551615)]

/-- A report whose ratio is given by the bits of binary64. -/
def reportJson (ratio : UInt64) : Json :=
  .object (reportMembers ++ [("ratio", .float ratio)])

/-- The report without its ratio. -/
def reportWithout : Message :=
  ⟨reportType, [some (.uint64 18446744073709551615), none, none, some (.message blob)], .empty,
    some [], some [⟨flagType, .bool true⟩]⟩

/-- A number of 64 bits in 32 bits. -/
def narrowed (bits : UInt64) : UInt32 :=
  UInt32.ofNat (BinaryFormat.convert .double .single bits.toNat)

theorem readMember_ratio (read : MessageType → Json → Except Unfit Message) (ratio : UInt64) :
    (reportStore.registry ⟨0⟩).readMember read reportWithout "ratio" (.float ratio) =
      .ok (reportWithout.putField 1 (.single (narrowed ratio))) :=
  rfl

theorem readMessage_reportJson (ratio : UInt64) :
    (reportStore.registry ⟨0⟩).readMessage reportType (reportJson ratio) =
      .ok (reportWithout.putField 1 (.single (narrowed ratio))) := by
  let read (message : Message) (member : String × Json) : Except Unfit Message :=
    (reportStore.registry ⟨0⟩).readMember ((reportStore.registry ⟨0⟩).readMessageAt 1) message
      member.1 member.2
  have before : reportMembers.foldlM read reportType.newMessage = .ok reportWithout := rfl
  calc (reportStore.registry ⟨0⟩).readMessage reportType (reportJson ratio)
    _ = (reportMembers ++ [("ratio", Json.float ratio)]).foldlM read reportType.newMessage := rfl
    _ = (read reportWithout ("ratio", .float ratio) >>= pure) := by
        rw [List.foldlM_append, before]
        rfl
    _ = .ok (reportWithout.putField 1 (.single (narrowed ratio))) := by
        rw [show read reportWithout ("ratio", .float ratio) = _ from readMember_ratio _ ratio]
        rfl

theorem representable_reportJson {ratio : UInt64}
    (finite : BinaryFormat.double.Finite ratio.toNat) : (reportJson ratio).Representable := by
  have data : ∀ member ∈ [("data", Json.string "00FF")], member.2.Representable := by
    simp [Json.Representable.string]
  refine .object ?_
  simp only [reportMembers, List.cons_append, List.nil_append, List.forall_mem_cons]
  exact ⟨.bool true, .object data, .int (by decide) (by decide), .float finite, by simp⟩

/-- A ratio of one half is the same in 32 bits. -/
theorem narrowed_half : narrowed 4602678819172646912 = 1056964608 := by
  decide +kernel

/-- Ten to the power of 39 is infinite in 32 bits. -/
theorem narrowed_beyond : narrowed 5190260616003865117 = 2139095040 := by
  decide +kernel

theorem finiteSingles_report {ratio : UInt32} (finite : BinaryFormat.single.Finite ratio.toNat) :
    (reportWithout.putField 1 (.single ratio)).Throughout FiniteSingles := by
  have values : (reportWithout.putField 1 (.single ratio)).values =
      [.uint64 18446744073709551615, .single ratio, .message blob, .bool true] := rfl
  have children : (reportWithout.putField 1 (.single ratio)).children = [blob] := rfl
  have inside : blob.values = [.bytes [0, 255]] ∧ blob.children = [] := ⟨rfl, rfl⟩
  refine .intro ?_ ?_
  · rw [FiniteSingles, values]
    simpa [Value.FiniteSingles, Value.items] using finite
  · rw [children, List.forall_mem_singleton]
    refine .intro ?_ (by simp [inside.2])
    rw [FiniteSingles, inside.1]
    simp [Value.FiniteSingles, Value.items]

theorem built_reportType : ∃ table, (reportStore.registry ⟨0⟩).tableOf reportType = .ok table :=
  ⟨_, rfl⟩

/-- A report with a ratio of one half is read, and reads back from its own JSON form. -/
theorem Registry.readsBack_report :
    (reportJson 4602678819172646912).Representable ∧
      (reportStore.registry ⟨0⟩).readMessage reportType (reportJson 4602678819172646912) =
        .ok (reportWithout.putField 1 (.single 1056964608)) ∧
      ∃ after, (reportStore.registry ⟨0⟩).readMessage reportType
          (reportWithout.putField 1 (.single 1056964608)).toJson = .ok after ∧
        after.eq (reportWithout.putField 1 (.single 1056964608)) = true ∧
        after.content = (reportWithout.putField 1 (.single 1056964608)).content := by
  have representable : (reportJson 4602678819172646912).Representable :=
    representable_reportJson (BinaryFormat.finite_iff.2 (by decide))
  have accepted := readMessage_reportJson 4602678819172646912
  rw [narrowed_half] at accepted
  have mem : reportType ∈ (reportStore.registry ⟨0⟩).types :=
    List.mem_cons_of_mem _ List.mem_cons_self
  obtain ⟨table, built⟩ := built_reportType
  have half : BinaryFormat.single.Finite (1056964608 : UInt32).toNat :=
    BinaryFormat.finite_iff.2 (by decide)
  exact ⟨representable, accepted, (Registry.readsBack_iff_finiteSingles reachable_reportStore
    legible_reportStore mem built representable accepted).2 (finiteSingles_report half)⟩

/-- A report with a ratio of ten to the power of 39 is read, and does not read back from its own
JSON form. -/
theorem Registry.ratio_beyond_single :
    reportStore.Reachable ∧ (∀ type ∈ (reportStore.registry ⟨0⟩).types, type.Legible) ∧
      reportType ∈ (reportStore.registry ⟨0⟩).types ∧
      (∃ table, (reportStore.registry ⟨0⟩).tableOf reportType = .ok table) ∧
      (reportJson 5190260616003865117).Representable ∧
      (reportStore.registry ⟨0⟩).readMessage reportType (reportJson 5190260616003865117) =
        .ok (reportWithout.putField 1 (.single 2139095040)) ∧
      ∀ after, (reportStore.registry ⟨0⟩).readMessage reportType
        (reportWithout.putField 1 (.single 2139095040)).toJson ≠ .ok after := by
  have representable : (reportJson 5190260616003865117).Representable :=
    representable_reportJson (BinaryFormat.finite_iff.2 (by decide))
  have accepted := readMessage_reportJson 5190260616003865117
  rw [narrowed_beyond] at accepted
  have mem : reportType ∈ (reportStore.registry ⟨0⟩).types :=
    List.mem_cons_of_mem _ List.mem_cons_self
  refine ⟨reachable_reportStore, legible_reportStore, mem, built_reportType, representable,
    accepted, ?_⟩
  obtain ⟨table, built⟩ := built_reportType
  have sound := reachable_reportStore.sound.registry ⟨0⟩
  have vouched := reachable_reportStore.vouched ⟨0⟩
  have whole := vouched.whole_of_tableOf sound mem built
  have infinite : ¬ (reportWithout.putField 1 (.single 2139095040)).Throughout FiniteSingles := by
    intro finite
    have held : Value.single 2139095040 ∈
        (reportWithout.putField 1 (.single 2139095040)).values :=
      List.mem_cons_of_mem _ List.mem_cons_self
    have ratio := BinaryFormat.finite_iff.1 (finite.here _ held 2139095040 (.inl rfl))
    exact absurd ratio (by decide)
  exact Registry.readMessage_toJson_ne_ok sound vouched legible_reportStore mem whole representable
    accepted infinite

end ProtoWire
