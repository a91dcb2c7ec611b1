import ProtoWire.Proofs.Message.Canonical

/-!
# Changes that keep messages well typed

A new message is well typed (`typed_newMessage`), and a message stays so when a field is set to
a value that fits (`Typed.putField`), when an extension with a value that fits is attached
(`Typed.attach`), and when a record that no field or extension takes is kept
(`Typed.keepUnknown`).
-/

set_option autoImplicit false

namespace ProtoWire

namespace MessageOf

variable {store : Store} {table : FieldTable} {assertion : Message → Prop} {depth : Nat}
  {message : Message}

/-- Members of oneofs may be absent. -/
theorem mayBeAbsent_of_areSiblings {type : MessageType} {position other : Nat}
    (siblings : type.areSiblings position other = true) {field : FieldDescriptor}
    (declared : type.fields[position]? = some field) :
    field.mayBeAbsent type.descriptor.generation = true := by
  cases implicit : field.mayBeAbsent type.descriptor.generation with
  | true => rfl
  | false =>
      rw [areSiblings_of_implicit declared implicit other] at siblings
      simp at siblings

/-- Fields without presence have a zero. -/
theorem isSome_zero? {generation : Generation} {field : FieldDescriptor}
    (implicit : field.mayBeAbsent generation = false) :
    (Value.zero? field.kind).isSome = true := by
  rw [FieldDescriptor.mayBeAbsent, FieldDescriptor.hasPresence, Bool.or_eq_false_iff] at implicit
  obtain ⟨single, absent⟩ := implicit
  rw [single, Bool.not_false, Bool.true_and, Bool.or_eq_false_iff, Bool.or_eq_false_iff] at absent
  cases kind : field.kind <;> first | rfl | simp [kind, Kind.isMessage] at absent

theorem fits_zero {type : MessageType} {position : Nat} {field : FieldDescriptor}
    {valueType : Option MessageType} {value : Value}
    (implicit : field.mayBeAbsent type.descriptor.generation = false)
    (zero : Value.zero? field.kind = some value) :
    (FieldTable.entry type position field valueType).codec.Fits assertion value := by
  have single : field.isRepeated = false := by
    rw [FieldDescriptor.mayBeAbsent, Bool.or_eq_false_iff] at implicit
    exact implicit.1
  have arrangement : (FieldTable.entry type position field
      valueType).codec.arrangement.isRepeated = false :=
    (Arrangement.isRepeated_ofField _ _).trans single
  rw [FieldCodec.fits_iff_fitsOne arrangement]
  have kind : (FieldTable.entry type position field valueType).codec.kind = field.kind := rfl
  cases held : field.kind <;> rw [held] at zero <;> cases zero <;>
    simp [FieldCodec.FitsOne, kind, held, Kind.payload?]

/-- No member of a oneof is set at the start. -/
theorem slot?_newMessage_of_areSiblings {type : MessageType} {position other : Nat}
    (siblings : type.areSiblings position other = true) : type.newMessage.slot? other = none := by
  rw [MessageType.areSiblings_comm] at siblings
  cases slot : type.newMessage.slot? other with
  | none => rfl
  | some value =>
      obtain ⟨field, declared, initial⟩ := type.slot?_newMessage_cases slot
      rw [type.initialSlot_of_mayBeAbsent (mayBeAbsent_of_areSiblings siblings declared)] at initial
      simp at initial

/-- A new message is well typed. -/
theorem typed_newMessage {type : MessageType}
    (builds : (store.registry type.registry).Builds type table) :
    type.newMessage.Typed store.catalog table assertion depth := by
  refine ⟨?_, ?_, ?_, ?_, ?_, ?_, ?_, ?_, ?_, ?_⟩
  · simp [MessageType.newMessage]
  · rw [MessageType.type_newMessage, MessageType.newMessage]
    cases type.storage.sizeCache <;> rfl
  · rw [MessageType.newMessage]
    cases type.storage.unknownFields <;> rfl
  · rw [MessageType.newMessage]
    cases type.storage.extensions <;> rfl
  · intro entry mem value slot
    obtain ⟨field, valueType, declared, -, eq⟩ := builds.field_of_mem mem
    -- a place that is filled at the start is that of a field without presence
    rw [type.slot?_newMessage declared] at slot
    cases implicit : field.mayBeAbsent type.descriptor.generation with
    | true =>
        rw [type.initialSlot_of_mayBeAbsent implicit] at slot
        simp at slot
    | false =>
        rw [type.initialSlot_of_implicit implicit] at slot
        rw [eq]
        exact fits_zero implicit slot
  · intro entry mem implicit
    obtain ⟨field, valueType, declared, -, eq⟩ := builds.field_of_mem mem
    have implicit' : field.mayBeAbsent type.descriptor.generation = false := by
      rw [eq] at implicit
      exact implicit
    rw [type.slot?_newMessage declared, type.initialSlot_of_implicit implicit']
    exact isSome_zero? implicit'
  · exact fun position other siblings _ => slot?_newMessage_of_areSiblings siblings
  · simp
  · simp
  · refine ⟨[], ?_, by simp⟩
    rw [MessageType.newMessage]
    cases type.storage.unknownFields <;> rfl

/-- Setting a field to a value that fits. -/
theorem Typed.putField (builds : (store.registry message.type.registry).Builds message.type table)
    (typed : message.Typed store.catalog table assertion depth) {entry : FieldEntry}
    (mem : entry ∈ table.entries) {value : Value} (fits : entry.codec.Fits assertion value) :
    (message.putField entry.position value).Typed store.catalog table assertion depth := by
  obtain ⟨field, valueType, declared, -, eq⟩ := builds.field_of_mem mem
  have bound : entry.position < message.slots.length := by
    rw [typed.slots]
    exact (List.getElem?_eq_some_iff.1 declared).1
  have slots := slot?_putField message bound value
  refine ⟨?_, ?_, ?_, ?_, ?_, ?_, ?_, ?_, ?_, ?_⟩
  · simpa using typed.slots
  · simpa using typed.cache
  · simpa using typed.unknownPlace
  · simpa using typed.extensionPlace
  · intro other mem' value' slot
    rw [slots] at slot
    split at slot
    · next same =>
        cases slot
        -- no two fields have the same place
        rw [builds.eq_of_position_eq mem' mem same]
        exact fits
    · split at slot
      · simp at slot
      · exact typed.fits other mem' value' slot
  · intro other mem' implicit
    rw [slots]
    split
    · rfl
    · split
      · next siblings =>
          -- only siblings are cleared, and those may be absent
          obtain ⟨field', valueType', declared', -, eq'⟩ := builds.field_of_mem mem'
          rw [MessageType.areSiblings_comm] at siblings
          have absent := mayBeAbsent_of_areSiblings siblings declared'
          rw [eq'] at implicit
          exact absurd (absent.symm.trans implicit) (by simp)
      · exact typed.present other mem' implicit
  · intro position other siblings set
    rw [type_putField] at siblings
    rw [slots] at set ⊢
    -- of the two places one may be the one that was set
    by_cases here : position = entry.position
    · subst here
      rw [if_neg (MessageType.areSiblings_iff.1 siblings).1, if_pos siblings]
    · rw [if_neg here] at set
      by_cases there : other = entry.position
      · rw [there, MessageType.areSiblings_comm] at siblings
        simp [siblings] at set
      · rw [if_neg there]
        split at set
        · simp at set
        · split
          · rfl
          · exact typed.exclusive position other siblings set
  · simpa [MessageOf.attached] using typed.distinct
  · intro held listed
    rw [attached_putField] at listed
    rw [type_putField]
    exact typed.attached held listed
  · rw [unknown_putField, type_putField]
    exact typed.unknown

/-- Attaching an extension with a value that fits. -/
theorem Typed.attach (typed : message.Typed store.catalog table assertion depth)
    (place : message.extensions.isSome = true) {entry : Attached}
    (fits : FitsAttached store.catalog table assertion message.type entry) :
    (message.attach entry).Typed store.catalog table assertion depth := by
  refine ⟨typed.slots, typed.cache, typed.unknownPlace, ?_, typed.fits, typed.present,
    typed.exclusive, nodup_attach message typed.distinct entry, ?_, typed.unknown⟩
  · simpa [MessageOf.attach] using typed.extensionPlace
  · intro held listed
    rw [attached_attach message entry place] at listed
    rcases List.mem_append.1 listed with before | added
    · exact typed.attached held (List.mem_filter.1 before).1
    · rw [List.mem_singleton] at added
      exact added ▸ fits

/-- Keeping a record that no field or extension takes. -/
theorem Typed.keepUnknown (typed : message.Typed store.catalog table assertion depth)
    {record : Bytes} (keeps : store.catalog.KeepsRecord table message.type depth record) :
    (message.keepUnknown record).Typed store.catalog table assertion depth := by
  refine ⟨typed.slots, typed.cache, ?_, typed.extensionPlace, typed.fits, typed.present,
    typed.exclusive, typed.distinct, typed.attached, ?_⟩
  · simpa [MessageOf.keepUnknown] using typed.unknownPlace
  · obtain ⟨records, eq, kept⟩ := typed.unknown
    cases place : message.unknown with
    | none => exact ⟨[], by simp [MessageOf.keepUnknown, place], by simp⟩
    | some bytes =>
        rw [place, Option.getD_some] at eq
        refine ⟨records ++ [record], by simp [MessageOf.keepUnknown, place, eq], ?_⟩
        intro other mem
        rcases List.mem_append.1 mem with before | added
        · exact kept other before
        · rw [List.mem_singleton] at added
          exact added ▸ keeps

theorem Typed.clearCachedSize (typed : message.Typed store.catalog table assertion depth) :
    message.clearCachedSize.Typed store.catalog table assertion depth := by
  refine ⟨typed.slots, ?_, typed.unknownPlace, typed.extensionPlace, typed.fits, typed.present,
    typed.exclusive, typed.distinct, typed.attached, typed.unknown⟩
  exact message.cache.clear_clear.trans typed.cache

end MessageOf

end ProtoWire
