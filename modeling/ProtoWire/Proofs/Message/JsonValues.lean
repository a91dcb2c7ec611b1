import ProtoWire.Message.Json
import ProtoWire.Proofs.Message.Conforming

/-!
# Values as JSON

A value that fits the declaration of its field reads back from its JSON form, bit for bit, if the
messages in it do (`FieldDescriptor.readValue_toJson`). The value decides what is written, the
declaration how it is read: as both are of one kind, no integer is out of bounds, no number is
rounded and no text is anything else than hexadecimal.
-/

set_option autoImplicit false

namespace ProtoWire

theorem itemsToJson_eq (items : List Value) : itemsToJson items = items.map Value.toJson := by
  induction items with
  | nil => rfl
  | cons item items ih => rw [itemsToJson, ih, List.map_cons]

theorem slotsToJson_eq (slots : List (Option Value)) :
    slotsToJson slots = slots.map (·.map Value.toJson) := by
  induction slots with
  | nil => rfl
  | cons slot slots ih =>
      rw [slotsToJson, ih, List.map_cons]
      cases slot <;> rfl

/-- An extension is a member under its name in brackets. -/
theorem attachedToJson_eq (entries : List Attached) :
    attachedToJson entries =
      entries.map fun entry => ("[" ++ entry.type.fullName ++ "]", entry.value.toJson) := by
  induction entries with
  | nil => rfl
  | cons entry entries ih =>
      rw [attachedToJson, ih, List.map_cons, entryToJson]

/-! ## Numbers -/

/-- Words read back from integers. -/
theorem UInt32.ofInt_toNat (value : UInt32) : UInt32.ofInt value.toNat = value := by
  have small := value.toNat_lt
  apply UInt32.toNat_inj.1
  simp only [UInt32.ofInt, UInt32.toNat_ofNat']
  omega

theorem UInt64.ofInt_toNat (value : UInt64) : UInt64.ofInt value.toNat = value := by
  have small := value.toNat_lt
  apply UInt64.toNat_inj.1
  simp only [UInt64.ofInt, UInt64.toNat_ofNat']
  omega

/-- Finite numbers have a form of their own; others are null. -/
theorem Json.ofDouble_of_finite {bits : UInt64} (finite : BinaryFormat.double.Finite bits.toNat) :
    Json.ofDouble bits = .float bits :=
  if_pos finite

/-- A finite number of 32 bits is widened to a finite one of 64 bits, and is the same again after
that is narrowed. -/
theorem finite_widen {bits : UInt32} (finite : BinaryFormat.single.Finite bits.toNat) :
    BinaryFormat.double.Finite
        (UInt64.ofNat (BinaryFormat.convert .single .double bits.toNat)).toNat ∧
      UInt32.ofNat (BinaryFormat.convert .double .single
        (UInt64.ofNat (BinaryFormat.convert .single .double bits.toNat)).toNat) = bits := by
  have small : bits.toNat < 2 * BinaryFormat.single.signBit := bits.toNat_lt
  obtain ⟨wide, back⟩ := BinaryFormat.convert_convert BinaryFormat.widens_single_double small finite
  have wide' : BinaryFormat.convert .single .double bits.toNat < 2 ^ 64 := wide
  rw [UInt64.toNat_ofNat', Nat.mod_eq_of_lt wide', back, UInt32.ofNat_toNat]
  exact ⟨BinaryFormat.finite_convert BinaryFormat.widens_single_double finite, rfl⟩

/-! ## Fields -/

/-- The message reads back from its JSON form as a message of the same content. -/
def MessageOf.ReadsBack (read : MessageType → Json → Except Unfit Message) (message : Message) :
    Prop :=
  ∃ after, read message.type message.toJson = .ok after ∧ after.content = message.content

namespace FieldDescriptor

variable {registry : Registry} {field : FieldDescriptor}

/-- An integer between the bounds is taken as it is. -/
theorem readInteger_of_le {low high value : Int} (bounds : low ≤ value ∧ value ≤ high) :
    field.readInteger low high (.int value) = .ok value := by
  rw [readInteger, Json.toInteger?, if_pos bounds]

theorem readInt32_toInt (value : Int32) : field.readInt32 (.int value.toInt) = .ok value := by
  have low := value.le_toInt
  have high := value.toInt_lt
  rw [readInt32, readInteger_of_le (by omega)]
  exact congrArg Except.ok (Int32.ofInt_toInt value)

theorem readInt64_toInt (value : Int64) : field.readInt64 (.int value.toInt) = .ok value := by
  have low := value.le_toInt
  have high := value.toInt_lt
  rw [readInt64, readInteger_of_le (by omega)]
  exact congrArg Except.ok (Int64.ofInt_toInt value)

theorem readUInt32_toNat (value : UInt32) : field.readUInt32 (.int value.toNat) = .ok value := by
  have high := value.toNat_lt
  rw [readUInt32, readInteger_of_le (by omega)]
  exact congrArg Except.ok (UInt32.ofInt_toNat value)

theorem readUInt64_toNat (value : UInt64) : field.readUInt64 (.int value.toNat) = .ok value := by
  have high := value.toNat_lt
  rw [readUInt64, readInteger_of_le (by omega)]
  exact congrArg Except.ok (UInt64.ofInt_toNat value)

/-! ## Values -/

variable {read : MessageType → Json → Except Unfit Message}

/-- A message is read as one of the type that the registry finds for the field. -/
theorem readSingle_of_isMessage (isMessage : field.kind.isMessage = true) {type : MessageType}
    (found : registry.type? (field.messageType.getD "") = some type) (json : Json) :
    field.readSingle read registry json = (read type json).map Value.message := by
  cases kind : field.kind with
  | message | group =>
      simp only [readSingle, kind, found]
      cases read type json <;> rfl
  | _ => simp [kind, Kind.isMessage] at isMessage

/-- A scalar reads back as itself. -/
theorem readSingle_scalar {value : Value} (holds : field.HoldsOne registry value)
    (scalar : field.kind.isMessage = false) :
    field.readSingle read registry value.toJson = .ok value := by
  cases value with
  | message => simp [holds.1] at scalar
  | single bits =>
      obtain ⟨wide, back⟩ := finite_widen holds.2
      simp only [readSingle, holds.1, Value.toJson, singleToJson, Json.ofDouble_of_finite wide]
      exact congrArg (fun bits => Except.ok (Value.single bits)) back
  | double bits =>
      simp only [readSingle, holds.1, Value.toJson, Json.ofDouble_of_finite holds.2]
      rfl
  | list items => exact absurd rfl (holds.ne_list items)
  | bytes content =>
      cases kind : field.kind <;> simp [HoldsOne, kind, Kind.payload?] at holds
      simp only [readSingle, kind, Value.toJson, Bytes.ofHex_toHex]
      rfl
  | _ =>
      -- the kinds of each variant are read as that variant
      cases kind : field.kind <;> simp [HoldsOne, kind, Kind.payload?] at holds <;>
        simp only [readSingle, kind, Value.toJson, readInt32_toInt, readInt64_toInt,
          readUInt32_toNat, readUInt64_toNat] <;> rfl

/-- A single value reads back if the message in it does. -/
theorem readSingle_toJson {value : Value} (holds : field.HoldsOne registry value)
    (nested : ∀ inner ∈ value.messages, inner.ReadsBack read) :
    ∃ after, field.readSingle read registry value.toJson = .ok after ∧
      after.mapMessage MessageOf.content = value.mapMessage MessageOf.content := by
  cases isMessage : field.kind.isMessage with
  | true =>
      obtain ⟨inner, rfl⟩ := holds.eq_message isMessage
      obtain ⟨after, reads, same⟩ := nested inner (by simp)
      refine ⟨.message after, ?_, by rw [Value.mapMessage, Value.mapMessage, same]⟩
      rw [readSingle_of_isMessage isMessage holds.2]
      exact congrArg (Except.map Value.message) reads
  | false => exact ⟨value, readSingle_scalar holds isMessage, rfl⟩

/-- A list is read back item by item. -/
theorem mapM_readSingle {items : List Value} (holds : ∀ item ∈ items, field.HoldsOne registry item)
    (nested : ∀ item ∈ items, ∀ inner ∈ item.messages, inner.ReadsBack read) :
    ∃ after, (items.map Value.toJson).mapM (field.readSingle read registry) = .ok after ∧
      after.map (Value.mapMessage MessageOf.content) =
        items.map (Value.mapMessage MessageOf.content) := by
  induction items with
  | nil => exact ⟨[], rfl, rfl⟩
  | cons item items ih =>
      obtain ⟨first, reads, same⟩ := readSingle_toJson (holds item List.mem_cons_self)
        (nested item List.mem_cons_self)
      obtain ⟨rest, reads', same'⟩ := ih
        (fun item mem => holds item (List.mem_cons_of_mem _ mem))
        (fun item mem => nested item (List.mem_cons_of_mem _ mem))
      refine ⟨first :: rest, ?_, ?_⟩
      · rw [List.map_cons, List.mapM_cons, reads, reads']
        rfl
      · rw [List.map_cons, List.map_cons, same, same']

/-- A value of a field reads back if the messages in it do. -/
theorem readValue_toJson {value : Value} (holds : field.Holds registry value)
    (nested : ∀ inner ∈ value.messages, inner.ReadsBack read) :
    ∃ after, field.readValue read registry value.toJson = .ok after ∧
      after.mapMessages MessageOf.content = value.mapMessages MessageOf.content := by
  rw [Holds] at holds
  cases repeated : field.isRepeated with
  | true =>
      rw [repeated, if_pos rfl] at holds
      obtain ⟨items, rfl, fits⟩ := holds
      obtain ⟨after, reads, same⟩ := mapM_readSingle fits fun item mem inner inside =>
        nested inner (Value.mem_messages_of_mem_items mem inside)
      refine ⟨.list after, ?_, by rw [Value.mapMessages, Value.mapMessages, same]⟩
      have array : (Value.list items).toJson = .array (items.map Value.toJson) := by
        rw [Value.toJson, itemsToJson_eq]
      rw [array, readValue, repeated]
      simp only [reads]
      rfl
  | false =>
      rw [repeated, if_neg Bool.false_ne_true] at holds
      obtain ⟨after, reads, same⟩ := readSingle_toJson holds nested
      refine ⟨after, ?_, Value.mapMessages_eq_of_mapMessage same⟩
      simp only [readValue, repeated, reads]
      rfl

end FieldDescriptor

end ProtoWire
