import ProtoWire.Proofs.Message.Scalar

/-!
# Words of scalars

The payload of each scalar is said here kind by kind in terms of machine words (`Kind.Carries`):
signed numbers are extended by their sign, or shifted and folded by it, and all other numbers are
their own words. The other way, words are cut to their kinds, or unfolded by their last bit
(`Kind.Decodes`). The arithmetic `zigzag` and `unzigzag` are the fold by shifts and the unfolding by
a mask, at every width (`toNat_shiftLeft_xor`, `toInt_ushiftRight_xor`).

Main statement: each codec is inverted by its reader in front of any bytes and writes as many
bytes as it says, and so does the codec of tags (`scalars_and_tags_read_back`).
-/

set_option autoImplicit false

namespace ProtoWire

/-! ## Folding by shifts -/

/-- A number that is not negative has no bit left when it is shifted down to its sign. -/
theorem sshiftRight_of_msb_false {width : Nat} {x : BitVec (width + 1)} (h : x.msb = false) :
    x.sshiftRight width = 0#(width + 1) := by
  have small : x.toNat < 2 ^ width := by
    have signed := x.msb_eq_decide
    rw [h, Nat.add_sub_cancel] at signed
    have := of_decide_eq_false signed.symm
    omega
  rw [BitVec.sshiftRight_eq_of_msb_false h]
  apply BitVec.eq_of_toNat_eq
  rw [BitVec.toNat_ushiftRight, Nat.shiftRight_eq_div_pow, Nat.div_eq_of_lt small,
    BitVec.toNat_ofNat, Nat.zero_mod]

/-- A negative number is all ones when it is shifted down to its sign. -/
theorem sshiftRight_of_msb_true {width : Nat} {x : BitVec (width + 1)} (h : x.msb = true) :
    x.sshiftRight width = BitVec.allOnes (width + 1) := by
  have complement : (~~~x).msb = false := by
    rw [BitVec.msb_not, h]
    simp
  have zero := sshiftRight_of_msb_false complement
  rw [BitVec.sshiftRight_eq_of_msb_false complement] at zero
  rw [BitVec.sshiftRight_eq_of_msb_true h, zero, BitVec.not_zero]

/-- Shifting a number up and flipping the result by the sign folds it. -/
theorem toNat_shiftLeft_xor {width : Nat} (x : BitVec (width + 1)) :
    ((x <<< 1) ^^^ x.sshiftRight width).toNat = zigzag x.toInt := by
  have bound := x.isLt
  have double : 2 ^ (width + 1) = 2 * 2 ^ width := by rw [Nat.pow_succ, Nat.mul_comm]
  have signed := x.msb_eq_decide
  rw [Nat.add_sub_cancel] at signed
  cases sign : x.msb with
  | false =>
      have small : ¬ 2 ^ width ≤ x.toNat := of_decide_eq_false (sign ▸ signed).symm
      -- nothing is shifted out, and nothing is flipped
      rw [sshiftRight_of_msb_false sign, BitVec.xor_zero, BitVec.toNat_shiftLeft,
        Nat.shiftLeft_eq, Nat.mod_eq_of_lt (by omega), BitVec.toInt_eq_toNat_of_msb sign, zigzag,
        if_pos (by omega)]
      omega
  | true =>
      have large : 2 ^ width ≤ x.toNat := of_decide_eq_true (sign ▸ signed).symm
      have negative : x.toInt = x.toNat - (2 ^ (width + 1) : Nat) := by
        rw [BitVec.toInt_eq_msb_cond, sign, if_pos rfl]
      -- the sign is shifted out, and every bit that is left is flipped
      have cut : x.toNat * 2 % 2 ^ (width + 1) = x.toNat * 2 - 2 ^ (width + 1) := by
        rw [Nat.mod_eq_sub_mod (by omega), Nat.mod_eq_of_lt (by omega)]
      rw [sshiftRight_of_msb_true sign, BitVec.xor_allOnes, BitVec.toNat_not,
        BitVec.toNat_shiftLeft, Nat.shiftLeft_eq, Nat.pow_one, cut, negative, zigzag,
        if_neg (by omega)]
      omega

theorem ofNat_zigzag_int32 (value : Int32) :
    UInt64.ofNat (zigzag value.toInt) =
      ((value <<< 1) ^^^ (value >>> 31)).toUInt32.toUInt64 := by
  have bits : ((value <<< 1) ^^^ (value >>> 31)).toUInt32.toNat = zigzag value.toInt :=
    toNat_shiftLeft_xor value.toBitVec
  rw [← bits, UInt64.ofNat_uInt32ToNat]

theorem ofNat_zigzag_int64 (value : Int64) :
    UInt64.ofNat (zigzag value.toInt) = ((value <<< 1) ^^^ (value >>> 63)).toUInt64 := by
  have bits : ((value <<< 1) ^^^ (value >>> 63)).toUInt64.toNat = zigzag value.toInt :=
    toNat_shiftLeft_xor value.toBitVec
  rw [← bits, UInt64.ofNat_toNat]

/-! ## Unfolding by a mask -/

/-- Shifting a word down and flipping the result by the last bit unfolds it. -/
theorem toInt_ushiftRight_xor {width : Nat} (x : BitVec (width + 1)) :
    ((x >>> 1) ^^^ -(x &&& 1#(width + 1))).toInt = unzigzag x.toNat := by
  have bound := x.isLt
  have double : 2 ^ (width + 1) = 2 * 2 ^ width := by rw [Nat.pow_succ, Nat.mul_comm]
  have positive := Nat.two_pow_pos width
  have unit : 1 % 2 ^ (width + 1) = 1 := Nat.mod_eq_of_lt (by omega)
  have half : (x >>> 1).toNat = x.toNat / 2 := by
    rw [BitVec.toNat_ushiftRight, Nat.shiftRight_eq_div_pow, Nat.pow_one]
  have plain : (x >>> 1).msb = false := by
    rw [BitVec.msb_eq_decide, half, Nat.add_sub_cancel]
    exact decide_eq_false (by omega)
  have last : (x &&& 1#(width + 1)).toNat = x.toNat % 2 := by
    rw [BitVec.toNat_and, BitVec.toNat_ofNat, unit, Nat.and_one_is_mod]
  rw [unzigzag]
  split
  · next even =>
      -- nothing is flipped
      have zero : x &&& 1#(width + 1) = 0#(width + 1) := by
        apply BitVec.eq_of_toNat_eq
        rw [last, even, BitVec.toNat_ofNat, Nat.zero_mod]
      rw [zero, BitVec.neg_zero, BitVec.xor_zero, BitVec.toInt_eq_toNat_of_msb plain, half]
  · next odd =>
      -- every bit is flipped
      have one : x &&& 1#(width + 1) = 1#(width + 1) := by
        apply BitVec.eq_of_toNat_eq
        rw [last, BitVec.toNat_ofNat, unit]
        omega
      have flipped : (~~~(x >>> 1)).msb = true := by rw [BitVec.msb_not, plain]; simp
      rw [one, BitVec.neg_one_eq_allOnes, BitVec.xor_allOnes, BitVec.toInt_eq_msb_cond, flipped,
        if_pos rfl, BitVec.toNat_not, half]
      omega

theorem ofInt_unzigzag_uint32 (word : UInt32) :
    Int32.ofInt (unzigzag word.toNat) = (word >>> 1).toInt32 ^^^ -(word &&& 1).toInt32 := by
  have bits : ((word >>> 1).toInt32 ^^^ -(word &&& 1).toInt32).toInt = unzigzag word.toNat :=
    toInt_ushiftRight_xor word.toBitVec
  rw [← bits, Int32.ofInt_toInt]

theorem ofInt_unzigzag_uint64 (word : UInt64) :
    Int64.ofInt (unzigzag word.toNat) = (word >>> 1).toInt64 ^^^ -(word &&& 1).toInt64 := by
  have bits : ((word >>> 1).toInt64 ^^^ -(word &&& 1).toInt64).toInt = unzigzag word.toNat :=
    toInt_ushiftRight_xor word.toBitVec
  rw [← bits, Int64.ofInt_toInt]

/-! ## Extending by the sign -/

theorem ofInt_toInt_int64 (value : Int64) : UInt64.ofInt value.toInt = value.toUInt64 := by
  rw [← UInt64.toUInt64_toInt64 (UInt64.ofInt value.toInt), toInt64_ofInt]

theorem ofInt_toInt_int32 (value : Int32) :
    UInt64.ofInt value.toInt = value.toInt64.toUInt64 := by
  rw [← Int32.toInt_toInt64, ofInt_toInt_int64]

/-! ## The words of each kind -/

namespace Kind

/-- What the values of each scalar kind are, and the word or the bytes that carry each of them. -/
inductive Carries : Kind → Value → Payload → Prop
  | bool (value : Bool) : Carries .bool (.bool value) (.varint value.toUInt64)
  | enum (value : Int32) : Carries .enum (.enum value) (.varint value.toInt64.toUInt64)
  | int32 (value : Int32) : Carries .int32 (.int32 value) (.varint value.toInt64.toUInt64)
  | sint32 (value : Int32) : Carries .sint32 (.int32 value)
      (.varint ((value <<< 1) ^^^ (value >>> 31)).toUInt32.toUInt64)
  | uint32 (value : UInt32) : Carries .uint32 (.uint32 value) (.varint value.toUInt64)
  | int64 (value : Int64) : Carries .int64 (.int64 value) (.varint value.toUInt64)
  | sint64 (value : Int64) : Carries .sint64 (.int64 value)
      (.varint ((value <<< 1) ^^^ (value >>> 63)).toUInt64)
  | uint64 (value : UInt64) : Carries .uint64 (.uint64 value) (.varint value)
  | fixed32 (value : UInt32) : Carries .fixed32 (.uint32 value) (.fixed32 value)
  | sfixed32 (value : Int32) : Carries .sfixed32 (.int32 value) (.fixed32 value.toUInt32)
  | float (bits : UInt32) : Carries .float (.single bits) (.fixed32 bits)
  | fixed64 (value : UInt64) : Carries .fixed64 (.uint64 value) (.fixed64 value)
  | sfixed64 (value : Int64) : Carries .sfixed64 (.int64 value) (.fixed64 value.toUInt64)
  | double (bits : UInt64) : Carries .double (.double bits) (.fixed64 bits)
  | string (text : String) : Carries .string (.string text) (.delimited (Bytes.ofText text))
  | bytes (content : Bytes) : Carries .bytes (.bytes content) (.delimited content)

theorem payload?_of_carries {kind : Kind} {value : Value} {payload : Payload}
    (h : kind.Carries value payload) : kind.payload? value = some payload := by
  cases h
  case bool value => cases value <;> rfl
  case enum value => simp only [payload?, ofInt_toInt_int32]
  case int32 value => simp only [payload?, ofInt_toInt_int32]
  case sint32 value => simp only [payload?, ofNat_zigzag_int32]
  case int64 value => simp only [payload?, ofInt_toInt_int64]
  case sint64 value => simp only [payload?, ofNat_zigzag_int64]
  all_goals rfl

/-- The word or the bytes that each scalar kind takes, and the value that it reads of them. -/
inductive Decodes : Kind → Payload → Value → Prop
  | bool (word : UInt64) : Decodes .bool (.varint word) (.bool (word != 0))
  | enum (word : UInt64) : Decodes .enum (.varint word) (.enum word.toUInt32.toInt32)
  | int32 (word : UInt64) : Decodes .int32 (.varint word) (.int32 word.toUInt32.toInt32)
  | sint32 (word : UInt64) : Decodes .sint32 (.varint word)
      (.int32 ((word.toUInt32 >>> 1).toInt32 ^^^ -(word.toUInt32 &&& 1).toInt32))
  | uint32 (word : UInt64) : Decodes .uint32 (.varint word) (.uint32 word.toUInt32)
  | int64 (word : UInt64) : Decodes .int64 (.varint word) (.int64 word.toInt64)
  | sint64 (word : UInt64) : Decodes .sint64 (.varint word)
      (.int64 ((word >>> 1).toInt64 ^^^ -(word &&& 1).toInt64))
  | uint64 (word : UInt64) : Decodes .uint64 (.varint word) (.uint64 word)
  | fixed32 (word : UInt32) : Decodes .fixed32 (.fixed32 word) (.uint32 word)
  | sfixed32 (word : UInt32) : Decodes .sfixed32 (.fixed32 word) (.int32 word.toInt32)
  | float (bits : UInt32) : Decodes .float (.fixed32 bits) (.single bits)
  | fixed64 (word : UInt64) : Decodes .fixed64 (.fixed64 word) (.uint64 word)
  | sfixed64 (word : UInt64) : Decodes .sfixed64 (.fixed64 word) (.int64 word.toInt64)
  | double (bits : UInt64) : Decodes .double (.fixed64 bits) (.double bits)
  | string (text : String) : Decodes .string (.delimited (Bytes.ofText text)) (.string text)
  | bytes (content : Bytes) : Decodes .bytes (.delimited content) (.bytes content)

/-- A kind reads the words of its wire type, and of bytes as a text those of a text only. -/
theorem ofPayload_eq_ok_iff {kind : Kind} {payload : Payload} {value : Value} :
    kind.ofPayload payload = .ok value ↔ kind.Decodes payload value := by
  have cut : ∀ word : UInt64, Int32.ofNat word.toNat = word.toUInt32.toInt32 := fun _ => rfl
  constructor
  · intro h
    cases kind <;> cases payload <;> simp only [ofPayload, reduceCtorEq] at h
    case string.delimited body =>
      cases text : Bytes.toText? body with
      | none => simp [text] at h
      | some text' =>
          simp only [text, Except.ok.injEq] at h
          rw [← h, Bytes.toText?_eq_some_iff.1 text]
          exact .string text'
    case sint32.varint word =>
      rw [ofInt_unzigzag_uint32] at h
      cases h
      exact .sint32 word
    case sint64.varint word =>
      rw [ofInt_unzigzag_uint64] at h
      cases h
      exact .sint64 word
    all_goals
      cases h
      constructor
  · intro h
    cases h
    case sint32 word => rw [ofPayload, ofInt_unzigzag_uint32]
    case sint64 word => rw [ofPayload, ofInt_unzigzag_uint64]
    case string text => simp only [ofPayload, Bytes.toText?_ofText]
    all_goals rfl

/-- The length of what a kind writes for a value. A value of another kind is not written. -/
def length : Kind → Value → Nat
  | .bool, .bool _ => 1
  | .enum, .enum value => Varint.size value.toInt64.toUInt64.toNat
  | .int32, .int32 value => Varint.size value.toInt64.toUInt64.toNat
  | .sint32, .int32 value => Varint.size ((value <<< 1) ^^^ (value >>> 31)).toUInt32.toNat
  | .uint32, .uint32 value => Varint.size value.toNat
  | .int64, .int64 value => Varint.size value.toUInt64.toNat
  | .sint64, .int64 value => Varint.size ((value <<< 1) ^^^ (value >>> 63)).toUInt64.toNat
  | .uint64, .uint64 value => Varint.size value.toNat
  | .fixed32, .uint32 _ | .sfixed32, .int32 _ | .float, .single _ => 4
  | .fixed64, .uint64 _ | .sfixed64, .int64 _ | .double, .double _ => 8
  | .string, .string text => Varint.size text.utf8ByteSize + text.utf8ByteSize
  | .bytes, .bytes content => Varint.size content.length + content.length
  | _, _ => 0

theorem length_of_carries {kind : Kind} {value : Value} {payload : Payload}
    (h : kind.Carries value payload) : kind.length value = payload.size := by
  cases h
  case bool value => cases value <;> rfl
  case string text => simp [length, Payload.size, Bytes.ofText]
  all_goals simp [length, Payload.size]

end Kind

/-- Each value of each scalar kind is encoded as its word or its bytes, in as many bytes as the
length of its kind says. It is what the kind makes of the word or the bytes, and decoded from them
in front of any bytes; strings are no longer than a word can say. A tag with any of the field
numbers is decoded from its bytes in the same way. -/
theorem scalars_and_tags_read_back :
    (∀ kind value payload, Kind.Carries kind value payload →
      kind.payload? value = some payload ∧
        payload.write.length = payload.size ∧ payload.size = kind.length value ∧
        kind.Decodes payload value ∧
        (payload.fits → ∀ rest, kind.read (payload.write ++ rest) = .ok (value, rest))) ∧
      ∀ number wire, 1 ≤ number → number ≤ 536870911 →
        (Tag.write number wire).length = Tag.size number wire ∧
          ∀ rest, Tag.read (Tag.write number wire ++ rest) = .ok (number, wire, rest) := by
  constructor
  · intro kind value payload carried
    have encoded := Kind.payload?_of_carries carried
    have decoded := Kind.ofPayload_eq_ok_iff.1 (Kind.ofPayload_of_payload? encoded)
    exact ⟨encoded, payload.length_write, (Kind.length_of_carries carried).symm, decoded,
      fun fits rest => Kind.read_write encoded fits rest⟩
  · intro number wire positive bounded
    have legal := isFieldNumber_iff.2 ⟨positive, bounded⟩
    exact ⟨Tag.length_write number wire, Tag.read_write legal wire⟩

/-- The least 32-bit number, folded to five bytes, and the largest field number. -/
theorem least_sint32_and_largest_tag_read_back :
    (Kind.Carries .sint32 (.int32 (-2147483648)) (.varint 4294967295) ∧
      (Payload.varint 4294967295).write = [0xff, 0xff, 0xff, 0xff, 0x0f] ∧
      Kind.read .sint32 [0xff, 0xff, 0xff, 0xff, 0x0f, 0x80] =
        .ok (.int32 (-2147483648), [0x80])) ∧
      (1 ≤ 536870911 ∧ 536870911 ≤ 536870911) ∧
        Tag.read (Tag.write 536870911 .fixed32 ++ [0x80]) = .ok (536870911, .fixed32, [0x80]) := by
  have carried : Kind.Carries .sint32 (.int32 (-2147483648)) (.varint 4294967295) :=
    .sint32 (-2147483648)
  have bytes : (Payload.varint 4294967295).write = [0xff, 0xff, 0xff, 0xff, 0x0f] := by decide
  have back := (scalars_and_tags_read_back.1 _ _ _ carried).2.2.2.2 trivial [0x80]
  rw [bytes] at back
  exact ⟨⟨carried, bytes, back⟩, by decide,
    (scalars_and_tags_read_back.2 536870911 .fixed32 (by decide) (by decide)).2 [0x80]⟩

end ProtoWire
