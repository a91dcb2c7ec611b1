import ProtoWire.Message.Scalar

/-!
# Scalars read back

A scalar that was written reads back as the same value (`Kind.read_write`), and whatever is
read is a value of the kind that was asked for (`Kind.isSome_payload?_of_read`). The zero of a
kind is the one value with a zero payload (`Kind.isZero_iff`).
-/

set_option autoImplicit false

namespace ProtoWire

/-! ## Words -/

/-- Integers wrap around at the size of a word. -/
theorem toNat_ofInt (n : Int) : (UInt64.ofInt n).toNat = (n % 18446744073709551616).toNat := by
  rw [UInt64.ofInt, UInt64.toNat_ofNat']
  omega

/-- A number of 32 bits reads back from the word that it is extended to. -/
theorem ofNat_toNat_ofInt (value : Int32) :
    Int32.ofNat (UInt64.ofInt value.toInt).toNat = value := by
  have lower := value.le_toInt
  have upper := value.toInt_lt
  -- sign-extended to 64 bits and cut back to 32, a number is what it was
  apply Int32.toInt_inj.1
  rw [Int32.toInt_ofNat', toNat_ofInt, Int.bmod_def, Int32.size]
  omega

theorem toInt64_ofInt (value : Int64) : (UInt64.ofInt value.toInt).toInt64 = value := by
  have lower := value.le_toInt
  have upper := value.toInt_lt
  apply Int64.toInt_inj.1
  have bits : (UInt64.ofInt value.toInt).toInt64.toInt =
      ((UInt64.ofInt value.toInt).toNat : Int).bmod 18446744073709551616 :=
    BitVec.toInt_eq_toNat_bmod _
  rw [bits, toNat_ofInt, Int.bmod_def]
  omega

/-- Zigzag words of 32 bits read back. -/
theorem ofInt_unzigzag (value : Int32) :
    Int32.ofInt (unzigzag (UInt64.ofNat (zigzag value.toInt)).toUInt32.toNat) = value := by
  have lower := value.le_toInt
  have upper := value.toInt_lt
  have small : zigzag value.toInt < 4294967296 := by
    rw [zigzag]
    split <;> omega
  -- the zigzag of 32 bits has 32 bits, so that nothing is cut off
  have word : (UInt64.ofNat (zigzag value.toInt)).toUInt32.toNat = zigzag value.toInt := by
    rw [UInt64.toNat_toUInt32, UInt64.toNat_ofNat']
    omega
  rw [word, unzigzag_zigzag, Int32.ofInt_toInt]

theorem ofInt_unzigzag_toNat (value : Int64) :
    Int64.ofInt (unzigzag (UInt64.ofNat (zigzag value.toInt)).toNat) = value := by
  have lower := value.le_toInt
  have upper := value.toInt_lt
  have small : zigzag value.toInt < 18446744073709551616 := by
    rw [zigzag]
    split <;> omega
  have word : (UInt64.ofNat (zigzag value.toInt)).toNat = zigzag value.toInt := by
    rw [UInt64.toNat_ofNat']
    omega
  rw [word, unzigzag_zigzag, Int64.ofInt_toInt]

namespace Kind

/-! ## Payloads of values -/

/-- The value of a payload is the one whose payload it is. -/
theorem ofPayload_of_payload? {kind : Kind} {value : Value} {payload : Payload}
    (h : kind.payload? value = some payload) : kind.ofPayload payload = .ok value := by
  -- the cases that are left are those in which the value is of the kind
  cases kind <;> cases value <;> simp only [payload?, reduceCtorEq, Option.some.injEq] at h <;>
    subst h <;> simp only [ofPayload]
  case bool.bool value => cases value <;> rfl
  case enum.enum value => rw [ofNat_toNat_ofInt]
  case int32.int32 value => rw [ofNat_toNat_ofInt]
  case sint32.int32 value => rw [ofInt_unzigzag]
  case uint32.uint32 value => simp
  case int64.int64 value => rw [toInt64_ofInt]
  case sint64.int64 value => rw [ofInt_unzigzag_toNat]
  case sfixed32.int32 value => simp
  case sfixed64.int64 value => simp
  case string.string text => rw [Bytes.toText?_ofText]

/-- What a payload is decoded to has a payload of the kind. -/
theorem isSome_payload?_of_ofPayload {kind : Kind} {value : Value} {payload : Payload}
    (h : kind.ofPayload payload = .ok value) : (kind.payload? value).isSome = true := by
  cases kind <;> cases payload <;> simp only [ofPayload, reduceCtorEq] at h
  case string.delimited body =>
    split at h
    · cases h
      rfl
    · simp at h
  all_goals
    cases h
    rfl

/-- Two values of a kind with one payload are the same. -/
theorem eq_of_payload?_eq {kind : Kind} {a b : Value} {payload : Payload}
    (left : kind.payload? a = some payload) (right : kind.payload? b = some payload) : a = b := by
  have eq := ofPayload_of_payload? left
  rw [ofPayload_of_payload? right] at eq
  cases eq
  rfl

/-- There is one zero of each wire type. -/
theorem eq_of_isZero {a b : Payload} (wire : a.wireType = b.wireType) (left : a.isZero = true)
    (right : b.isZero = true) : a = b := by
  cases a <;> cases b <;> simp [Payload.wireType] at wire <;>
    simp_all [Payload.isZero]

theorem isZero_of_zero? {kind : Kind} {value : Value} {payload : Payload}
    (h : kind.payload? value = some payload) (zero : Value.zero? kind = some value) :
    payload.isZero = true := by
  cases kind <;> simp only [Value.zero?, Option.some.injEq, reduceCtorEq] at zero <;>
    subst zero <;> cases h <;> rfl

/-- The zero of a kind is the value whose payload is zero. -/
theorem isZero_iff {kind : Kind} {value : Value} {payload : Payload}
    (h : kind.payload? value = some payload) :
    payload.isZero = true ↔ Value.zero? kind = some value := by
  refine ⟨fun zero => ?_, isZero_of_zero? h⟩
  -- each kind with payloads has a zero, and the zero has a payload
  obtain ⟨other, payload', eq, h'⟩ : ∃ other payload',
      Value.zero? kind = some other ∧ kind.payload? other = some payload' := by
    cases kind <;> first | exact ⟨_, _, rfl, rfl⟩ | (cases value <;> simp [payload?] at h)
  have wire := (wireType_of_payload? h).trans (wireType_of_payload? h').symm
  -- two zeros of one wire type are the same payload
  obtain rfl := eq_of_isZero wire zero (isZero_of_zero? h' eq)
  rw [eq, eq_of_payload?_eq h h']

/-! ## Reading -/

/-- A scalar that was written reads back, in front of any bytes. -/
theorem read_write {kind : Kind} {value : Value} {payload : Payload}
    (h : kind.payload? value = some payload) (fits : payload.fits) (rest : Bytes) :
    kind.read (payload.write ++ rest) = .ok (value, rest) := by
  rw [read, ← wireType_of_payload? h, Payload.read_write fits]
  simp only [ofPayload_of_payload? h]

/-- What is read is a value of the kind. -/
theorem isSome_payload?_of_read {kind : Kind} {value : Value} {bytes rest : Bytes}
    (h : kind.read bytes = .ok (value, rest)) : (kind.payload? value).isSome = true := by
  rw [read] at h
  split at h
  · simp at h
  · split at h
    · simp at h
    · next eq =>
        cases h
        exact isSome_payload?_of_ofPayload eq

end Kind

end ProtoWire
