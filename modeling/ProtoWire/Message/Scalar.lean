import ProtoWire.Failure
import ProtoWire.Message.Basic
import ProtoWire.Wire.Payload

/-!
# Scalars on the wire

A scalar kind pairs a variant of `Value` with a form of `Payload`. Signed words
are sign-extended to 64 bits, or folded so that small magnitudes give small
words; floating-point values travel as their bits and texts as UTF-8.
-/

set_option autoImplicit false

namespace ProtoWire

/-- Folds a signed number to a natural one: 0, -1, 1, -2 become 0, 1, 2, 3. -/
def zigzag (n : Int) : Nat :=
  if 0 ≤ n then (2 * n).toNat else (-2 * n - 1).toNat

/-- The signed number that is folded to a natural one. -/
def unzigzag (n : Nat) : Int :=
  if n % 2 = 0 then (n / 2 : Nat) else -(n / 2 : Nat) - 1

theorem unzigzag_zigzag (n : Int) : unzigzag (zigzag n) = n := by
  simp only [unzigzag, zigzag]
  split <;> split <;> omega

theorem zigzag_unzigzag (n : Nat) : zigzag (unzigzag n) = n := by
  simp only [unzigzag, zigzag]
  split <;> split <;> omega

namespace Kind

/-- The payload of a value, if the value is of the variant that the kind holds.
Messages and groups have none. -/
def payload? : Kind → Value → Option Payload
  | .bool, .bool value => some (.varint (if value then 1 else 0))
  | .enum, .enum value => some (.varint (UInt64.ofInt value.toInt))
  | .int32, .int32 value => some (.varint (UInt64.ofInt value.toInt))
  | .sint32, .int32 value => some (.varint (UInt64.ofNat (zigzag value.toInt)))
  | .uint32, .uint32 value => some (.varint value.toUInt64)
  | .int64, .int64 value => some (.varint (UInt64.ofInt value.toInt))
  | .sint64, .int64 value => some (.varint (UInt64.ofNat (zigzag value.toInt)))
  | .uint64, .uint64 value => some (.varint value)
  | .fixed32, .uint32 value => some (.fixed32 value)
  | .sfixed32, .int32 value => some (.fixed32 value.toUInt32)
  | .float, .single bits => some (.fixed32 bits)
  | .fixed64, .uint64 value => some (.fixed64 value)
  | .sfixed64, .int64 value => some (.fixed64 value.toUInt64)
  | .double, .double bits => some (.fixed64 bits)
  | .string, .string text => some (.delimited (Bytes.ofText text))
  | .bytes, .bytes content => some (.delimited content)
  | _, _ => none

theorem wireType_of_payload? {kind : Kind} {value : Value} {payload : Payload}
    (h : kind.payload? value = some payload) : payload.wireType = kind.wireType := by
  cases kind <;> cases value <;> simp [payload?] at h <;> subst h <;> rfl

/-- The value of a payload. Words are cut to the width of the kind, and any word
but zero is a true boolean. -/
def ofPayload : Kind → Payload → Except InputFault Value
  | .bool, .varint word => .ok (.bool (word != 0))
  | .enum, .varint word => .ok (.enum (Int32.ofNat word.toNat))
  | .int32, .varint word => .ok (.int32 (Int32.ofNat word.toNat))
  | .sint32, .varint word => .ok (.int32 (Int32.ofInt (unzigzag word.toUInt32.toNat)))
  | .uint32, .varint word => .ok (.uint32 word.toUInt32)
  | .int64, .varint word => .ok (.int64 word.toInt64)
  | .sint64, .varint word => .ok (.int64 (Int64.ofInt (unzigzag word.toNat)))
  | .uint64, .varint word => .ok (.uint64 word)
  | .fixed32, .fixed32 word => .ok (.uint32 word)
  | .sfixed32, .fixed32 word => .ok (.int32 word.toInt32)
  | .float, .fixed32 word => .ok (.single word)
  | .fixed64, .fixed64 word => .ok (.uint64 word)
  | .sfixed64, .fixed64 word => .ok (.int64 word.toInt64)
  | .double, .fixed64 word => .ok (.double word)
  | .string, .delimited body =>
      match Bytes.toText? body with
      | some text => .ok (.string text)
      | none => .error .invalidUtf8
  | .bytes, .delimited body => .ok (.bytes body)
  | _, _ => .error .unexpectedWireType

/-- Reads one value of a scalar kind. -/
def read (kind : Kind) (bytes : Bytes) : Except InputFault (Value × Bytes) :=
  match Payload.read kind.wireType bytes with
  | .error fault => .error fault
  | .ok (payload, rest) =>
      match kind.ofPayload payload with
      | .error fault => .error fault
      | .ok value => .ok (value, rest)

end Kind

end ProtoWire
