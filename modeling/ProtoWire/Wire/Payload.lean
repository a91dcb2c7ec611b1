import ProtoWire.Wire.Tag

/-!
# Payloads

A payload is what follows the tag of a record that is no group: a word, four or
eight bytes, or a length and that many bytes.

The main statements are `Payload.read_write`, that a written payload reads back in
front of any bytes, and `Payload.length_write`, that `Payload.size` counts the bytes
written.
-/

set_option autoImplicit false

namespace ProtoWire

/-- The value of one record as it stands on the wire. -/
inductive Payload where
  /-- A variable-length word. -/
  | varint (word : UInt64)
  /-- Eight bytes, least significant first. -/
  | fixed64 (word : UInt64)
  /-- Four bytes, least significant first. -/
  | fixed32 (word : UInt32)
  /-- Bytes behind their length. -/
  | delimited (body : Bytes)
  deriving DecidableEq, Repr

namespace Payload

/-- The wire type that announces the payload. -/
def wireType : Payload → WireType
  | .varint _ => .varint
  | .fixed64 _ => .fixed64
  | .fixed32 _ => .fixed32
  | .delimited _ => .lengthDelimited

/-- The bytes of a payload. -/
def write : Payload → Bytes
  | .varint word => Varint.write word.toNat
  | .fixed64 word => Bytes.littleEndian 8 word.toNat
  | .fixed32 word => Bytes.littleEndian 4 word.toNat
  | .delimited body => Varint.write body.length ++ body

/-- The number of bytes of a payload. -/
def size : Payload → Nat
  | .varint word => Varint.size word.toNat
  | .fixed64 _ => 8
  | .fixed32 _ => 4
  | .delimited body => Varint.size body.length + body.length

/-- The number of bytes of some payloads. -/
def totalSize : List Payload → Nat
  | [] => 0
  | payload :: payloads => payload.size + totalSize payloads

/-- Zero, and the empty byte string. -/
def isZero : Payload → Bool
  | .varint word => word == 0
  | .fixed64 word => word == 0
  | .fixed32 word => word == 0
  | .delimited body => body.isEmpty

/-- Reads a length and that many bytes. -/
def readDelimited (bytes : Bytes) : Except InputFault (Bytes × Bytes) :=
  match Varint.read bytes with
  | none => .error .invalidVarint
  | some (length, rest) =>
      match Bytes.split? length rest with
      | none => .error .truncated
      | some split => .ok split

/-- Reads the payload that a wire type announces. -/
def read : WireType → Bytes → Except InputFault (Payload × Bytes)
  | .varint, bytes =>
      match Varint.read bytes with
      | none => .error .invalidVarint
      | some (word, rest) => .ok (.varint (UInt64.ofNat word), rest)
  | .fixed64, bytes =>
      match Bytes.split? 8 bytes with
      | none => .error .truncated
      | some (word, rest) => .ok (.fixed64 (UInt64.ofNat (Bytes.ofLittleEndian word)), rest)
  | .fixed32, bytes =>
      match Bytes.split? 4 bytes with
      | none => .error .truncated
      | some (word, rest) => .ok (.fixed32 (UInt32.ofNat (Bytes.ofLittleEndian word)), rest)
  | .lengthDelimited, bytes =>
      match readDelimited bytes with
      | .error fault => .error fault
      | .ok (body, rest) => .ok (.delimited body, rest)
  | .startGroup, _ => .error .unexpectedWireType
  | .endGroup, _ => .error .unexpectedWireType

@[simp]
theorem length_write (payload : Payload) : payload.write.length = payload.size := by
  cases payload <;> simp [write, size]

theorem length_flatMap_write (payloads : List Payload) :
    (payloads.flatMap write).length = totalSize payloads := by
  induction payloads with
  | nil => rfl
  | cons payload payloads ih => simp [totalSize, ih]

/-- Whether the length of a payload is a word. -/
def fits : Payload → Prop
  | .delimited body => body.length < UInt64.size
  | _ => True

/-- A payload that was written reads back. -/
theorem read_write {payload : Payload} (h : payload.fits) (rest : Bytes) :
    read payload.wireType (payload.write ++ rest) = .ok (payload, rest) := by
  cases payload with
  | varint word =>
      simp [read, write, wireType, Varint.read_write word.toNat_lt]
  | fixed64 word =>
      have taken := Bytes.split?_append (Bytes.littleEndian 8 word.toNat) rest
      rw [Bytes.length_littleEndian] at taken
      simp only [read, write, wireType, taken, Bytes.ofLittleEndian_littleEndian,
        Nat.mod_eq_of_lt (show word.toNat < Nat.pow 256 8 from word.toNat_lt),
        UInt64.ofNat_toNat]
  | fixed32 word =>
      have taken := Bytes.split?_append (Bytes.littleEndian 4 word.toNat) rest
      rw [Bytes.length_littleEndian] at taken
      simp only [read, write, wireType, taken, Bytes.ofLittleEndian_littleEndian,
        Nat.mod_eq_of_lt (show word.toNat < Nat.pow 256 4 from word.toNat_lt),
        UInt32.ofNat_toNat]
  | delimited body =>
      have taken := Bytes.split?_append body rest
      simp only [read, readDelimited, write, wireType, List.append_assoc,
        Varint.read_write h, taken]

end Payload

end ProtoWire
