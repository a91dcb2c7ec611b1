import ProtoWire.Wire.Fault
import ProtoWire.Wire.Varint

/-!
# Tags

Each record starts with a tag: a word whose low three bits name the wire type
and whose other bits are the field number.

The main statements are `Tag.read_write`, that a written tag reads back in front of
any bytes, and `Tag.append_of_read`, that reading takes bytes off the front only.
-/

set_option autoImplicit false

namespace ProtoWire

/-- The largest field number, `2 ^ 29 - 1`. -/
def maxFieldNumber : Nat := 536870911

/-- Field numbers run from one to the largest. -/
def isFieldNumber (number : Nat) : Bool :=
  1 ≤ number && number ≤ maxFieldNumber

theorem isFieldNumber_iff {number : Nat} :
    isFieldNumber number = true ↔ 1 ≤ number ∧ number ≤ 536870911 := by
  rw [isFieldNumber, Bool.and_eq_true, decide_eq_true_eq, decide_eq_true_eq, maxFieldNumber]

/-- How the value after a tag is framed. -/
inductive WireType where
  /-- One variable-length word. -/
  | varint
  /-- Eight bytes. -/
  | fixed64
  /-- A length and that many bytes. -/
  | lengthDelimited
  /-- Records up to the matching end tag. -/
  | startGroup
  /-- The end of a group; no value follows. -/
  | endGroup
  /-- Four bytes. -/
  | fixed32
  deriving DecidableEq, Repr

namespace WireType

/-- The number of a wire type in the low bits of a tag. -/
def code : WireType → Nat
  | .varint => 0
  | .fixed64 => 1
  | .lengthDelimited => 2
  | .startGroup => 3
  | .endGroup => 4
  | .fixed32 => 5

/-- The wire type of a number; six and seven name none. -/
def ofCode? : Nat → Option WireType
  | 0 => some .varint
  | 1 => some .fixed64
  | 2 => some .lengthDelimited
  | 3 => some .startGroup
  | 4 => some .endGroup
  | 5 => some .fixed32
  | _ => none

/-- The name of a wire type, as diagnostics show it. -/
def name : WireType → String
  | .varint => "Varint"
  | .fixed64 => "SixtyFourBit"
  | .lengthDelimited => "LengthDelimited"
  | .startGroup => "StartGroup"
  | .endGroup => "EndGroup"
  | .fixed32 => "ThirtyTwoBit"

@[simp]
theorem ofCode?_code (wire : WireType) : ofCode? wire.code = some wire := by
  cases wire <;> rfl

theorem code_lt (wire : WireType) : wire.code < 8 := by
  cases wire <;> decide

end WireType

namespace Tag

/-- The word of a tag. -/
def word (number : Nat) (wire : WireType) : Nat :=
  number * 8 + wire.code

/-- The bytes of a tag. -/
def write (number : Nat) (wire : WireType) : Bytes :=
  Varint.write (word number wire)

/-- The number of bytes of a tag. -/
def size (number : Nat) (wire : WireType) : Nat :=
  Varint.size (word number wire)

/-- Reads a tag. A wrong wire type is reported before a wrong field number. -/
def read (bytes : Bytes) : Except InputFault (Nat × WireType × Bytes) :=
  match Varint.read bytes with
  | none => .error .invalidVarint
  | some (word, rest) =>
      match WireType.ofCode? (word % 8) with
      | none => .error .invalidWireType
      | some wire =>
          if isFieldNumber (word / 8) then .ok (word / 8, wire, rest)
          else .error .invalidFieldNumber

theorem word_lt {number : Nat} (h : isFieldNumber number) (wire : WireType) :
    word number wire < UInt64.size := by
  have := wire.code_lt
  simp only [isFieldNumber, Bool.and_eq_true, decide_eq_true_eq] at h
  have bound : number ≤ 536870911 := h.2
  simp only [word, UInt64.size]
  omega

/-- A tag that was written reads back. -/
theorem read_write {number : Nat} (h : isFieldNumber number) (wire : WireType) (rest : Bytes) :
    read (write number wire ++ rest) = .ok (number, wire, rest) := by
  have code := wire.code_lt
  have low : word number wire % 8 = wire.code := by
    simp only [word]
    omega
  have high : word number wire / 8 = number := by
    simp only [word]
    omega
  simp only [read, write, Varint.read_write (word_lt h wire), low, high,
    WireType.ofCode?_code, h, if_true]

@[simp]
theorem length_write (number : Nat) (wire : WireType) :
    (write number wire).length = size number wire := by
  simp [write, size]

/-- The wire type has no part in the size of a tag. -/
theorem size_eq (number : Nat) (wire : WireType) : size number wire = Varint.size (number * 8) := by
  have code := wire.code_lt
  rw [size, word]
  by_cases small : number < 16
  · rw [Varint.size_of_lt (by omega), Varint.size_of_lt (by omega)]
  · have high : (number * 8 + wire.code) / 128 = number * 8 / 128 := by omega
    have large : 128 ≤ number * 8 := by omega
    rw [Varint.size_of_le large, Varint.size_of_le (Nat.le_add_right_of_le large), high]

/-- A tag takes some bytes off the front, and would take the same ones in front of
any other bytes. -/
theorem append_of_read {number : Nat} {wire : WireType} {bytes rest : Bytes}
    (h : read bytes = .ok (number, wire, rest)) :
    ∃ front, front ≠ [] ∧ bytes = front ++ rest ∧
      ∀ more, read (front ++ more) = .ok (number, wire, more) := by
  simp only [read] at h
  split at h
  · simp at h
  · next word rest' eq =>
      obtain ⟨front, nonempty, same, reads⟩ := Varint.append_of_read eq
      split at h
      · simp at h
      · next wire' named =>
          split at h
          · next legal =>
              simp only [Except.ok.injEq, Prod.mk.injEq] at h
              obtain ⟨rfl, rfl, rfl⟩ := h
              exact ⟨front, nonempty, same, fun more => by
                simp only [read, reads more, named, legal, if_true]⟩
          · simp at h

theorem isFieldNumber_of_read {number : Nat} {wire : WireType} {bytes rest : Bytes}
    (h : read bytes = .ok (number, wire, rest)) : isFieldNumber number := by
  simp only [read] at h
  split at h
  · simp at h
  · split at h
    · simp at h
    · split at h
      · next legal =>
          simp only [Except.ok.injEq, Prod.mk.injEq] at h
          obtain ⟨rfl, rfl, rfl⟩ := h
          exact legal
      · simp at h

end Tag

end ProtoWire
