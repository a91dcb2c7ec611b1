/-!
# Byte strings

Byte strings are lists, so that a reader can hand on the rest of its input and
a writer can be a concatenation. The module also holds the two views that the
wire format takes of them: numbers with the least significant byte first, and
UTF-8 text.

The main statements are `ofLittleEndian_littleEndian`, that a number is recovered
from its bytes up to the width that they hold, and `toText?_eq_some_iff`, that the
bytes of a text are those that read as it.
-/

set_option autoImplicit false

namespace ProtoWire

/-- A byte string. -/
abbrev Bytes := List UInt8

namespace Bytes

/-- The `width` low bytes of a number, least significant first. -/
def littleEndian : Nat → Nat → Bytes
  | 0, _ => []
  | width + 1, n => UInt8.ofNat n :: littleEndian width (n / 256)

/-- The number whose bytes are given, least significant first. -/
def ofLittleEndian : Bytes → Nat
  | [] => 0
  | byte :: rest => byte.toNat + 256 * ofLittleEndian rest

/-- The first `count` bytes and those after them, if there are that many. -/
def split? (count : Nat) (bytes : Bytes) : Option (Bytes × Bytes) :=
  if count ≤ bytes.length then some (bytes.take count, bytes.drop count) else none

/-- The bytes of `whole` in front of its ending `rest`. -/
def before (whole rest : Bytes) : Bytes :=
  whole.take (whole.length - rest.length)

/-- The UTF-8 form of a text. -/
def ofText (text : String) : Bytes :=
  text.toUTF8.data.toList

/-- The text whose UTF-8 form is given, if the bytes are well formed. -/
def toText? (bytes : Bytes) : Option String :=
  String.fromUTF8? ⟨bytes.toArray⟩

@[simp]
theorem length_littleEndian (width n : Nat) : (littleEndian width n).length = width := by
  induction width generalizing n with
  | zero => rfl
  | succ width ih => simp [littleEndian, ih]

theorem ofLittleEndian_littleEndian (width n : Nat) :
    ofLittleEndian (littleEndian width n) = n % Nat.pow 256 width := by
  induction width generalizing n with
  | zero => simp [littleEndian, ofLittleEndian, Nat.mod_one]
  | succ width ih =>
      have grow : Nat.pow 256 (width + 1) = 256 * Nat.pow 256 width := Nat.mul_comm _ _
      simp only [littleEndian, ofLittleEndian, ih, UInt8.toNat_ofNat', grow, Nat.mod_mul]

theorem littleEndian_ofLittleEndian (bytes : Bytes) :
    littleEndian bytes.length (ofLittleEndian bytes) = bytes := by
  induction bytes with
  | nil => rfl
  | cons byte bytes ih =>
      have := byte.toNat_lt
      have tail : (byte.toNat + 256 * ofLittleEndian bytes) / 256 = ofLittleEndian bytes := by
        omega
      have head : UInt8.ofNat (byte.toNat + 256 * ofLittleEndian bytes) = byte := by
        apply UInt8.toNat_inj.1
        rw [UInt8.toNat_ofNat']
        omega
      simp only [List.length_cons, ofLittleEndian, littleEndian, tail, head, ih]

theorem ofLittleEndian_lt (bytes : Bytes) :
    ofLittleEndian bytes < Nat.pow 256 bytes.length := by
  have same := ofLittleEndian_littleEndian bytes.length (ofLittleEndian bytes)
  rw [littleEndian_ofLittleEndian] at same
  rw [same]
  exact Nat.mod_lt _ (Nat.pow_pos (show 0 < 256 by decide))

@[simp]
theorem before_append (front rest : Bytes) : before (front ++ rest) rest = front := by
  simp [before]

@[simp]
theorem split?_append (front rest : Bytes) :
    split? front.length (front ++ rest) = some (front, rest) := by
  simp [split?]

theorem append_of_split? {count : Nat} {bytes front rest : Bytes}
    (h : split? count bytes = some (front, rest)) :
    front.length = count ∧ bytes = front ++ rest := by
  simp only [split?] at h
  split at h
  · next enough =>
      simp only [Option.some.injEq, Prod.mk.injEq] at h
      obtain ⟨rfl, rfl⟩ := h
      exact ⟨List.length_take_of_le enough, (List.take_append_drop count bytes).symm⟩
  · simp at h

/-! ## Text -/

theorem ofText_ofList (characters : List Char) :
    ofText (String.ofList characters) = characters.flatMap String.utf8EncodeChar := by
  simp [ofText, List.utf8Encode, String.toUTF8]

theorem toText?_ofText (text : String) : toText? (ofText text) = some text := by
  have same : toText? (ofText text) = String.fromUTF8? text.toByteArray := by
    simp [toText?, ofText, String.toUTF8]
  rw [same, String.fromUTF8?, dif_pos text.isValidUTF8]
  rfl

theorem toText?_eq_some_iff {bytes : Bytes} {text : String} :
    toText? bytes = some text ↔ bytes = ofText text := by
  constructor
  · intro h
    simp only [toText?, String.fromUTF8?] at h
    split at h
    · cases h
      simp [ofText, String.toUTF8, String.fromUTF8]
    · simp at h
  · rintro rfl
    exact toText?_ofText text

end Bytes

end ProtoWire
