import ProtoWire.Bytes.Basic

/-!
# Hexadecimal text

Bytes are shown as two lower-case digits each and read from digits of either
case. A text of odd length is refused before its digits are looked at; length
and positions count the bytes of the UTF-8 form.

The main statement is `ofHex_toHex`: what is shown reads back.
-/

set_option autoImplicit false

namespace ProtoWire

/-- Why a text is not a hexadecimal byte string. -/
inductive HexFault where
  /-- A digit has no partner. -/
  | oddLength
  /-- The byte at this position is not a digit. -/
  | notADigit (byte : UInt8) (position : Nat)
  deriving DecidableEq, Repr

namespace Bytes

/-- The digit for a number below sixteen. -/
def hexDigit (n : Nat) : Char :=
  if n < 10 then Char.ofNat (48 + n) else Char.ofNat (87 + n)

/-- Two lower-case digits for each byte, the high half first. -/
def toHexDigits (bytes : Bytes) : List Char :=
  bytes.flatMap fun byte => [hexDigit (byte.toNat / 16), hexDigit (byte.toNat % 16)]

/-- The hexadecimal text of a byte string. -/
def toHex (bytes : Bytes) : String :=
  String.ofList (toHexDigits bytes)

/-- The value of a digit of either case, given by its code. -/
def hexValue? (code : Nat) : Option Nat :=
  if 48 ≤ code ∧ code ≤ 57 then some (code - 48)
  else if 97 ≤ code ∧ code ≤ 102 then some (code - 87)
  else if 65 ≤ code ∧ code ≤ 70 then some (code - 55)
  else none

/-- Reads pairs of digits; the position is that of the first byte given. -/
def ofHexBytes (position : Nat) : Bytes → Except HexFault Bytes
  | [] => .ok []
  | [_] => .error .oddLength
  | high :: low :: rest =>
      match hexValue? high.toNat, hexValue? low.toNat with
      | none, _ => .error (.notADigit high position)
      | some _, none => .error (.notADigit low (position + 1))
      | some h, some l =>
          match ofHexBytes (position + 2) rest with
          | .ok bytes => .ok (UInt8.ofNat (16 * h + l) :: bytes)
          | .error fault => .error fault

/-- The byte string that a hexadecimal text shows. -/
def ofHex (text : String) : Except HexFault Bytes :=
  let bytes := ofText text
  if bytes.length % 2 = 1 then .error .oddLength else ofHexBytes 0 bytes

theorem hexValue?_hexDigit : ∀ n, n < 16 →
    String.utf8EncodeChar (hexDigit n) = [UInt8.ofNat (hexDigit n).toNat] ∧
      hexValue? (UInt8.ofNat (hexDigit n).toNat).toNat = some n := by
  decide

theorem length_toHexDigits (bytes : Bytes) : (toHexDigits bytes).length = 2 * bytes.length := by
  induction bytes with
  | nil => rfl
  | cons byte bytes ih =>
      simp only [toHexDigits] at ih
      simp [toHexDigits, ih]
      omega

theorem ofText_toHex (bytes : Bytes) :
    ofText (toHex bytes) = (toHexDigits bytes).map fun digit => UInt8.ofNat digit.toNat := by
  rw [toHex, ofText_ofList]
  induction bytes with
  | nil => rfl
  | cons byte bytes ih =>
      have high : byte.toNat / 16 < 16 := by
        have := byte.toNat_lt
        omega
      have low : byte.toNat % 16 < 16 := by omega
      simp only [toHexDigits] at ih
      simp only [toHexDigits, List.flatMap_cons, List.cons_append, List.nil_append,
        List.map_cons, (hexValue?_hexDigit _ high).1, (hexValue?_hexDigit _ low).1, ih]

theorem ofHexBytes_toHexDigits (position : Nat) (bytes : Bytes) :
    ofHexBytes position ((toHexDigits bytes).map fun digit => UInt8.ofNat digit.toNat) =
      .ok bytes := by
  induction bytes generalizing position with
  | nil => rfl
  | cons byte bytes ih =>
      have high : byte.toNat / 16 < 16 := by
        have := byte.toNat_lt
        omega
      have low : byte.toNat % 16 < 16 := by omega
      have rest := ih (position + 2)
      simp only [toHexDigits] at rest
      simp only [toHexDigits, List.flatMap_cons, List.cons_append, List.nil_append,
        List.map_cons, ofHexBytes, (hexValue?_hexDigit _ high).2, (hexValue?_hexDigit _ low).2,
        rest, Nat.div_add_mod, UInt8.ofNat_toNat]

/-- What is shown reads back. -/
theorem ofHex_toHex (bytes : Bytes) : ofHex (toHex bytes) = .ok bytes := by
  have even : ¬ (ofText (toHex bytes)).length % 2 = 1 := by
    rw [ofText_toHex, List.length_map, length_toHexDigits]
    omega
  simp only [ofHex, if_neg even]
  rw [ofText_toHex, ofHexBytes_toHexDigits]

end Bytes

end ProtoWire
