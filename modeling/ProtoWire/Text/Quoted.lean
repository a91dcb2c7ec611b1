import ProtoWire.Bytes.Hex
import ProtoWire.Text.Hidden

/-!
# Quoted text

Diagnostics quote texts and characters. The quote in use and the backslash are
escaped, four control characters have letters, and characters that would not be
seen are shown by number.
-/

set_option autoImplicit false

namespace ProtoWire.Text

/-- The number of a character in lower-case hexadecimal digits. -/
def numberEscape (c : Char) : List Char :=
  "\\u\x7b".toList ++ Nat.toDigits 16 c.toNat ++ ['\x7d']

/-- A character inside quotes of the given form. -/
def escape (quote c : Char) : List Char :=
  if c = '\x00' then ['\\', '0']
  else if c = '\t' then ['\\', 't']
  else if c = '\r' then ['\\', 'r']
  else if c = '\n' then ['\\', 'n']
  else if c = '\\' ∨ c = quote then ['\\', c]
  else if isHidden c then numberEscape c
  else [c]

/-- A text in double quotes. -/
def quoted (text : String) : String :=
  String.ofList ('"' :: text.toList.flatMap (escape '"') ++ ['"'])

/-- A character in single quotes. -/
def quotedChar (c : Char) : String :=
  String.ofList ('\'' :: escape '\'' c ++ ['\''])

end ProtoWire.Text

namespace ProtoWire

/-- The wording of a fault; a byte is shown as the character of its number. -/
def HexFault.message : HexFault → String
  | .oddLength => "Odd number of digits"
  | .notADigit byte position =>
      "Invalid character " ++ Text.quotedChar (Char.ofNat byte.toNat) ++ " at position " ++
        toString position

end ProtoWire
