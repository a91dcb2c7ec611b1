import ProtoWire.Bytes.Hex
import ProtoWire.Json.Value
import ProtoWire.Number.Decimal

/-!
# Printing JSON

The compact form has no spaces; the wide form puts each item and member on a
line of its own, two spaces further in for each level.
-/

set_option autoImplicit false

namespace ProtoWire.Json

/-- Numbers have the fewest digits that read back, and an exponent when the
leading digit is worth less than a hundred-thousandth or from ten to the power
of sixteen on. -/
def floatStyle : FloatStyle :=
  ⟨.toEven, -5, 16, "e+"⟩

/-- A number; what is not finite is printed as `null`. -/
def floatText (bits : Nat) : String :=
  if BinaryFormat.double.isFinite (bits % BinaryFormat.double.signBit) then
    floatStyle.finiteText .double bits
  else "null"

/-- A character inside quotes. -/
def escape (c : Char) : List Char :=
  if c = '"' then ['\\', '"']
  else if c = '\\' then ['\\', '\\']
  else if c = '\x08' then ['\\', 'b']
  else if c = '\x0c' then ['\\', 'f']
  else if c = '\n' then ['\\', 'n']
  else if c = '\r' then ['\\', 'r']
  else if c = '\t' then ['\\', 't']
  else if c.toNat < 0x20 then
    ['\\', 'u', '0', '0', Bytes.hexDigit (c.toNat / 16), Bytes.hexDigit (c.toNat % 16)]
  else [c]

/-- A text in quotes. -/
def quote (text : String) : String :=
  String.ofList ('"' :: text.toList.flatMap escape ++ ['"'])

mutual

/-- The compact form of a value. -/
def compact : Json → String
  | .null => "null"
  | .bool true => "true"
  | .bool false => "false"
  | .int value => toString value
  | .float bits => floatText bits.toNat
  | .string text => quote text
  | .array items => "[" ++ compactItems items ++ "]"
  | .object members => "\x7b" ++ compactMembers members ++ "\x7d"

def compactItems : List Json → String
  | [] => ""
  | item :: items =>
      compact item ++ (if items.isEmpty then "" else ",") ++ compactItems items

def compactMembers : List (String × Json) → String
  | [] => ""
  | member :: members =>
      compactMember member ++ (if members.isEmpty then "" else ",") ++ compactMembers members

def compactMember : String × Json → String
  | (name, value) => quote name ++ ":" ++ compact value

end

/-- The start of a line at a level. -/
def indent (level : Nat) : String :=
  "".pushn ' ' (2 * level)

mutual

/-- The wide form of a value that starts at a level. -/
def wide (level : Nat) : Json → String
  | .null => "null"
  | .bool true => "true"
  | .bool false => "false"
  | .int value => toString value
  | .float bits => floatText bits.toNat
  | .string text => quote text
  | .array items =>
      if items.isEmpty then "[]"
      else "[\n" ++ wideItems (level + 1) items ++ indent level ++ "]"
  | .object members =>
      if members.isEmpty then "\x7b\x7d"
      else "\x7b\n" ++ wideMembers (level + 1) members ++ indent level ++ "\x7d"

def wideItems (level : Nat) : List Json → String
  | [] => ""
  | item :: items =>
      indent level ++ wide level item ++ (if items.isEmpty then "\n" else ",\n") ++
        wideItems level items

def wideMembers (level : Nat) : List (String × Json) → String
  | [] => ""
  | member :: members =>
      indent level ++ wideMember level member ++ (if members.isEmpty then "\n" else ",\n") ++
        wideMembers level members

def wideMember (level : Nat) : String × Json → String
  | (name, value) => quote name ++ ": " ++ wide level value

end

end ProtoWire.Json
