import ProtoWire.Message.Basic
import ProtoWire.Number.Decimal
import ProtoWire.Text.Quoted

/-!
# Diagnostic text

A message is shown as the name of its type and, in braces, its set fields in
order of declaration, its extensions, and its unknown bytes if there are any. A
value is shown under the name of its variant.
-/

set_option autoImplicit false

namespace ProtoWire.Diagnostic

/-- Numbers have the fewest digits that read back, and an exponent when the
leading digit is worth less than a ten-thousandth or from ten to the power of
sixteen on. -/
def floatStyle : FloatStyle :=
  ⟨.up, -4, 16, "e"⟩

/-- A floating-point number. -/
def floatText (format : BinaryFormat) (bits : Nat) : String :=
  let magnitude := bits % format.signBit
  if format.isFinite magnitude then floatStyle.finiteText format bits
  else if format.infinity < magnitude then "NaN"
  else if format.signBit ≤ bits then "-inf"
  else "inf"

/-- Texts in brackets, with commas between them. -/
def bracketed (texts : List String) : String :=
  "[" ++ ", ".intercalate texts ++ "]"

/-- A name and what it is applied to. -/
def applied (name text : String) : String :=
  name ++ "(" ++ text ++ ")"

/-- Bytes as a list of numbers. -/
def bytesText (bytes : Bytes) : String :=
  bracketed (bytes.map fun byte => toString byte.toNat)

/-- A name and its fields in braces; without fields, the name alone. -/
def record (name : String) (fields : List (String × String)) : String :=
  if fields.isEmpty then name
  else
    name ++ " \x7b " ++
      ", ".intercalate (fields.map fun field => field.1 ++ ": " ++ field.2) ++ " \x7d"

mutual

/-- A value under the name of its variant. -/
def valueText : Value → String
  | .bool value => applied "Bool" (if value then "true" else "false")
  | .int32 value => applied "I32" (toString value.toInt)
  | .int64 value => applied "I64" (toString value.toInt)
  | .uint32 value => applied "U32" (toString value.toNat)
  | .uint64 value => applied "U64" (toString value.toNat)
  | .single bits => applied "F32" (floatText .single bits.toNat)
  | .double bits => applied "F64" (floatText .double bits.toNat)
  | .enum value => applied "Enum" (toString value.toInt)
  | .string text => applied "String" (Text.quoted text)
  | .bytes content => applied "Bytes" (bytesText content)
  | .message inner => applied "Message" (messageText inner)
  | .list items => applied "List" (bracketed (itemTexts items))

/-- A message with its set fields. -/
def messageText : MessageOf Value → String
  | ⟨type, slots, _, unknown, extensions⟩ =>
      let fields := (type.fields.zip (slotTexts slots)).filterMap fun entry =>
        entry.2.map fun text => (entry.1.name, text)
      let rest :=
        match unknown with
        | some (byte :: bytes) => [("unknown_fields", bytesText (byte :: bytes))]
        | _ => []
      record type.fullName (fields ++ extensionTexts extensions ++ rest)

def itemTexts : List Value → List String
  | [] => []
  | item :: items => valueText item :: itemTexts items

def slotTexts : List (Option Value) → List (Option String)
  | [] => []
  | slot :: slots => slotText slot :: slotTexts slots

def slotText : Option Value → Option String
  | none => none
  | some value => some (valueText value)

def extensionTexts : Option (List (AttachedOf Value)) → List (String × String)
  | none => []
  | some entries => attachedTexts entries

def attachedTexts : List (AttachedOf Value) → List (String × String)
  | [] => []
  | entry :: entries => entryText entry :: attachedTexts entries

def entryText : AttachedOf Value → String × String
  | ⟨type, value⟩ => (type.fullName, valueText value)

end

/-- An attached extension: its full name applied to its value. A value without
a name is shown as a sequence of one. -/
def attachedText (entry : Attached) : String :=
  if entry.type.fullName = "" then "(" ++ valueText entry.value ++ ",)"
  else applied entry.type.fullName (valueText entry.value)

end ProtoWire.Diagnostic
