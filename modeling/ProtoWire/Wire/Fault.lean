/-!
# Paths and malformed input

An error inside a message carries the path that leads to it: field numbers and
positions in repeated fields, outermost first.
-/

set_option autoImplicit false

namespace ProtoWire

/-- One step from a message towards a value inside it. -/
inductive PathStep where
  /-- Into the field or extension of this number. -/
  | field (number : Nat)
  /-- To this position of a repeated field. -/
  | index (position : Nat)
  deriving DecidableEq, Repr

/-- Where an error happened, outermost step first. -/
abbrev Path := List PathStep

/-- A field step is a dot and the number, a position stands in brackets. -/
def PathStep.text : PathStep → String
  | .field number => "." ++ toString number
  | .index position => "[" ++ toString position ++ "]"

/-- The steps one after the other, such as `.2.1[0].5`. -/
def Path.text (path : Path) : String :=
  String.join (path.map PathStep.text)

/-- What is wrong with a byte string that should be a message. -/
inductive InputFault where
  /-- A word is cut off, or has more than 64 bits. -/
  | invalidVarint
  /-- The wire type is six or seven. -/
  | invalidWireType
  /-- The field number is zero or too large. -/
  | invalidFieldNumber
  /-- Fewer bytes are left than the value needs. -/
  | truncated
  /-- The wire type announces a group where a plain value is read. -/
  | unexpectedWireType
  /-- A group ends that is not the innermost open one. -/
  | unexpectedEndGroup
  /-- The input ends inside a group. -/
  | unterminatedGroup
  /-- A text is not UTF-8. -/
  | invalidUtf8
  /-- Messages and groups nest too deeply. -/
  | tooDeep
  /-- An item of a message set names an extension that is not a message. -/
  | itemNotMessage
  /-- The table of a nested message type cannot be built. -/
  | nestedTable
  deriving DecidableEq, Repr

/-- The wording of a fault. -/
def InputFault.message : InputFault → String
  | .invalidVarint => "Invalid varint"
  | .invalidWireType => "Invalid wire type"
  | .invalidFieldNumber => "Invalid field number"
  | .truncated => "Truncated input"
  | .unexpectedWireType => "Unexpected wire type"
  | .unexpectedEndGroup => "Unexpected end of group"
  | .unterminatedGroup => "Unterminated group"
  | .invalidUtf8 => "String is not valid UTF-8"
  | .tooDeep => "Exceeded maximum nesting depth"
  | .itemNotMessage => "Message set item is not a message"
  | .nestedTable => "Nested message type has no coder table"

/-- A fault together with the place it was found at. -/
structure Malformed where
  fault : InputFault
  path : Path
  deriving DecidableEq, Repr

namespace Malformed

/-- A fault of the message at hand, in no particular field. -/
def here (fault : InputFault) : Malformed :=
  ⟨fault, []⟩

/-- The same error seen from one level further out. -/
def under (step : PathStep) (error : Malformed) : Malformed :=
  { error with path := step :: error.path }

/-- The wording of the error, its path included. -/
def message (error : Malformed) : String :=
  "Malformed input (" ++ error.path.text ++ "): " ++ error.fault.message

end Malformed

end ProtoWire
