import ProtoWire.Json.Token

/-!
# Written JSON

A document as it is written: arrays and objects over scalars that have not been
given a meaning yet. The builder works through the tokens once and keeps the
arrays and objects that are still open in frames, so that a document may nest to
any depth.

The meaning of a document is a value; it has one if all its names and scalars
have one and it does not nest too deeply. A reader that passes over a part of a
document needs no meaning of that part.
-/

set_option autoImplicit false

namespace ProtoWire

/-- A document as it is written. -/
inductive Written where
  | scalar (scalar : Json.Scalar)
  | array (items : List Written)
  | object (members : List (List Json.Piece × Written))
  deriving Inhabited

namespace Written

open Json (Piece Token)

/-! ## From tokens -/

/-- An array or object that is still open; what is read of it is in reverse. -/
inductive Frame where
  | items (read : List Written)
  /-- The value of the member of this name is being read. -/
  | members (read : List (List Piece × Written)) (name : List Piece)

/-- What has to come next. -/
inductive Due where
  /-- A value. -/
  | value
  /-- The name of another member of an object. -/
  | name (read : List (List Piece × Written))
  /-- The colon behind a name. -/
  | colon (read : List (List Piece × Written)) (name : List Piece)
  /-- What may follow a value. -/
  | rest (value : Written)

/-- Builds a document from the tokens that are left, inside the frames that are
still open. Only what is empty may be closed where a value or a name is due. -/
def build : Due → List Frame → List Token → Option Written
  | .rest value, [], [] => some value
  | .value, outer, .scalar content :: tokens => build (.rest (.scalar content)) outer tokens
  | .value, outer, .openArray :: tokens => build .value (.items [] :: outer) tokens
  | .value, .items [] :: outer, .closeArray :: tokens => build (.rest (.array [])) outer tokens
  | .value, outer, .openObject :: tokens => build (.name []) outer tokens
  | .name [], outer, .closeObject :: tokens => build (.rest (.object [])) outer tokens
  | .name read, outer, .scalar (.string name) :: tokens => build (.colon read name) outer tokens
  | .colon read name, outer, .colon :: tokens => build .value (.members read name :: outer) tokens
  | .rest value, .items read :: outer, .comma :: tokens =>
      build .value (.items (value :: read) :: outer) tokens
  | .rest value, .items read :: outer, .closeArray :: tokens =>
      build (.rest (.array (value :: read).reverse)) outer tokens
  | .rest value, .members read name :: outer, .comma :: tokens =>
      build (.name ((name, value) :: read)) outer tokens
  | .rest value, .members read name :: outer, .closeObject :: tokens =>
      build (.rest (.object ((name, value) :: read).reverse)) outer tokens
  | _, _, _ => none

/-- The document that a text is. -/
def ofText? (text : String) : Option Written :=
  (Json.tokens? text).bind (build .value [])

/-! ## Meaning -/

mutual

/-- The value of a document that nests to the given depth at most. -/
def value? : Nat → Written → Option Json
  | _, .scalar content => content.value?
  | 0, .array _ => none
  | 0, .object _ => none
  | depth + 1, .array items => (itemValues? depth [] items).map .array
  | depth + 1, .object members => (memberValues? depth [] members).map .ofMembers

/-- The values of items, behind those given in reverse. -/
def itemValues? (depth : Nat) (read : List Json) : List Written → Option (List Json)
  | [] => some read.reverse
  | item :: items =>
      match item.value? depth with
      | some value => itemValues? depth (value :: read) items
      | none => none

/-- The values of members, behind those given in reverse. -/
def memberValues? (depth : Nat) (read : List (String × Json)) :
    List (List Piece × Written) → Option (List (String × Json))
  | [] => some read.reverse
  | member :: members =>
      match memberValue? depth member with
      | some member => memberValues? depth (member :: read) members
      | none => none

/-- The value of a member under its name. -/
def memberValue? (depth : Nat) : List Piece × Written → Option (String × Json)
  | (name, written) =>
      match Json.textOf? name, written.value? depth with
      | some name, some value => some (name, value)
      | _, _ => none

end

/-- The value of a scalar; arrays and objects are none. -/
def scalarValue? : Written → Option Json
  | .scalar content => content.value?
  | _ => none

/-- Members with their names as text. -/
def named? (members : List (List Piece × Written)) : Option (List (String × Written)) :=
  members.mapM fun member => (Json.textOf? member.1).map fun name => (name, member.2)

end Written

namespace Json

/-- How deeply arrays and objects may nest in a document. -/
def maxDepth : Nat := 127

/-- The value of a text in which arrays and objects nest to the given depth. -/
def parseWithin (depth : Nat) (text : String) : Option Json :=
  (Written.ofText? text).bind (Written.value? depth)

/-- The value of a text. -/
def parse (text : String) : Option Json :=
  parseWithin maxDepth text

end Json

end ProtoWire
