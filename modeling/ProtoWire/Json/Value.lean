import ProtoWire.Order

/-!
# JSON values

An object is a list of members. In an object that comes from a text they are
sorted by name, and of members of one name only the last one written is there.
-/

set_option autoImplicit false

namespace ProtoWire

/-- A JSON value. -/
inductive Json where
  | null
  | bool (value : Bool)
  /-- A number written without fraction and exponent that fits 64 bits, signed or
  unsigned. -/
  | int (value : Int)
  /-- Any other number, as the bits of the nearest binary64 number. -/
  | float (bits : UInt64)
  | string (text : String)
  | array (items : List Json)
  | object (members : List (String × Json))
  deriving Inhabited

namespace Json

/-- Puts a member into members sorted by name, in place of one of that name. -/
def insertMember (name : String) (value : Json) : List (String × Json) → List (String × Json)
  | [] => [(name, value)]
  | (other, held) :: members =>
      if name < other then (name, value) :: (other, held) :: members
      else if name = other then (name, value) :: members
      else (other, held) :: insertMember name value members

/-- Members sorted by name, the last of each name. -/
def sortMembers (members : List (String × Json)) : List (String × Json) :=
  members.foldl (fun sorted member => insertMember member.1 member.2 sorted) []

/-- An object with sorted members. -/
def ofMembers (members : List (String × Json)) : Json :=
  .object (sortMembers members)

/-- The first member of a name. -/
def member? (json : Json) (name : String) : Option Json :=
  match json with
  | .object members => members.lookup name
  | _ => none

mutual

/-- How deeply arrays and objects nest in a value. -/
def depth : Json → Nat
  | .array items => itemsDepth items + 1
  | .object members => membersDepth members + 1
  | _ => 0

def itemsDepth : List Json → Nat
  | [] => 0
  | item :: items => max item.depth (itemsDepth items)

def membersDepth : List (String × Json) → Nat
  | [] => 0
  | member :: members => max (memberDepth member) (membersDepth members)

def memberDepth : String × Json → Nat
  | (_, value) => value.depth

end

end Json

end ProtoWire
