import ProtoWire.Message.Access
import ProtoWire.Number.Binary

/-!
# Equality of messages

Two messages are equal if they are of one type and agree in their fields, their
unknown bytes and their extensions, whatever the order in which extensions were
attached. Size caches do not count. Floating-point values compare as numbers, so
zeros of either sign agree and what is not a number differs from everything.
-/

set_option autoImplicit false

namespace ProtoWire

/-- Equality of the numbers that two bit patterns stand for. -/
def BinaryFormat.numberEq (format : BinaryFormat) (a b : Nat) : Bool :=
  let x := a % format.signBit
  let y := b % format.signBit
  x ≤ format.infinity && y ≤ format.infinity && (a == b || (x == 0 && y == 0))

/-- Whether two optional values are both absent or agree. -/
def optionEq {α : Type} (eq : α → α → Bool) : Option α → Option α → Bool
  | none, none => true
  | some x, some y => eq x y
  | _, _ => false

/-- Whether two lists have one length and agree place by place. -/
def listEq {α : Type} (eq : α → α → Bool) : List α → List α → Bool
  | [], [] => true
  | x :: xs, y :: ys => eq x y && listEq eq xs ys
  | _, _ => false

/-- Whether two lists of extensions hold the same numbers with extensions of one
name and agreeing values. -/
def attachedEq {V : Type} (eq : V → V → Bool) (xs ys : List (AttachedOf V)) : Bool :=
  xs.length == ys.length &&
    xs.all fun x =>
      match ys.find? fun y => y.type.number == x.type.number with
      | some y => x.type.fullName == y.type.fullName && eq x.value y.value
      | none => false

/-- Equality of messages, given that of values. -/
def MessageOf.eqBy {V : Type} (eq : V → V → Bool) (x y : MessageOf V) : Bool :=
  decide (x.type = y.type) && listEq (optionEq eq) x.slots y.slots &&
    x.unknown == y.unknown && optionEq (attachedEq eq) x.extensions y.extensions

/-- Equality of values. The number bounds how deeply they nest. -/
def Value.eqAt (depth : Nat) (x y : Value) : Bool :=
  match x, y with
  | .bool a, .bool b => a == b
  | .int32 a, .int32 b => a == b
  | .int64 a, .int64 b => a == b
  | .uint32 a, .uint32 b => a == b
  | .uint64 a, .uint64 b => a == b
  | .single a, .single b => BinaryFormat.single.numberEq a.toNat b.toNat
  | .double a, .double b => BinaryFormat.double.numberEq a.toNat b.toNat
  | .enum a, .enum b => a == b
  | .string a, .string b => a == b
  | .bytes a, .bytes b => a == b
  | .message a, .message b =>
      match depth with
      | 0 => false
      | depth + 1 => a.eqBy (eqAt depth) b
  | .list a, .list b =>
      match depth with
      | 0 => false
      | depth + 1 => listEq (eqAt depth) a b
  | _, _ => false

/-- Equality of messages. -/
def MessageOf.eq (x y : Message) : Bool :=
  x.eqBy (Value.eqAt x.height) y

end ProtoWire
