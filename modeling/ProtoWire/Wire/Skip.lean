import ProtoWire.Wire.Payload

/-!
# Skipping values

Without a schema, the value after a tag can still be passed over: a payload by
its wire type, a group by passing over its records up to the end tag of the same
number. Each open group uses up one level of a nesting budget.
-/

set_option autoImplicit false

namespace ProtoWire

/-- How deeply messages and groups may nest. -/
def maxNesting : Nat := 100

/-- Passes over the records of the open group `number`, using `skip` for their
values, and returns what follows the end tag. No more records are read than
`limit`, which is the length of the input in use. -/
def skipGroup (skip : Nat → WireType → Bytes → Except Malformed Bytes) (number : Nat) :
    Nat → Bytes → Except Malformed Bytes
  | _, [] => .error ((Malformed.here .unterminatedGroup).under (.field number))
  | 0, _ => .error ((Malformed.here .unterminatedGroup).under (.field number))
  | limit + 1, byte :: bytes =>
      match Tag.read (byte :: bytes) with
      | .error fault => .error (.here fault)
      | .ok (inner, .endGroup, rest) =>
          if inner = number then .ok rest
          else .error ((Malformed.here .unexpectedEndGroup).under (.field inner))
      | .ok (inner, wire, rest) =>
          match skip inner wire rest with
          | .error error => .error (error.under (.field number))
          | .ok rest' => skipGroup skip number limit rest'

/-- Passes over the value of a record whose tag was just read, with `depth`
levels of groups still allowed. -/
def skipValue : Nat → Nat → WireType → Bytes → Except Malformed Bytes
  | depth, number, .startGroup, bytes =>
      match depth with
      | 0 => .error ((Malformed.here .tooDeep).under (.field number))
      | depth + 1 => skipGroup (skipValue depth) number bytes.length bytes
  | _, number, .endGroup, _ =>
      .error ((Malformed.here .unexpectedEndGroup).under (.field number))
  | _, _, wire, bytes =>
      match Payload.read wire bytes with
      | .error fault => .error (.here fault)
      | .ok (_, rest) => .ok rest

end ProtoWire
