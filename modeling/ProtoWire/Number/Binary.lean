/-!
# Binary floating point on bit patterns

Finite numbers of a format are the multiples `significand * 2 ^ shift` of the
smallest positive one, its unit. The bits below the sign, read as a number, grow
with the magnitude, so one formula gives the bits of a significand and a shift
whether the number is normal or not.

Rounding takes a magnitude as a fraction of units to the nearest number of the
format, a tie to the one with an even significand.
-/

set_option autoImplicit false

namespace ProtoWire

/-- A binary interchange format. -/
structure BinaryFormat where
  /-- The bits of a significand, the leading one included. -/
  precision : Nat
  /-- The smallest positive number is two to the power minus this. -/
  unitExponent : Nat
  /-- The bits of the exponent. -/
  exponentBits : Nat
  deriving DecidableEq, Repr

namespace BinaryFormat

/-- The format of 32 bits. -/
def single : BinaryFormat :=
  ⟨24, 149, 8⟩

/-- The format of 64 bits. -/
def double : BinaryFormat :=
  ⟨53, 1074, 11⟩

/-- The bits of infinity. -/
def infinity (format : BinaryFormat) : Nat :=
  (Nat.pow 2 format.exponentBits - 1) * Nat.pow 2 (format.precision - 1)

/-- The sign bit. -/
def signBit (format : BinaryFormat) : Nat :=
  Nat.pow 2 (format.exponentBits + format.precision - 1)

/-- The bits of a magnitude given by a significand and a shift. -/
def pack (format : BinaryFormat) (significand shift : Nat) : Nat :=
  min (shift * Nat.pow 2 (format.precision - 1) + significand) format.infinity

/-- The significand and the shift of a finite magnitude. -/
def unpack (format : BinaryFormat) (bits : Nat) : Nat × Nat :=
  let high := Nat.pow 2 (format.precision - 1)
  if bits < high then (bits, 0) else (bits % high + high, bits / high - 1)

/-- Whether bits without a sign stand for a finite number. -/
def isFinite (format : BinaryFormat) (bits : Nat) : Bool :=
  bits < format.infinity

/-- The quotient rounded to the nearest number, a tie to the even one. -/
def divideToEven (numerator denominator : Nat) : Nat :=
  let quotient := numerator / denominator
  let twice := 2 * (numerator % denominator)
  if denominator < twice ∨ (denominator = twice ∧ quotient % 2 = 1) then quotient + 1
  else quotient

/-- The bits of the number nearest to a fraction of units. -/
def nearest (format : BinaryFormat) (numerator denominator : Nat) : Nat :=
  let whole := numerator / denominator
  let shift := whole.log2 + 1 - format.precision
  format.pack (divideToEven numerator (denominator * Nat.pow 2 shift)) shift

/-- The bits of the number nearest to a fraction. -/
def ofFraction (format : BinaryFormat) (negative : Bool) (numerator denominator : Nat) : Nat :=
  format.nearest (numerator * Nat.pow 2 format.unitExponent) denominator +
    (if negative then format.signBit else 0)

/-- The bits in another format of the nearest number there. Infinities stay
infinite, and what is not a number becomes infinite too. -/
def convert (source target : BinaryFormat) (bits : Nat) : Nat :=
  let magnitude := bits % source.signBit
  let sign := if source.signBit ≤ bits then target.signBit else 0
  if source.isFinite magnitude then
    let (significand, shift) := source.unpack magnitude
    target.nearest (significand * Nat.pow 2 (shift + target.unitExponent))
      (Nat.pow 2 source.unitExponent) + sign
  else target.infinity + sign

end BinaryFormat

end ProtoWire
