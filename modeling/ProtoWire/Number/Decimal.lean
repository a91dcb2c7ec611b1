import ProtoWire.Number.Binary

/-!
# Decimal numbers

A decimal number is a natural number times a power of ten. This module reads the
binary number nearest to a decimal one, and finds the decimal number of fewest
digits that reads back as a given binary one.
-/

set_option autoImplicit false

namespace ProtoWire

/-- The magnitude `digits * 10 ^ exponent`. -/
structure Decimal where
  digits : Nat
  exponent : Int
  deriving DecidableEq, Repr

namespace Decimal

/-- The decimal digits of a number, most significant first. -/
def digitsOf (n : Nat) : List Char :=
  Nat.toDigits 10 n

/-- The number of decimal digits of a number; zero has one. -/
def digitCount (n : Nat) : Nat :=
  (digitsOf n).length

/-- A power of ten as a fraction. -/
def powerOfTen (exponent : Int) : Nat × Nat :=
  if 0 ≤ exponent then (Nat.pow 10 exponent.toNat, 1) else (1, Nat.pow 10 (-exponent).toNat)

/-- The bits of the binary64 number nearest to a decimal number. Beyond the
first and below the second bound every number is rounded to infinity and to
zero, so that no needless power is computed. -/
def toDouble (negative : Bool) (decimal : Decimal) : Nat :=
  let sign := if negative then BinaryFormat.double.signBit else 0
  let leading := decimal.exponent + digitCount decimal.digits
  if decimal.digits = 0 ∨ leading < -330 then sign
  else if 330 < leading then BinaryFormat.double.infinity + sign
  else
    let power := powerOfTen decimal.exponent
    BinaryFormat.double.ofFraction negative (decimal.digits * power.1) power.2

/-- Which way a value goes that lies halfway between the two candidates of fewest
digits. -/
inductive Tie where
  /-- To the candidate with an even last digit. -/
  | toEven
  /-- To the larger candidate. -/
  | up
  deriving DecidableEq, Repr

/-- The magnitudes that read as one number, between two bounds in common units;
whether the bounds themselves are among them is noted too. -/
structure Span where
  value : Nat
  low : Nat
  high : Nat
  closed : Bool
  /-- Units that make one. -/
  one : Nat
  deriving DecidableEq, Repr

/-- The span of a finite positive number, in quarters of the unit of the format:
halfway to the neighbour on either side. Below a power of two the neighbour is
half as far away. -/
def Span.ofBits (format : BinaryFormat) (bits : Nat) : Span :=
  let (significand, shift) := format.unpack bits
  let step := Nat.pow 2 shift
  let isPower := significand = Nat.pow 2 (format.precision - 1) ∧ 0 < shift
  { value := 4 * significand * step
    low := 4 * significand * step - (if isPower then step else 2 * step)
    high := 4 * significand * step + 2 * step
    closed := significand % 2 = 0
    one := Nat.pow 2 (format.unitExponent + 2) }

/-- Whether a multiple of `numerator / denominator` ones lies in a span. -/
def Span.holds (span : Span) (power : Nat × Nat) (multiple : Nat) : Bool :=
  let point := multiple * power.1 * span.one
  let low := span.low * power.2
  let high := span.high * power.2
  if span.closed then low ≤ point && point ≤ high else low < point && point < high

/-- The nearest multiple of a power of ten in a span, out of the two next to the
value, if one of them lies there. -/
def Span.nearestMultiple? (span : Span) (tie : Tie) (exponent : Int) : Option Nat :=
  let power := powerOfTen exponent
  let scaled := span.value * power.2
  let step := power.1 * span.one
  let below := scaled / step
  match span.holds power below, span.holds power (below + 1) with
  | false, false => none
  | true, false => some below
  | false, true => some (below + 1)
  | true, true =>
      let twice := 2 * (scaled - below * step)
      if twice < step then some below
      else if step < twice then some (below + 1)
      else if tie = .up ∨ below % 2 = 1 then some (below + 1)
      else some below

/-- The exponent of the leading decimal digit of a positive value below one, in
`one` units, counted from the given exponent downwards; `limit` bounds the count. -/
def leadingBelow (one : Nat) : Nat → Int → Nat → Int
  | 0, exponent, _ => exponent
  | limit + 1, exponent, value =>
      if one ≤ value then exponent else leadingBelow one limit (exponent - 1) (value * 10)

/-- The exponent of the leading decimal digit of a span's value. -/
def Span.leading (span : Span) : Int :=
  if span.one ≤ span.value then (digitCount (span.value / span.one) : Int) - 1
  else leadingBelow span.one 400 0 span.value

/-- Tries ever finer powers of ten until one has a multiple in the span. -/
def Span.search (span : Span) (tie : Tie) : Nat → Int → Decimal
  | 0, exponent => ⟨0, exponent⟩
  | limit + 1, exponent =>
      match span.nearestMultiple? tie exponent with
      | some digits => ⟨digits, exponent⟩
      | none => search span tie limit (exponent - 1)

/-- Takes zeros off the end of the digits. -/
def dropZeros : Nat → Decimal → Decimal
  | 0, decimal => decimal
  | limit + 1, decimal =>
      if decimal.digits ≠ 0 ∧ decimal.digits % 10 = 0 then
        dropZeros limit ⟨decimal.digits / 10, decimal.exponent + 1⟩
      else decimal

/-- The decimal number of fewest digits that reads back as the given finite
positive number, and the nearest of those. Seventeen digits are always enough. -/
def shortest (format : BinaryFormat) (tie : Tie) (bits : Nat) : Decimal :=
  let span := Span.ofBits format bits
  dropZeros 20 (span.search tie 20 span.leading)

/-- The exponent of the leading digit. -/
def leading (decimal : Decimal) : Int :=
  decimal.exponent + digitCount decimal.digits - 1

end Decimal

/-- How floating-point numbers are spelled. -/
structure FloatStyle where
  tie : Decimal.Tie
  /-- Numbers whose leading digit has an exponent from this one on are written
  out without an exponent, -/
  positionalFrom : Int
  /-- up to but not this one. -/
  positionalTo : Int
  /-- What stands between the digits and a positive exponent. -/
  positiveMark : String

namespace FloatStyle

/-- Digits around a decimal point; at least one digit stands on either side. -/
def positional (decimal : Decimal) : String :=
  let digits := Decimal.digitsOf decimal.digits
  if 0 ≤ decimal.exponent then
    String.ofList (digits ++ List.replicate decimal.exponent.toNat '0') ++ ".0"
  else
    let places := (-decimal.exponent).toNat
    let padded := List.replicate (places + 1 - digits.length) '0' ++ digits
    String.ofList (padded.take (padded.length - places)) ++ "." ++
      String.ofList (padded.drop (padded.length - places))

/-- One digit, the others behind a point, and an exponent. -/
def scientific (style : FloatStyle) (decimal : Decimal) : String :=
  let exponent := decimal.leading
  let mark :=
    if exponent < 0 then "e-" ++ toString exponent.natAbs
    else style.positiveMark ++ toString exponent.natAbs
  match Decimal.digitsOf decimal.digits with
  | [] => mark
  | [digit] => String.ofList [digit] ++ mark
  | digit :: digits => String.ofList (digit :: '.' :: digits) ++ mark

/-- A finite number. -/
def finiteText (style : FloatStyle) (format : BinaryFormat) (bits : Nat) : String :=
  let magnitude := bits % format.signBit
  let sign := if format.signBit ≤ bits then "-" else ""
  if magnitude = 0 then sign ++ "0.0"
  else
    let decimal := Decimal.shortest format style.tie magnitude
    let exponent := decimal.leading
    sign ++
      (if style.positionalFrom ≤ exponent ∧ exponent < style.positionalTo then
        positional decimal
      else style.scientific decimal)

end FloatStyle

end ProtoWire
