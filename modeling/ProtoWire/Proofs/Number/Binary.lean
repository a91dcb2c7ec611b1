import Mathlib.Algebra.Group.Nat.Defs
import ProtoWire.Number.Binary

/-!
# Exact conversions

A finite number is the nearest one to itself (`BinaryFormat.nearest_units`), and a number of units
that a format can hold exactly is rounded to nothing else (`BinaryFormat.units_nearest`). So nothing
is lost when a number of 32 bits is widened to 64 bits and narrowed again
(`BinaryFormat.convert_convert`). A number that is small enough is not rounded to infinity
(`BinaryFormat.nearest_lt_infinity`).
-/

set_option autoImplicit false

namespace ProtoWire.BinaryFormat

variable {format : BinaryFormat} {bits : Nat}

/-- The magnitude of a finite number as a multiple of the smallest positive one. -/
def units (format : BinaryFormat) (bits : Nat) : Nat :=
  (format.unpack bits).1 * 2 ^ (format.unpack bits).2

/-- The bits stand for a finite number, of either sign. -/
def Finite (format : BinaryFormat) (bits : Nat) : Prop :=
  format.isFinite (bits % format.signBit) = true

theorem finite_iff : format.Finite bits ↔ bits % format.signBit < format.infinity := by
  simp [Finite, isFinite]

theorem divideToEven_mul {denominator : Nat} (pos : 0 < denominator) (quotient : Nat) :
    divideToEven (quotient * denominator) denominator = quotient := by
  have whole : quotient * denominator / denominator = quotient := Nat.mul_div_left _ pos
  rw [divideToEven, Nat.mul_mod_left, whole]
  simp only [Nat.mul_zero]
  rw [if_neg]
  omega

/-! ## Significands and shifts -/

theorem unpack_small {significand : Nat} (small : significand < 2 ^ (format.precision - 1)) :
    format.unpack significand = (significand, 0) := by
  simp only [unpack, Nat.pow_eq]
  rw [if_pos small]

theorem unpack_large {significand : Nat} (large : 2 ^ (format.precision - 1) ≤ significand)
    (small : significand < 2 * 2 ^ (format.precision - 1)) (shift : Nat) :
    format.unpack (shift * 2 ^ (format.precision - 1) + significand) = (significand, shift) := by
  simp only [unpack, Nat.pow_eq]
  generalize 2 ^ (format.precision - 1) = high at large small
  obtain ⟨low, rfl⟩ := Nat.exists_eq_add_of_le large
  have less : low < high := by omega
  have bits : shift * high + (high + low) = low + (shift + 1) * high := by
    rw [Nat.succ_mul]
    omega
  rw [if_neg (by omega), bits, Nat.add_mul_mod_self_right, Nat.mod_eq_of_lt less,
    Nat.add_mul_div_right _ _ (by omega), Nat.div_eq_of_lt less, Nat.add_comm low high]
  simp

/-- Bits are a small significand, or a large one and a shift. -/
theorem cases_bits (format : BinaryFormat) (bits : Nat) :
    bits < 2 ^ (format.precision - 1) ∨
      ∃ significand shift, 2 ^ (format.precision - 1) ≤ significand ∧
        significand < 2 * 2 ^ (format.precision - 1) ∧
        bits = shift * 2 ^ (format.precision - 1) + significand := by
  have pos : 0 < 2 ^ (format.precision - 1) := Nat.two_pow_pos _
  generalize 2 ^ (format.precision - 1) = high at pos
  by_cases small : bits < high
  · exact .inl small
  · refine .inr ⟨bits % high + high, bits / high - 1, by omega, ?_, ?_⟩
    · have := Nat.mod_lt bits pos
      omega
    · have one : 1 ≤ bits / high := (Nat.le_div_iff_mul_le pos).2 (by omega)
      obtain ⟨quotient, eq⟩ := Nat.exists_eq_add_of_le one
      have split := Nat.div_add_mod bits high
      rw [eq, Nat.mul_add, Nat.mul_one, Nat.mul_comm] at split
      rw [eq, Nat.add_sub_cancel_left]
      omega

/-! ## Rounding what is exact -/

/-- Rounding a whole number of units that its shift divides. -/
theorem nearest_of_eq {significand shift denominator : Nat} (pos : 0 < denominator)
    (eq : (significand * 2 ^ shift).log2 + 1 - format.precision = shift) :
    format.nearest (significand * 2 ^ shift * denominator) denominator =
      format.pack significand shift := by
  have whole : significand * 2 ^ shift * denominator / denominator = significand * 2 ^ shift :=
    Nat.mul_div_left _ pos
  have product : significand * 2 ^ shift * denominator =
      significand * (denominator * 2 ^ shift) := by
    rw [Nat.mul_assoc, Nat.mul_comm (2 ^ shift)]
  simp only [nearest, Nat.pow_eq, whole, eq]
  rw [product, divideToEven_mul (Nat.mul_pos pos (Nat.two_pow_pos shift))]

/-- A finite number is the nearest one to itself. -/
theorem nearest_units (precise : 0 < format.precision) (finite : bits < format.infinity)
    {denominator : Nat} (pos : 0 < denominator) :
    format.nearest (format.units bits * denominator) denominator = bits := by
  rcases format.cases_bits bits with small | ⟨significand, shift, large, small, rfl⟩
  · have shift : (bits * 2 ^ 0).log2 + 1 - format.precision = 0 := by
      rw [Nat.pow_zero, Nat.mul_one]
      by_cases zero : bits = 0
      · rw [zero, Nat.log2_zero]
        omega
      · have := (Nat.log2_lt zero).2 small
        omega
    rw [units, unpack_small small, nearest_of_eq pos shift]
    simp only [pack, Nat.zero_mul, Nat.zero_add]
    omega
  · have shift' : (significand * 2 ^ shift).log2 + 1 - format.precision = shift := by
      have bounds : (significand * 2 ^ shift).log2 = format.precision - 1 + shift := by
        have nonzero : significand * 2 ^ shift ≠ 0 := by
          have := Nat.two_pow_pos (format.precision - 1)
          have := Nat.mul_pos (show 0 < significand by omega) (Nat.two_pow_pos shift)
          omega
        rw [Nat.log2_eq_iff nonzero, Nat.pow_add, Nat.add_right_comm, Nat.pow_add, Nat.pow_succ']
        exact ⟨Nat.mul_le_mul_right _ large,
          (Nat.mul_lt_mul_right (Nat.two_pow_pos shift)).2 small⟩
      omega
    rw [units, unpack_large large small, nearest_of_eq pos shift']
    simp only [pack, Nat.pow_eq]
    omega

/-- The bits of a significand and a shift stand for their product, if the exponent can hold the
shift. -/
theorem units_pack (precise : 0 < format.precision) {significand shift : Nat}
    (fits : significand < 2 ^ format.precision)
    (large : shift = 0 ∨ 2 ^ (format.precision - 1) ≤ significand)
    (range : shift + 3 ≤ 2 ^ format.exponentBits) :
    format.pack significand shift < format.infinity ∧
      format.units (format.pack significand shift) = significand * 2 ^ shift := by
  have double : 2 ^ format.precision = 2 * 2 ^ (format.precision - 1) := by
    rw [← Nat.pow_succ', Nat.succ_eq_add_one, Nat.sub_add_cancel precise]
  rw [double] at fits
  have finite : shift * 2 ^ (format.precision - 1) + significand < format.infinity := by
    have room : (shift + 2) * 2 ^ (format.precision - 1) ≤ format.infinity := by
      simp only [infinity, Nat.pow_eq]
      exact Nat.mul_le_mul_right _ (by omega)
    rw [Nat.add_mul] at room
    omega
  have packed : format.pack significand shift =
      shift * 2 ^ (format.precision - 1) + significand := by
    simp only [pack, Nat.pow_eq]
    omega
  refine ⟨by rw [packed]; exact finite, ?_⟩
  rw [packed, units]
  by_cases small : significand < 2 ^ (format.precision - 1)
  · have none : shift = 0 := by omega
    rw [none, Nat.zero_mul, Nat.zero_add, unpack_small small]
  · rw [unpack_large (by omega) fits]

/-- A number of units that the significand and the exponent of a format can hold is not changed by
rounding. -/
theorem units_nearest (precise : 0 < format.precision)
    {significand exponent denominator limit : Nat} (fits : significand < 2 ^ format.precision)
    (pos : 0 < denominator)
    (bounded : significand * 2 ^ exponent < 2 ^ (limit + format.precision))
    (range : limit + 3 ≤ 2 ^ format.exponentBits) :
    format.nearest (significand * 2 ^ exponent * denominator) denominator < format.infinity ∧
      format.units (format.nearest (significand * 2 ^ exponent * denominator) denominator) =
        significand * 2 ^ exponent := by
  by_cases zero : significand = 0
  · have shift : (0 * 2 ^ 0).log2 + 1 - format.precision = 0 := by
      rw [Nat.zero_mul, Nat.log2_zero]
      omega
    have same : significand * 2 ^ exponent = 0 * 2 ^ 0 := by rw [zero, Nat.zero_mul, Nat.zero_mul]
    rw [same, nearest_of_eq pos shift]
    exact units_pack precise (Nat.two_pow_pos _) (.inl rfl) (by omega)
  · have nonzero : significand * 2 ^ exponent ≠ 0 :=
      Nat.mul_ne_zero zero (Nat.ne_of_gt (Nat.two_pow_pos exponent))
    have length : significand.log2 < format.precision := (Nat.log2_lt zero).2 fits
    have log : (significand * 2 ^ exponent).log2 = significand.log2 + exponent := by
      rw [Nat.log2_eq_iff nonzero, Nat.pow_add, Nat.add_right_comm, Nat.pow_add]
      exact ⟨Nat.mul_le_mul_right _ (Nat.log2_self_le zero),
        (Nat.mul_lt_mul_right (Nat.two_pow_pos exponent)).2 Nat.lt_log2_self⟩
    -- the number is divided by what its shift makes of it without a remainder
    obtain ⟨rest, split⟩ : ∃ rest,
        exponent = rest + (significand.log2 + exponent + 1 - format.precision) :=
      ⟨exponent - (significand.log2 + exponent + 1 - format.precision), by omega⟩
    generalize shifts : significand.log2 + exponent + 1 - format.precision = shift at split
    have same : significand * 2 ^ exponent = significand * 2 ^ rest * 2 ^ shift := by
      rw [split, Nat.pow_add, Nat.mul_assoc]
    rw [same] at log bounded nonzero ⊢
    rw [nearest_of_eq pos (by rw [log, shifts])]
    have least := Nat.log2_self_le nonzero
    have most : significand * 2 ^ rest * 2 ^ shift < 2 ^ (format.precision + shift) :=
      Nat.lt_of_lt_of_le Nat.lt_log2_self (Nat.pow_le_pow_right (by decide) (by omega))
    have within := (Nat.log2_lt nonzero).2 bounded
    apply units_pack precise
    · rw [Nat.pow_add] at most
      exact Nat.lt_of_mul_lt_mul_right most
    · by_cases none : shift = 0
      · exact .inl none
      · right
        have top : (significand * 2 ^ rest * 2 ^ shift).log2 = format.precision - 1 + shift := by
          omega
        rw [top, Nat.pow_add] at least
        exact Nat.le_of_mul_le_mul_right least (Nat.two_pow_pos shift)
    · omega

/-! ## Rounding what is small -/

theorem divideToEven_le (numerator denominator : Nat) :
    divideToEven numerator denominator ≤ numerator / denominator + 1 := by
  simp only [divideToEven]
  split <;> omega

/-- What is small enough is not rounded to infinity. -/
theorem nearest_lt_infinity (precise : 0 < format.precision)
    {numerator denominator exponent : Nat}
    (small : numerator / denominator < 2 ^ (exponent + format.precision))
    (range : exponent + 3 < 2 ^ format.exponentBits) :
    format.nearest numerator denominator < format.infinity := by
  have double : 2 ^ format.precision = 2 * 2 ^ (format.precision - 1) := by
    rw [← Nat.pow_succ', Nat.succ_eq_add_one, Nat.sub_add_cancel precise]
  -- the shift takes all but the leading bits away
  have sized : ∃ places, (numerator / denominator).log2 + 1 - format.precision = places ∧
      places ≤ exponent ∧ numerator / denominator < 2 ^ (places + format.precision) := by
    refine ⟨_, rfl, ?_, Nat.lt_of_lt_of_le Nat.lt_log2_self
      (Nat.pow_le_pow_right (by decide) (by omega))⟩
    by_cases zero : numerator / denominator = 0
    · rw [zero, Nat.log2_zero]
      omega
    · have := (Nat.log2_lt zero).2 small
      omega
  obtain ⟨places, shift, bound, below⟩ := sized
  have leading : numerator / (denominator * 2 ^ places) < 2 ^ format.precision := by
    rw [← Nat.div_div_eq_div_mul, Nat.div_lt_iff_lt_mul (Nat.two_pow_pos _), ← Nat.pow_add,
      Nat.add_comm]
    exact below
  have rounded := divideToEven_le numerator (denominator * 2 ^ places)
  have high := Nat.mul_le_mul_right (2 ^ (format.precision - 1))
    (show places + 3 ≤ 2 ^ format.exponentBits - 1 by omega)
  have pos := Nat.two_pow_pos (format.precision - 1)
  simp only [nearest, pack, infinity, Nat.pow_eq, shift]
  rw [Nat.add_mul] at high
  omega
theorem infinity_lt_signBit (precise : 0 < format.precision) :
    format.infinity < format.signBit := by
  have sum : format.exponentBits + format.precision - 1 =
      format.exponentBits + (format.precision - 1) := Nat.add_sub_assoc precise _
  simp only [infinity, signBit, Nat.pow_eq]
  rw [sum, Nat.pow_add]
  have := Nat.two_pow_pos format.exponentBits
  exact (Nat.mul_lt_mul_right (Nat.two_pow_pos _)).2 (by omega)

/-- The sign is above the bits of a finite magnitude. -/
theorem add_sign_mod (precise : 0 < format.precision) {magnitude : Nat}
    (finite : magnitude < format.infinity) (negative : Prop) [Decidable negative] :
    (magnitude + if negative then format.signBit else 0) % format.signBit = magnitude := by
  have below := infinity_lt_signBit precise
  split
  · rw [Nat.add_mod_right, Nat.mod_eq_of_lt (by omega)]
  · rw [Nat.add_zero, Nat.mod_eq_of_lt (by omega)]

theorem ofFraction_eq_add_sign (negative : Bool) (numerator denominator : Nat) :
    format.ofFraction negative numerator denominator =
      format.ofFraction false numerator denominator +
        if negative then format.signBit else 0 := by
  simp [ofFraction]

/-- A whole number of so many bits is not rounded to infinity. -/
theorem ofFraction_whole_lt_infinity (precise : 0 < format.precision)
    {number size exponent : Nat} (small : number < 2 ^ size)
    (fits : size + format.unitExponent = exponent + format.precision)
    (range : exponent + 3 < 2 ^ format.exponentBits) :
    format.ofFraction false number 1 < format.infinity := by
  refine @nearest_lt_infinity format precise _ _ exponent ?_ range
  rw [Nat.div_one, ← fits, Nat.pow_add, Nat.pow_eq]
  exact (Nat.mul_lt_mul_right (Nat.two_pow_pos _)).2 small

/-! ## Widening -/

/-- The target has a significand at least as long, units at least as small, and exponents for all
finite numbers of the source. -/
structure Widens (source target : BinaryFormat) : Prop where
  precise : 0 < source.precision
  precision : source.precision ≤ target.precision
  unit : source.unitExponent ≤ target.unitExponent
  exponents : 3 ≤ 2 ^ source.exponentBits
  range : 2 ^ source.exponentBits + (target.unitExponent - source.unitExponent) ≤
    2 ^ target.exponentBits

theorem widens_single_double : single.Widens double := by
  constructor <;> decide

/-- The significand and the exponent of a finite number without its sign. -/
theorem exists_units (exponents : 3 ≤ 2 ^ format.exponentBits) (precise : 0 < format.precision)
    (finite : bits < format.infinity) :
    ∃ significand exponent, format.units bits = significand * 2 ^ exponent ∧
      significand < 2 ^ format.precision ∧ exponent + 3 ≤ 2 ^ format.exponentBits := by
  have double : 2 ^ format.precision = 2 * 2 ^ (format.precision - 1) := by
    rw [← Nat.pow_succ', Nat.succ_eq_add_one, Nat.sub_add_cancel precise]
  rw [double]
  rcases format.cases_bits bits with small | ⟨significand, shift, large, small, rfl⟩
  · rw [units, unpack_small small]
    exact ⟨bits, 0, rfl, by omega, by omega⟩
  · rw [units, unpack_large large small]
    refine ⟨significand, shift, rfl, small, ?_⟩
    have less : (shift + 1) * 2 ^ (format.precision - 1) <
        (2 ^ format.exponentBits - 1) * 2 ^ (format.precision - 1) := by
      simp only [infinity, Nat.pow_eq] at finite
      rw [Nat.succ_mul]
      omega
    have := Nat.lt_of_mul_lt_mul_right less
    omega

theorem convert_of_finite (source target : BinaryFormat) (finite : source.Finite bits) :
    convert source target bits =
      target.nearest (source.units (bits % source.signBit) * 2 ^ target.unitExponent)
          (2 ^ source.unitExponent) +
        (if source.signBit ≤ bits then target.signBit else 0) := by
  simp only [convert, Nat.pow_eq, units]
  rw [if_pos (show source.isFinite (bits % source.signBit) = true from finite), Nat.pow_add,
    Nat.mul_assoc]

variable {source target : BinaryFormat}

/-- A finite number without its sign is widened to the same number of units, which are smaller by
some power of two. -/
theorem units_widened (widens : source.Widens target) (finite : bits < source.infinity)
    {finer : Nat} (unit : target.unitExponent = finer + source.unitExponent) :
    target.nearest (source.units bits * 2 ^ target.unitExponent) (2 ^ source.unitExponent) <
        target.infinity ∧
      target.units
          (target.nearest (source.units bits * 2 ^ target.unitExponent) (2 ^ source.unitExponent)) =
        source.units bits * 2 ^ finer := by
  obtain ⟨significand, exponent, eq, small, bound⟩ :=
    exists_units widens.exponents widens.precise finite
  have range := widens.range
  have precise := Nat.lt_of_lt_of_le widens.precise widens.precision
  have fits : significand < 2 ^ target.precision :=
    Nat.lt_of_lt_of_le small (Nat.pow_le_pow_right (by decide) widens.precision)
  have bounded : significand * 2 ^ (exponent + finer) <
      2 ^ (exponent + finer + target.precision) := by
    rw [Nat.add_comm (exponent + finer), Nat.pow_add _ target.precision]
    exact (Nat.mul_lt_mul_right (Nat.two_pow_pos _)).2 fits
  rw [eq, unit, Nat.pow_add, ← Nat.mul_assoc, Nat.mul_assoc significand, ← Nat.pow_add]
  exact units_nearest precise fits (Nat.two_pow_pos _) bounded (by omega)

/-- The magnitude of a finite number is widened by itself, and the number stays finite. -/
theorem exists_widened (widens : source.Widens target) (finite : source.Finite bits) {finer : Nat}
    (unit : target.unitExponent = finer + source.unitExponent) :
    ∃ widened, widened < target.infinity ∧
      target.units widened = source.units (bits % source.signBit) * 2 ^ finer ∧
      convert source target bits =
        widened + (if source.signBit ≤ bits then target.signBit else 0) ∧
      convert source target bits % target.signBit = widened := by
  obtain ⟨less, eq⟩ := units_widened widens (finite_iff.1 finite) unit
  have wide := convert_of_finite source target finite
  refine ⟨_, less, eq, wide, ?_⟩
  rw [wide, add_sign_mod (Nat.lt_of_lt_of_le widens.precise widens.precision) less]

theorem finite_convert (widens : source.Widens target) (finite : source.Finite bits) :
    target.Finite (convert source target bits) := by
  obtain ⟨finer, unit⟩ := Nat.exists_eq_add_of_le' widens.unit
  obtain ⟨widened, less, -, -, below⟩ := exists_widened widens finite unit
  rw [finite_iff, below]
  exact less

/-- A finite number is the same number after it was widened and narrowed again. -/
theorem convert_convert (widens : source.Widens target) (small : bits < 2 * source.signBit)
    (finite : source.Finite bits) :
    convert source target bits < 2 * target.signBit ∧
      convert target source (convert source target bits) = bits := by
  have magnitude := finite_iff.1 finite
  obtain ⟨finer, unit⟩ := Nat.exists_eq_add_of_le' widens.unit
  obtain ⟨widened, less, eq, wide, below⟩ := exists_widened widens finite unit
  have sign := infinity_lt_signBit widens.precise
  have sign' := infinity_lt_signBit (Nat.lt_of_lt_of_le widens.precise widens.precision)
  have signed : target.signBit ≤ convert source target bits ↔ source.signBit ≤ bits := by
    rw [wide]
    split <;> omega
  refine ⟨?_, ?_⟩
  · rw [wide]
    split <;> omega
  · have back : source.units (bits % source.signBit) * 2 ^ finer * 2 ^ source.unitExponent =
        source.units (bits % source.signBit) * 2 ^ target.unitExponent := by
      rw [Nat.mul_assoc, ← Nat.pow_add, unit]
    rw [convert_of_finite target source (finite_convert widens finite), below, eq, back,
      nearest_units widens.precise magnitude (Nat.two_pow_pos _)]
    simp only [signed]
    split
    · next negative =>
        rw [Nat.mod_eq_sub_mod negative, Nat.mod_eq_of_lt (by omega)]
        omega
    · next positive => rw [Nat.mod_eq_of_lt (by omega), Nat.add_zero]

end ProtoWire.BinaryFormat
