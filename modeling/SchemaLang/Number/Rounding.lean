import SchemaLang.Number.Double

/-!
# Rounding a decimal to binary64

A decimal is rounded to the nearest binary64 number, and halfway between two to
the one with the even last bit. Counted in units, the finite numbers of up to 53
bits are all there; of longer ones only the multiples of a power of two that
leaves 53 bits. So rounding is one division with remainder.
-/

namespace SchemaLang

/-- The value `digits * 10 ^ exponent`. -/
structure Decimal where
  digits : Nat
  exponent : Int
deriving DecidableEq, Repr

/-- The numerals of a number in base ten, most significant first. -/
def decimalDigits (value : Nat) : List Char := Nat.toDigits 10 value

namespace Decimal

/-- The place of the first digit: the value lies below `10 ^ magnitude`, and not
below a tenth of it unless it is zero. -/
def magnitude (decimal : Decimal) : Int :=
  (decimalDigits decimal.digits).length + decimal.exponent

/-- Numerator of the value in units. -/
def numerator (decimal : Decimal) : Nat :=
  decimal.digits * Double.unitsPerOne * Nat.pow 10 decimal.exponent.toNat

/-- Denominator of the value in units. -/
def denominator (decimal : Decimal) : Nat := Nat.pow 10 (-decimal.exponent).toNat

end Decimal

/-- Divide and round to the nearest whole, halves to even. -/
def roundHalfEven (numerator denominator : Nat) : Nat :=
  let quotient := numerator / denominator
  let twice := 2 * (numerator % denominator)
  if twice < denominator then quotient
  else if denominator < twice then quotient + 1
  else quotient + quotient % 2

namespace Double

/-- The number of trailing bits that a magnitude of this many units cannot
keep. -/
def droppedBits (units : Nat) : Nat := Nat.log2 units + 1 - 53

/-- The nearest representable multiple of the unit to a positive quotient. -/
def roundUnits (numerator denominator : Nat) : Nat :=
  let step := Nat.pow 2 (droppedBits (numerator / denominator))
  roundHalfEven numerator (denominator * step) * step

/-- The binary64 number nearest to a decimal. Decimals far beyond the range on
either side are settled by their magnitude alone. -/
def ofDecimal (negative : Bool) (decimal : Decimal) : Double :=
  if decimal.digits = 0 then finite negative 0
  else if 310 < decimal.magnitude then infinite negative
  else if decimal.magnitude < -330 then finite negative 0
  else
    let units := roundUnits decimal.numerator decimal.denominator
    if units < unitsLimit then finite negative units else infinite negative

/-- The number nearest to an integer. -/
def ofInt (value : Int) : Double := ofDecimal (value < 0) ⟨value.natAbs, 0⟩

/-- The rounded product of two magnitudes, in units. -/
def multiplyUnits (a b : Nat) : Nat := roundUnits (a * b) unitsPerOne

/-- The rounded quotient of two magnitudes, in units. -/
def divideUnits (a b : Nat) : Nat := roundUnits (a * unitsPerOne) b

/-- The rounded power of ten, in units. -/
def powerOfTenUnits (power : Nat) : Nat := roundUnits (Nat.pow 10 power * unitsPerOne) 1

end Double

end SchemaLang
