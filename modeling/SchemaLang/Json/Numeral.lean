import SchemaLang.Json.Value
import SchemaLang.Number.Spelling

/-!
# Reading the numbers of a JSON document

A numeral without fraction and exponent is an integer when 64 bits hold it,
signed or unsigned, and is not a negative zero. Any other numeral is a binary64
number, read by scaling: as many leading digits as 64 bits hold make a whole
significand, which is rounded and then multiplied or divided by a rounded power
of ten. Further digits only count as places. Each step rounds, so the last bit
need not be that of the nearest number. A numeral beyond the finite numbers is
refused, one too small becomes zero.
-/

namespace SchemaLang.Json

/-- The parts of a numeral: digits before and after the point, and the exponent. -/
structure Numeral where
  negative : Bool
  whole : List Char
  fraction : List Char
  exponent : Int
  /-- Whether neither a point nor an exponent is written. -/
  plain : Bool
deriving DecidableEq, Repr

namespace Numeral

/-- The exponent part of a numeral, `none` when it is malformed; nothing means
an exponent of zero. -/
def exponentPart? : List Char → Option Int
  | [] => some 0
  | c :: rest => if c = 'e' || c = 'E' then Double.exponent? rest else none

/-- Split a numeral into its parts. There is a digit before the point, no zero
stands before another digit, and a point has a digit after it. -/
def ofChars? (text : List Char) : Option Numeral :=
  let (negative, body) := match text with
    | '-' :: rest => (true, rest)
    | rest => (false, rest)
  let whole := body.takeWhile Char.isDigit
  let afterWhole := body.drop whole.length
  let wholeAllowed := match whole with
    | [] => false
    | ['0'] => true
    | first :: _ => first != '0'
  if !wholeAllowed then none
  else match afterWhole with
    | '.' :: rest =>
      let fraction := rest.takeWhile Char.isDigit
      if fraction.isEmpty then none
      else (exponentPart? (rest.drop fraction.length)).map fun exponent =>
        ⟨negative, whole, fraction, exponent, false⟩
    | rest => (exponentPart? rest).map fun exponent =>
        ⟨negative, whole, [], exponent, rest.isEmpty⟩

/-- The greatest significand. -/
def significandLimit : Nat := Nat.pow 2 64 - 1

/-- Take digits into a significand while 64 bits hold it; the second result is
how many were taken. -/
def absorb (significand : Nat) : List Char → Nat × Nat
  | [] => (significand, 0)
  | digit :: rest =>
    let next := 10 * significand + (digit.toNat - '0'.toNat)
    if next ≤ significandLimit then
      let (result, count) := absorb next rest
      (result, count + 1)
    else (significand, 0)

/-- The significand and the power of ten that belongs to it. -/
def significandAndExponent (numeral : Numeral) : Nat × Int :=
  let (whole, taken) := absorb 0 numeral.whole
  let (significand, places) := absorb whole numeral.fraction
  (significand, (numeral.whole.length - taken : Int) - places + numeral.exponent)

/-- The greatest power of ten that is a finite number. -/
def greatestPower : Nat := 308

/-- Divide by the greatest power of ten as often as said, then by a last power. -/
def divideRepeatedly (last : Nat) : Nat → Nat → Nat
  | 0, units => Double.divideUnits units (Double.powerOfTenUnits last)
  | rounds + 1, units =>
    if units = 0 then 0
    else divideRepeatedly last rounds
      (Double.divideUnits units (Double.powerOfTenUnits greatestPower))

/-- Divide by a power of ten, in steps that are finite numbers. -/
def scaleDown (units power : Nat) : Nat :=
  let rounds := (power - 1) / greatestPower
  divideRepeatedly (power - rounds * greatestPower) rounds units

/-- The significand scaled by its power of ten, in units; `none` when the result
is not finite. -/
def scale? (significand : Nat) (exponent : Int) : Option Nat :=
  let units := Double.roundUnits (significand * Double.unitsPerOne) 1
  if significand = 0 then some 0
  else if exponent < 0 then some (scaleDown units (-exponent).toNat)
  else if greatestPower < exponent.toNat then none
  else
    let scaled := Double.multiplyUnits units (Double.powerOfTenUnits exponent.toNat)
    if scaled < Double.unitsLimit then some scaled else none

/-- The integer a numeral denotes, when it is written as one and fits. -/
def integer? (numeral : Numeral) : Option Int :=
  let value := Double.digitsValue numeral.whole
  if !numeral.plain then none
  else if numeral.negative then
    if value ≠ 0 && value ≤ Nat.pow 2 63 then some (-(value : Int)) else none
  else if value < Nat.pow 2 64 then some value else none

/-- The number a numeral denotes. -/
def value? (numeral : Numeral) : Option JsonNumber :=
  match numeral.integer? with
  | some value => some (.integer value)
  | none =>
    let (significand, exponent) := numeral.significandAndExponent
    (scale? significand exponent).map fun units => .double (.finite numeral.negative units)

end Numeral

end SchemaLang.Json
