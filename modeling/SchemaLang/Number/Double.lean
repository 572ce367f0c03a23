/-!
# Binary64 numbers

Every finite binary64 number is a whole multiple of the smallest positive one,
`2 ^ -1074`. A finite number is held as its sign and that multiple, so order,
equality and wholeness are questions about integers and need no rounding. Zero
keeps its sign, which shows when it is printed and never when it is compared.

The numbers here are read, compared and printed. Nothing computes with them.
-/

namespace SchemaLang

/-- A binary64 number. Not every multiple of the unit is one: a multiple of more
than 53 significant bits must end in zeros, as rounding sees to. -/
inductive Double where
  | finite (negative : Bool) (units : Nat)
  | infinite (negative : Bool)
  | nan
deriving DecidableEq, Repr

namespace Double

/-- How many units make one. -/
def unitsPerOne : Nat := Nat.pow 2 1074

/-- The first multiple of the unit beyond the finite numbers. -/
def unitsLimit : Nat := Nat.pow 2 (1024 + 1074)

/-- The multiple of the unit with its sign. -/
def signedUnits (negative : Bool) (units : Nat) : Int :=
  if negative then -(units : Int) else units

/-- Whether the number is neither infinite nor undefined. -/
def isFinite : Double → Bool
  | finite _ _ => true
  | _ => false

/-- Strict order. The undefined number is below nothing and above nothing. -/
def lt : Double → Double → Bool
  | finite n u, finite m v => signedUnits n u < signedUnits m v
  | infinite n, infinite m => n && !m
  | infinite n, finite _ _ => n
  | finite _ _, infinite m => !m
  | nan, _ => false
  | _, nan => false

/-- Equality of value: the two zeros are equal, the undefined number equals
nothing. -/
def same : Double → Double → Bool
  | finite n u, finite m v => signedUnits n u == signedUnits m v
  | infinite n, infinite m => n == m
  | _, _ => false

/-- Order up to equality of value. -/
def le (a b : Double) : Bool := a.lt b || a.same b

/-- Whether the number is whole. -/
def isWhole : Double → Bool
  | finite _ units => units % unitsPerOne == 0
  | _ => false

/-- The whole part toward zero, with its sign; zero where there is none. -/
def truncated : Double → Int
  | finite negative units => signedUnits negative (units / unitsPerOne)
  | _ => 0

/-- Whether the magnitude is below `limit`. -/
def magnitudeBelow (limit : Nat) : Double → Bool
  | finite _ units => units < limit * unitsPerOne
  | _ => false

/-- The order of a number against an integer, `none` for the undefined one. -/
def compareInt : Double → Int → Option Ordering
  | finite negative units, value =>
    some (compare (signedUnits negative units) (value * (unitsPerOne : Int)))
  | infinite negative, _ => some (if negative then .lt else .gt)
  | nan, _ => none

end Double

end SchemaLang
