import SchemaLang.Number.Rounding

/-!
# The shortest decimal of a binary64 number

A number is printed with the fewest significant digits from which it can be read
back, and of the decimals with that many digits with the nearest one. For each
count of digits only the two neighbours of the value on that decimal grid can
qualify: if some point of the grid rounds to the value, so does a neighbour.
Seventeen digits always suffice. Where the value lies half-way between the two, the
format decides.
-/

namespace SchemaLang

/-- Which of two decimals is taken when a value lies half-way between them. -/
inductive Tie where
  | toEven
  | up
deriving DecidableEq, Repr

/-- Whether a value half-way above some digits goes down to them. -/
def Tie.goesDown : Tie → Nat → Bool
  | .toEven, digits => digits % 2 = 0
  | .up, _ => false

/-- Remove trailing zeros of the digits, at most `fuel` of them. -/
def Decimal.trimUpTo : Nat → Decimal → Decimal
  | 0, decimal => decimal
  | fuel + 1, decimal =>
    if decimal.digits % 10 = 0 then trimUpTo fuel ⟨decimal.digits / 10, decimal.exponent + 1⟩
    else decimal

namespace Double

/-- The place of the first decimal digit of a positive multiple of the unit. The
factor shifts every such value above one. -/
def decimalMagnitude (units : Nat) : Int :=
  (decimalDigits (units * Nat.pow 10 400 / unitsPerOne)).length - 400

/-- Whether a decimal reads back as the given multiple of the unit. -/
def readsBack (units : Nat) (decimal : Decimal) : Bool :=
  ofDecimal false decimal == finite false units

/-- The decimal of `count` digits that reads back, if there is one: of the two
neighbours of the value on that grid the nearer that does. The first digit of the
value has the given place. -/
def neighbour? (tie : Tie) (units : Nat) (magnitude : Int) (count : Nat) : Option Decimal :=
  let exponent := magnitude - count
  let numerator := units * Nat.pow 10 (-exponent).toNat
  let denominator := unitsPerOne * Nat.pow 10 exponent.toNat
  let quotient := numerator / denominator
  let below : Decimal := ⟨quotient, exponent⟩
  let above : Decimal := ⟨quotient + 1, exponent⟩
  let twice := 2 * (numerator % denominator)
  let nearBelow : Bool := twice < denominator || (twice = denominator && tie.goesDown quotient)
  let candidates := if nearBelow then [below, above] else [above, below]
  candidates.find? (readsBack units)

/-- The decimal with the fewest digits that reads back as the given positive
multiple of the unit. -/
def shortest (tie : Tie) (units : Nat) : Decimal :=
  let magnitude := decimalMagnitude units
  match (List.range 17).findSome? fun count => neighbour? tie units magnitude (count + 1) with
  | some decimal => decimal.trimUpTo 17
  | none => ⟨0, 0⟩

end Double

end SchemaLang
