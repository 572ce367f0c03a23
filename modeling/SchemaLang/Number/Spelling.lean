import SchemaLang.Number.Shortest

/-!
# Spelling numbers

How binary64 numbers are written and read. A JSON document has the shortest
decimal, positional with a point for the magnitudes in the usual range and with
an exponent elsewhere. A message shows it positionally whatever its length, and
without a point when it is whole. A value half-way between two decimals goes to the
one with the even last digit in a document, and up in a message.

A number is read from digits with an optional point and exponent; the words for
infinity and the undefined number are read too, in any letter case.
-/

namespace SchemaLang.Double

/-- So many zeros. -/
def zeros (count : Nat) : List Char := List.replicate count '0'

/-- Positional digits. `point` is the place of the decimal point from the left
of the digits; the fraction is left out when it is empty and `bare` is set. -/
def positional (bare : Bool) (digits : List Char) (point : Int) : List Char :=
  if point ≤ 0 then '0' :: '.' :: (zeros (-point).toNat ++ digits)
  else if digits.length ≤ point.toNat then
    digits ++ zeros (point.toNat - digits.length) ++ (if bare then [] else ['.', '0'])
  else digits.take point.toNat ++ '.' :: digits.drop point.toNat

/-- Digits with an exponent, the first alone before the point. -/
def scientific (digits : List Char) (point : Int) : List Char :=
  let exponent := point - 1
  let fraction := digits.drop 1
  digits.take 1 ++ (if fraction.isEmpty then [] else '.' :: fraction)
    ++ ['e', if exponent < 0 then '-' else '+'] ++ decimalDigits exponent.natAbs

/-- The sign, written only when it is negative. -/
def signChars (negative : Bool) : List Char := if negative then ['-'] else []

/-- The magnitudes that a JSON document writes without exponent: the point lies
at most four places before the digits and at most sixteen after their start. -/
def isPositional (point : Int) : Bool := -4 ≤ point && point ≤ 16

/-- The spelling in a JSON document. Only finite numbers have one. -/
def jsonChars : Double → List Char
  | finite negative 0 => signChars negative ++ ['0', '.', '0']
  | finite negative units =>
    let decimal := shortest .toEven units
    let digits := decimalDigits decimal.digits
    let point := digits.length + decimal.exponent
    signChars negative ++
      (if isPositional point then positional false digits point else scientific digits point)
  | _ => ['n', 'u', 'l', 'l']

/-- The spelling in a message. -/
def displayChars : Double → List Char
  | finite negative 0 => signChars negative ++ ['0']
  | finite negative units =>
    let decimal := shortest .up units
    let digits := decimalDigits decimal.digits
    signChars negative ++ positional true digits (digits.length + decimal.exponent)
  | infinite negative => signChars negative ++ ['i', 'n', 'f']
  | nan => ['N', 'a', 'N']

/-- The spelling in a message. -/
def display (value : Double) : String := String.ofList value.displayChars

/-- The number that decimal digits denote. -/
def digitsValue (digits : List Char) : Nat :=
  digits.foldl (fun value digit => 10 * value + (digit.toNat - '0'.toNat)) 0

/-- An exponent: an optional sign and at least one digit, and nothing after. -/
def exponent? (text : List Char) : Option Int :=
  let (negative, digits) := match text with
    | '-' :: rest => (true, rest)
    | '+' :: rest => (false, rest)
    | rest => (false, rest)
  if digits.isEmpty || !digits.all Char.isDigit then none
  else
    let value : Int := digitsValue digits
    some (if negative then -value else value)

/-- Unsigned digits with an optional point and exponent. At least one digit
stands on one side of the point. -/
def decimal? (text : List Char) : Option Decimal :=
  let whole := text.takeWhile Char.isDigit
  let afterWhole := text.drop whole.length
  let (fraction, afterFraction) := match afterWhole with
    | '.' :: rest => (rest.takeWhile Char.isDigit, rest.dropWhile Char.isDigit)
    | rest => ([], rest)
  if whole.isEmpty && fraction.isEmpty then none
  else
    let digits := digitsValue (whole ++ fraction)
    match afterFraction with
    | [] => some ⟨digits, -fraction.length⟩
    | c :: rest =>
      if c = 'e' || c = 'E' then
        (exponent? rest).map fun exponent => ⟨digits, exponent - fraction.length⟩
      else none

/-- Read an unsigned number or one of the words for a number that is not
finite. -/
def magnitude? (negative : Bool) (text : List Char) : Option Double :=
  let word := String.ofList (text.map Char.toLower)
  if word == "inf" || word == "infinity" then some (infinite negative)
  else if word == "nan" then some nan
  else (decimal? text).map (ofDecimal negative)

/-- Read a number with an optional sign. -/
def read? (text : String) : Option Double :=
  match text.toList with
  | '-' :: rest => magnitude? true rest
  | '+' :: rest => magnitude? false rest
  | rest => magnitude? false rest

end SchemaLang.Double
