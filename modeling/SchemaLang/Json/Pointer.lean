import SchemaLang.Json.Value
import SchemaLang.Text.CodePoints

/-!
# JSON pointers

A pointer is the list of names and positions that lead from a value to a part of
it. In the text of a pointer each is preceded by a slash, and the two characters
with a meaning of their own, the slash and the tilde, are escaped.
-/

namespace SchemaLang

/-- The way from a value to a part of it. -/
abbrev Pointer := List String

namespace Pointer

/-- The escaped form of one character of a step. -/
def escapeChar (c : Char) : List Char :=
  if c = '~' then ['~', '0'] else if c = '/' then ['~', '1'] else [c]

/-- The escaped form of a step. -/
def escape (step : String) : String := String.ofList (step.toList.flatMap escapeChar)

/-- The text of a pointer. -/
def text (pointer : Pointer) : String :=
  String.join (pointer.map fun step => "/" ++ escape step)

/-- The step that an escaped form stands for. -/
def unescape : List Char → List Char
  | '~' :: '0' :: rest => '~' :: unescape rest
  | '~' :: '1' :: rest => '/' :: unescape rest
  | c :: rest => c :: unescape rest
  | [] => []

/-- The pointer of a text. A text that is not empty starts with a slash. -/
def ofText? (text : String) : Option Pointer :=
  match text.toList with
  | [] => some []
  | '/' :: steps => some ((steps.splitOn '/').map fun step => String.ofList (unescape step))
  | _ => none

/-- The greatest position that can be named. -/
def positionLimit : Nat := 18446744073709551615

/-- The position that a step names in a list: a decimal numeral, with zeros and a plus
sign in front of it if the author likes. -/
def position? (step : String) : Option Nat :=
  let digits :=
    match step.toList with
    | '+' :: digits => digits
    | digits => digits
  if digits.isEmpty || !digits.all Char.isDigit then none
  else
    let position := Nat.ofDigitChars 10 digits 0
    if position ≤ positionLimit then some position else none

end Pointer

namespace Json

/-- The part of a value that one step leads to. -/
def step? (value : Json) (step : String) : Option Json :=
  match value with
  | object members => members.lookup step
  | array items => (Pointer.position? step).bind fun position => items[position]?
  | _ => none

/-- The part of a value that a pointer leads to. -/
def at? (value : Json) : Pointer → Option Json
  | [] => some value
  | step :: steps =>
    match value.step? step with
    | some part => part.at? steps
    | none => none

end Json

end SchemaLang
