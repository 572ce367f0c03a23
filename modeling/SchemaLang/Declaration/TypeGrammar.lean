import SchemaLang.Declaration
import SchemaLang.Declaration.Reading

/-!
# The grammar of field types

A type is a choice between arms, separated by bars. An arm is an atom and any
number of bracket pairs, each making a list of what stands before it, so brackets
bind tighter than bars. An atom is a built-in type, a numeric type with a range, or
the name of a declared type, which may have several parts joined by points.
-/

namespace SchemaLang.Reading

/-- A bound of a range, which may be left open. -/
def bound (kind : NumericKind) : Reading (Option Double) := do
  let token ← current
  if token.kind = .number then
    let value ← number token
    if kind = .integer ∧ !value.isWhole then
      reject token .wholeBound
    else
      let _ ← advance
      return some value
  else
    return none

/-- Whether both bounds are given and the first exceeds the second. -/
def disordered : Option Double → Option Double → Bool
  | some least, some greatest => greatest.lt least
  | _, _ => false

/-- The range of a numeric type. -/
def range (kind : NumericKind) : Reading (FieldType String) := do
  let _ ← expect "("
  let least ← bound kind
  let _ ← expect "."
  let _ ← expect "."
  let greatest ← bound kind
  let close ← expect ")"
  if disordered least greatest then
    reject close .orderedRange
  else
    return .range kind least greatest

/-- The further parts of a name. A point without an identifier after it is not part
of the name. -/
def nameParts : List Token → String × List Token
  | point :: part :: rest =>
    if point.isSymbol "." && part.kind = .identifier then
      let (parts, rest) := nameParts rest
      ("." ++ part.text ++ parts, rest)
    else ("", point :: part :: rest)
  | tokens => ("", tokens)

/-- A built-in type, a range or a name. -/
def atom : Reading (FieldType String) := do
  let token ← identifier .fieldType
  match Primitive.ofKeyword? token.text with
  | some primitive =>
    if ← sees "(" then
      match primitive.numericKind? with
      | some kind => range kind
      | none => unexpected .typeWithoutRange
    else
      return .primitive primitive
  | none =>
    let (parts, rest) := nameParts (← get)
    set rest
    return .reference (token.text ++ parts)

/-- A type made a list for each pair of brackets. -/
def brackets : Nat → FieldType String → Reading (FieldType String)
  | 0, _ => overrun
  | rounds + 1, type => do
    if ← eat "[" then
      let _ ← expect "]"
      brackets rounds (.array type)
    else
      return type

/-- One arm of a type. -/
def arm : Reading (FieldType String) := do
  let type ← atom
  brackets (← remaining) type

/-- The arms after the first. -/
def furtherArms : Nat → Reading (List (FieldType String))
  | 0 => overrun
  | rounds + 1 => do
    if ← eat "|" then
      let type ← arm
      let types ← furtherArms rounds
      return type :: types
    else
      return []

/-- The type of a field. -/
def fieldType : Reading (FieldType String) := do
  let first ← arm
  match ← furtherArms (← remaining) with
  | [] => return first
  | others => return .union (first :: others)

end SchemaLang.Reading
