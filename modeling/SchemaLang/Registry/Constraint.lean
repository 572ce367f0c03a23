import SchemaLang.Error
import SchemaLang.Pattern.Meaning
import SchemaLang.Registry.Definition

/-!
# Constraints from calls

A rule of a validation block calls constraints by name. One of the nine functions,
`required`, applies to a whole record and names some of its fields; the others apply
to a field. A call is refused for the first of these reasons that holds: its name is
unknown, it stands at the wrong place, its arguments do not fit.
-/

namespace SchemaLang

/-- The functions that a rule may call. -/
inductive ConstraintFunction where
  | pattern
  | minLength
  | maxLength
  | minimum
  | maximum
  | exclusiveMinimum
  | exclusiveMaximum
  | required
  | oneOf
deriving DecidableEq, Repr

namespace ConstraintFunction

/-- The function of a name. -/
def ofName? : String → Option ConstraintFunction
  | "pattern" => some .pattern
  | "min_length" => some .minLength
  | "max_length" => some .maxLength
  | "min" => some .minimum
  | "max" => some .maximum
  | "exclusive_min" => some .exclusiveMinimum
  | "exclusive_max" => some .exclusiveMaximum
  | "required" => some .required
  | "one_of" => some .oneOf
  | _ => none

end ConstraintFunction

namespace Call

/-- The error that a call means nothing where it stands. -/
def invalid (call : Call) (fault : ConstraintFault) : Error :=
  .invalidConstraint fault call.location

/-- The function that is called. -/
def function (call : Call) : Except Error ConstraintFunction :=
  match ConstraintFunction.ofName? call.name with
  | some function => .ok function
  | none => .error (.unknownConstraint call.name call.location)

/-- The only argument, which must be a number. -/
def number (call : Call) : Except Error Double :=
  match call.arguments with
  | [.number value] => .ok value
  | _ => .error (call.invalid (.numberArgument call.name))

/-- The largest length that can be asked for. -/
def lengthLimit : Nat := Nat.pow 2 64 - 1

/-- The only argument, which must be a length: a whole number and not negative. -/
def length (call : Call) : Except Error Nat :=
  match call.arguments with
  | [.number value] =>
    if value.isWhole && (Double.finite false 0).le value then
      .ok (min value.truncated.toNat lengthLimit)
    else .error (call.invalid (.lengthArgument call.name))
  | _ => .error (call.invalid (.lengthArgument call.name))

/-- The only argument, which must be a pattern. -/
def pattern (call : Call) : Except Error String :=
  match call.arguments with
  | [.text text] =>
    match Pattern.compilePlain text.toList with
    | .ok _ => .ok text
    | .error fault => .error (call.invalid (.badPattern text fault))
  | _ => .error (call.invalid .patternArguments)

/-- A value that an argument lists. -/
def literal : Argument → Literal
  | .text value => .text value
  | .word name => .text name
  | .number value => .number value

/-- The arguments as listed values, of which there must be one. -/
def literals (call : Call) : Except Error (List Literal) :=
  if call.arguments.isEmpty then .error (call.invalid .oneOfEmpty)
  else .ok (call.arguments.map literal)

/-- The constraint that a call puts on a field. -/
def onField (call : Call) : Except Error Constraint := do
  match ← call.function with
  | .pattern => return .pattern (← call.pattern)
  | .minLength => return .minLength (← call.length)
  | .maxLength => return .maxLength (← call.length)
  | .minimum => return .minimum (← call.number)
  | .maximum => return .maximum (← call.number)
  | .exclusiveMinimum => return .exclusiveMinimum (← call.number)
  | .exclusiveMaximum => return .exclusiveMaximum (← call.number)
  | .oneOf => return .oneOf (← call.literals)
  | .required => .error (call.invalid .selfOnly)

/-- The field that an argument names. -/
def fieldName (call : Call) (owner : Definition) (argument : Argument) : Except Error String :=
  let checked (name : String) : Except Error String :=
    if owner.fields.any fun field => field.name = name then .ok name
    else .error (call.invalid (.noSuchField owner.name name))
  match argument with
  | .word name => checked name
  | .text name => checked name
  | .number _ => .error (call.invalid .requiredNotNames)

/-- The fields that a call on a record requires. -/
def onSelf (call : Call) (owner : Definition) : Except Error (List String) := do
  match ← call.function with
  | .required =>
    if call.arguments.isEmpty then .error (call.invalid .requiredEmpty)
    else call.arguments.mapM (call.fieldName owner)
  | _ => .error (call.invalid (.fieldOnly call.name))

end Call

end SchemaLang
