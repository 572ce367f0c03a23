import SchemaLang.Pattern.Tree
import SchemaLang.Text.Quoted

/-!
# Faults of constraints

Why a validation block cannot be attached to a type, or one of its calls means
nothing there.
-/

namespace SchemaLang

/-- What is wrong with a validation block or a constraint. -/
inductive ConstraintFault where
  | targetUndeclared (name : String)
  | targetIsEnum (name : String)
  | noPrecedingType
  | noSuchField (owner field : String)
  | fieldOnly (function : String)
  | selfOnly
  | patternArguments
  | badPattern (pattern : String) (fault : Pattern.Fault)
  | lengthArgument (function : String)
  | numberArgument (function : String)
  | requiredEmpty
  | requiredNotNames
  | oneOfEmpty
deriving DecidableEq, Repr

namespace ConstraintFault

/-- The words that explain a fault of a nested language, at the end of the message. -/
def explanation? : ConstraintFault → Option String
  | .badPattern _ fault => some fault.message
  | _ => none

/-- What is wrong, in words. -/
def message : ConstraintFault → String
  | .targetUndeclared name => s!"validation target {Text.quote name} is not a declared type"
  | .targetIsEnum name => s!"cannot attach validation to enum {Text.quote name}"
  | .noPrecedingType => "validation block has no preceding type to attach to"
  | .noSuchField owner field => s!"{Text.quote owner} has no field named {Text.quote field}"
  | .fieldOnly function => s!"{Text.quote function} applies to a field, not to \"self\""
  | .selfOnly => "\"required\" applies to \"self\", not to a field"
  | .patternArguments => "\"pattern\" takes one string"
  | .badPattern pattern fault => s!"invalid pattern {Text.quote pattern}: {fault.message}"
  | .lengthArgument function => s!"{Text.quote function} takes one non-negative integer"
  | .numberArgument function => s!"{Text.quote function} takes one number"
  | .requiredEmpty => "\"required\" takes at least one field name"
  | .requiredNotNames => "\"required\" takes field names"
  | .oneOfEmpty => "\"one_of\" takes at least one value"

end ConstraintFault

end SchemaLang
