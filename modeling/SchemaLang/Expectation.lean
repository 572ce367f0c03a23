import SchemaLang.Text.Quoted

/-!
# Expectations

What the grammar asks for at a place where something else stands. Each is a rule
of the language; its wording is here and nowhere else.
-/

namespace SchemaLang

/-- What should have stood at a place. -/
inductive Expectation where
  | symbol (text : String)
  | declaration
  | modulePath
  | nonEmptyModulePath
  | importAlias
  | enumName
  | enumMember
  | unusedMember
  | someMember
  | typeName
  | fieldName
  | unusedField
  | singleOptionalMark
  | endOfField
  | fieldType
  | typeWithoutRange
  | orderedRange
  | wholeBound
  | finiteNumber
  | ruleKey
  | constraint
  | constraintArgument
deriving DecidableEq, Repr

namespace Expectation

/-- The expectation as messages name it. -/
def describe : Expectation → String
  | .symbol text => Text.quote text
  | .declaration => "\"import\", \"enum\", \"type\", \"agent\" or \"validate\""
  | .modulePath => "module path string"
  | .nonEmptyModulePath => "non-empty module path"
  | .importAlias => "import alias"
  | .enumName => "enum name"
  | .enumMember => "enum member or \"\x7d\""
  | .unusedMember => "a member name not already used in this enum"
  | .someMember => "at least one enum member"
  | .typeName => "type name"
  | .fieldName => "field name or \"\x7d\""
  | .unusedField => "a field name not already used in this type"
  | .singleOptionalMark => "a single optional marker"
  | .endOfField => "end of field (\"?\" is only allowed on the field itself)"
  | .fieldType => "type"
  | .typeWithoutRange => "a type without range bounds (ranges apply to integer and number)"
  | .orderedRange => "a range whose minimum does not exceed its maximum"
  | .wholeBound => "a whole number bound for an integer range"
  | .finiteNumber => "a finite number"
  | .ruleKey => "field name, \"self\" or \"\x7d\""
  | .constraint => "constraint"
  | .constraintArgument => "constraint argument or \")\""

end Expectation

end SchemaLang
