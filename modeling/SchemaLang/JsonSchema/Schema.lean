import SchemaLang.Json.Value
import SchemaLang.Pattern.SchemaPattern

/-!
# Schemas

A schema says which JSON values are instances of it: all, none, those of another
schema it refers to, or those that satisfy each of its keywords, among which may be a
reference too. Keywords that state a fact about values of one type say nothing about
values of other types.
-/

namespace SchemaLang.JsonSchema

/-- The types a schema can name. -/
inductive SimpleType where
  | null
  | boolean
  | object
  | array
  | number
  | string
  | integer
deriving DecidableEq, Repr

namespace SimpleType

/-- The type of a name. -/
def ofName? : String → Option SimpleType
  | "null" => some .null
  | "boolean" => some .boolean
  | "object" => some .object
  | "array" => some .array
  | "number" => some .number
  | "string" => some .string
  | "integer" => some .integer
  | _ => none

/-- Whether a value is of a type. A number is an integer if its value is whole,
however it is written. -/
def holds : SimpleType → Json → Bool
  | .null, .null => true
  | .boolean, .bool _ => true
  | .object, .object _ => true
  | .array, .array _ => true
  | .number, .number _ => true
  | .string, .string _ => true
  | .integer, .number value => value.isWhole
  | _, _ => false

end SimpleType

/-- The bounds on numbers. -/
inductive Bound where
  | minimum
  | maximum
  | exclusiveMinimum
  | exclusiveMaximum
deriving DecidableEq, Repr

namespace Bound

/-- The keyword of a bound. -/
def keyword : Bound → String
  | .minimum => "minimum"
  | .maximum => "maximum"
  | .exclusiveMinimum => "exclusiveMinimum"
  | .exclusiveMaximum => "exclusiveMaximum"

/-- Whether a number keeps to a bound. Numbers are compared by their exact values. -/
def holds (bound : Bound) (limit value : JsonNumber) : Bool :=
  match bound, value.order limit with
  | .minimum, order => order = some .gt || order = some .eq
  | .maximum, order => order = some .lt || order = some .eq
  | .exclusiveMinimum, order => order = some .gt
  | .exclusiveMaximum, order => order = some .lt

end Bound

/-- The limits on the length of texts and lists. -/
inductive Limit where
  | minLength
  | maxLength
  | minItems
  | maxItems
deriving DecidableEq, Repr

namespace Limit

/-- The keyword of a limit. -/
def keyword : Limit → String
  | .minLength => "minLength"
  | .maxLength => "maxLength"
  | .minItems => "minItems"
  | .maxItems => "maxItems"

/-- Whether a value keeps to a limit. The length of a text counts its characters. -/
def holds (limit : Limit) (length : Nat) (value : Json) : Bool :=
  match limit, value with
  | .minLength, .string text => length ≤ text.length
  | .maxLength, .string text => text.length ≤ length
  | .minItems, .array items => length ≤ items.length
  | .maxItems, .array items => items.length ≤ length
  | _, _ => true

end Limit

mutual

/-- Which values are instances. -/
inductive Schema where
  | always
  | never
  | reference (text : String)
  | keywords (keywords : List Keyword)

/-- One condition on values. -/
inductive Keyword where
  | type (types : List SimpleType)
  | enum (values : List Json)
  | bound (kind : Bound) (limit : JsonNumber)
  | limit (kind : Limit) (length : Nat)
  | pattern (pattern : Pattern.SchemaPattern)
  | required (names : List String)
  | properties (members : List (String × Schema))
  | additionalProperties (schema : Schema)
  | items (schema : Schema)
  | itemsInOrder (schemas : List Schema)
  | anyOf (schemas : List Schema)
  | allOf (schemas : List Schema)
  | reference (text : String)

end

/-- The names of the declared properties among keywords, if any are declared. -/
def declaredNames? (keywords : List Keyword) : Option (List String) :=
  keywords.findSome? fun keyword =>
    match keyword with
    | .properties members => some (members.map (·.1))
    | _ => none

end SchemaLang.JsonSchema
