/-!
# Primitive types

The nine types that every module can use without declaring them. Two of them are
numeric and may carry a range.
-/

namespace SchemaLang

/-- The built-in types. -/
inductive Primitive where
  | string
  | integer
  | number
  | boolean
  | any
  | dateTime
  | date
  | uri
  | email
deriving DecidableEq, Repr

/-- The types a range can restrict. -/
inductive NumericKind where
  | integer
  | number
deriving DecidableEq, Repr

namespace Primitive

/-- The word that names a type. -/
def keyword : Primitive → String
  | .string => "string"
  | .integer => "integer"
  | .number => "number"
  | .boolean => "boolean"
  | .any => "any"
  | .dateTime => "datetime"
  | .date => "date"
  | .uri => "uri"
  | .email => "email"

/-- Every built-in type. -/
def all : List Primitive :=
  [.string, .integer, .number, .boolean, .any, .dateTime, .date, .uri, .email]

/-- The type that a word names. -/
def ofKeyword? (word : String) : Option Primitive :=
  all.find? fun primitive => primitive.keyword = word

/-- The numeric kind of a type that may carry a range. -/
def numericKind? : Primitive → Option NumericKind
  | .integer => some .integer
  | .number => some .number
  | _ => none

end Primitive

/-- The type that a range restricts. -/
def NumericKind.primitive : NumericKind → Primitive
  | .integer => .integer
  | .number => .number

end SchemaLang
