import SchemaLang.Json.Value
import SchemaLang.Registry.Definition

/-!
# Registries as JSON

The form in which a registry is shown to a reader. Variants are objects with one
member, named for the variant.
-/

namespace SchemaLang

/-- An object with one member that tells the variant. -/
def Json.variant (name : String) (content : Json) : Json := .object [(name, content)]

/-- A number of a registry, always as a binary64 number. -/
def Json.exactDouble (value : Double) : Json :=
  if value.isFinite then .number (.double value) else .null

/-- A value that may be missing. -/
def Json.ofOption {α : Type} (encode : α → Json) : Option α → Json
  | some value => encode value
  | none => .null

/-- A list of texts. -/
def Json.ofTexts (texts : List String) : Json := .array (texts.map .string)

/-- A location with its parts. -/
def Location.json (location : Location) : Json :=
  .object
    [("module", .string location.source), ("line", .ofNat location.line),
      ("column", .ofNat location.column)]

/-- The name of a built-in type as a variant. -/
def Primitive.variantName : Primitive → String
  | .string => "String"
  | .integer => "Integer"
  | .number => "Number"
  | .boolean => "Boolean"
  | .any => "Any"
  | .dateTime => "DateTime"
  | .date => "Date"
  | .uri => "Uri"
  | .email => "Email"

/-- The name of a numeric kind as a variant. -/
def NumericKind.variantName (kind : NumericKind) : String := kind.primitive.variantName

mutual

/-- A type with its references written by `reference`. -/
def FieldType.json {ρ : Type} (reference : ρ → Json) : FieldType ρ → Json
  | .primitive kind => .variant "Primitive" (.string kind.variantName)
  | .reference target => reference target
  | .array item => .variant "ArrayOf" (item.json reference)
  | .optional inner => .variant "Optional" (inner.json reference)
  | .union arms => .variant "Union" (.array (FieldType.jsonOfAll reference arms))
  | .range kind least greatest =>
    .variant "Range" (.object
      [("kind", .string kind.variantName), ("min", .ofOption .exactDouble least),
        ("max", .ofOption .exactDouble greatest)])

/-- Several types. -/
def FieldType.jsonOfAll {ρ : Type} (reference : ρ → Json) : List (FieldType ρ) → List Json
  | [] => []
  | type :: types => type.json reference :: FieldType.jsonOfAll reference types

end

/-- A listed value. -/
def Literal.json : Literal → Json
  | .text value => .variant "String" (.string value)
  | .number value => .variant "Number" (.exactDouble value)

/-- A constraint of a field. -/
def Constraint.json : Constraint → Json
  | .pattern text => .variant "Pattern" (.string text)
  | .minLength length => .variant "MinLength" (.ofNat length)
  | .maxLength length => .variant "MaxLength" (.ofNat length)
  | .minimum bound => .variant "Minimum" (.exactDouble bound)
  | .maximum bound => .variant "Maximum" (.exactDouble bound)
  | .exclusiveMinimum bound => .variant "ExclusiveMinimum" (.exactDouble bound)
  | .exclusiveMaximum bound => .variant "ExclusiveMaximum" (.exactDouble bound)
  | .oneOf values => .variant "OneOf" (.array (values.map Literal.json))

/-- A type whose references are numbers of definitions. -/
def FieldType.definedJson (type : FieldType Nat) : Json :=
  type.json fun id => .variant "Named" (.ofNat id)

/-- A field of a definition. -/
def DefinedField.json (field : DefinedField) : Json :=
  .object
    [("name", .string field.name), ("type_", field.type.definedJson),
      ("constraints", .array (field.constraints.map Constraint.json)),
      ("location", field.location.json)]

/-- What a definition says. -/
def DefinitionBody.json : DefinitionBody → Json
  | .enumeration members => .variant "Enum" (.object [("members", .ofTexts members)])
  | .record content =>
    .variant "Record" (.object
      [("fields", .array (content.fields.map DefinedField.json)),
        ("constraints",
          .array (content.required.map fun names => .variant "Required" (.ofTexts names))),
        ("is_entry", .bool content.isEntry)])

/-- A definition. -/
def Definition.json (definition : Definition) : Json :=
  .object
    [("name", .string definition.name), ("namespace", .ofOption .string definition.scope?),
      ("location", definition.location.json), ("kind", definition.body.json)]

/-- A whole registry. -/
def Registry.json (registry : Registry) : Json :=
  .object
    [("types", .array (registry.definitions.map Definition.json)),
      ("entry", .ofOption .ofNat registry.entry?)]

end SchemaLang
