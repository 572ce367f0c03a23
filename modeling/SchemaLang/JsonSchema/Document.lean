import SchemaLang.Error
import SchemaLang.Registry.Definition

/-!
# Schema documents

The JSON Schema of a registry. The entry is the root of the document; every other
definition stands under `definitions`, and all references go by name, so recursive
types stay finite. Members follow the order of the declarations.

A constraint adds a keyword to the schema of its field. Where the keyword is there
already with another value, the constraints conflict.
-/

namespace SchemaLang.JsonSchema

/-- The members of a schema that is an object. -/
abbrev Members := List (String × Json)

/-- The version of the schema language that documents announce. -/
def dialect : String := "http://json-schema.org/draft-07/schema#"

/-- The schema of a built-in type. -/
def ofPrimitive : Primitive → Members
  | .string => [("type", .string "string")]
  | .integer => [("type", .string "integer")]
  | .number => [("type", .string "number")]
  | .boolean => [("type", .string "boolean")]
  | .any => []
  | .dateTime => [("type", .string "string"), ("format", .string "date-time")]
  | .date => [("type", .string "string"), ("format", .string "date")]
  | .uri => [("type", .string "string"), ("format", .string "uri")]
  | .email => [("type", .string "string"), ("format", .string "email")]

/-- A keyword for a bound, if there is one. -/
def boundMember (keyword : String) : Option Double → Members
  | some bound => [(keyword, .ofDouble bound)]
  | none => []

/-- The pointer to a definition inside the document. -/
def pointer (registry : Registry) (id : Nat) (definition : Definition) : String :=
  if registry.entry? = some id then "#" else "#/definitions/" ++ definition.name

mutual

/-- The schema of a type. -/
def ofType (registry : Registry) : FieldType Nat → Except Error Members
  | .primitive kind => .ok (ofPrimitive kind)
  | .reference id =>
    match registry.get? id with
    | some definition => .ok [("$ref", .string (pointer registry id definition))]
    | none => .error (.internal (.danglingType id))
  | .array item =>
    (ofType registry item).map fun members =>
      [("type", .string "array"), ("items", .object members)]
  | .optional inner => ofType registry inner
  | .union arms => (ofArms registry arms).map fun arms => [("anyOf", .array arms)]
  | .range kind least greatest =>
    .ok (ofPrimitive kind.primitive ++ boundMember "minimum" least ++
      boundMember "maximum" greatest)

/-- The schemas of the arms of a union. -/
def ofArms (registry : Registry) : List (FieldType Nat) → Except Error (List Json)
  | [] => .ok []
  | arm :: arms =>
    match ofType registry arm with
    | .error error => .error error
    | .ok members => (ofArms registry arms).map (Json.object members :: ·)

end

/-- A listed value as JSON. -/
def ofLiteral : Literal → Json
  | .text value => .string value
  | .number value => .ofDouble value

/-- The keyword of a constraint with its value. Lengths count the items of a list. -/
def ofConstraint (isArray : Bool) : Constraint → String × Json
  | .pattern text => ("pattern", .string text)
  | .minLength length => (if isArray then "minItems" else "minLength", .ofNat length)
  | .maxLength length => (if isArray then "maxItems" else "maxLength", .ofNat length)
  | .minimum bound => ("minimum", .ofDouble bound)
  | .maximum bound => ("maximum", .ofDouble bound)
  | .exclusiveMinimum bound => ("exclusiveMinimum", .ofDouble bound)
  | .exclusiveMaximum bound => ("exclusiveMaximum", .ofDouble bound)
  | .oneOf values => ("enum", .array (values.map ofLiteral))

/-- Add the keyword of a constraint. A keyword that is there already must have the
same value. -/
def addConstraint (owner : Definition) (field : DefinedField) (members : Members)
    (constraint : Constraint) : Except Error Members :=
  let (keyword, value) := ofConstraint field.type.required.isArray constraint
  let conflict :=
    match members.lookup keyword with
    | some existing => !existing.identical value
    | none => false
  if conflict then .error (.conflictingConstraint owner.name field.name keyword field.location)
  else .ok (Json.insertMember keyword value members)

/-- A reference as a member of a larger schema, since keywords beside a reference do
not count. -/
def wrapReference (members : Members) : Members :=
  if (members.lookup "$ref").isSome then [("allOf", .array [.object members])] else members

/-- The schema of a field. -/
def ofField (registry : Registry) (owner : Definition) (field : DefinedField) :
    Except Error Members := do
  let members ← ofType registry field.type.required
  if field.constraints.isEmpty then return members
  else field.constraints.foldlM (addConstraint owner field) (wrapReference members)

/-- Whether a field must be present. -/
def isRequired (content : RecordBody) (field : DefinedField) : Bool :=
  !field.isOptional || content.required.any fun names => names.contains field.name

/-- The schema of a record. -/
def ofRecord (registry : Registry) (owner : Definition) (content : RecordBody) :
    Except Error Members := do
  let properties ← content.fields.mapM fun field => do
    return (field.name, Json.object (← ofField registry owner field))
  let required := (content.fields.filter (isRequired content)).map DefinedField.name
  return [("type", .string "object"), ("properties", Json.ofMembers properties)] ++
    (if required.isEmpty then [] else [("required", .array (required.map .string))]) ++
    [("additionalProperties", .bool false)]

/-- The schema of a definition. -/
def ofDefinition (registry : Registry) (definition : Definition) : Except Error Members :=
  match definition.body with
  | .enumeration members =>
    .ok [("type", .string "string"), ("enum", .array (members.map .string))]
  | .record content => ofRecord registry definition content

/-- The members of the document that describe the entry. -/
def rootMembers (registry : Registry) : Except Error Members :=
  match registry.entry? with
  | none => .ok []
  | some id =>
    match registry.get? id with
    | none => .error (.internal (.danglingType id))
    | some definition => do
      return ("title", .string definition.name) :: (← ofDefinition registry definition)

/-- The document of a registry. -/
def ofRegistry (registry : Registry) : Except Error Json := do
  let root ← rootMembers registry
  let others := registry.numbered.filter fun (id, _) => registry.entry? ≠ some id
  let definitions ← others.mapM fun (_, definition) => do
    return (definition.name, Json.object (← ofDefinition registry definition))
  return .object
    ([("$schema", .string dialect)] ++ root ++ [("definitions", Json.ofMembers definitions)])

end SchemaLang.JsonSchema
