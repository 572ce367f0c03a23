import SchemaLang.JsonSchema.Draft
import SchemaLang.JsonSchema.Schema

/-!
# Reading schemas

A JSON value is read as a schema keyword by keyword. Only what a check needs is asked
of it here, so that a part of a document that is no schema by its place can be read
when a reference leads to it: an empty list of types has no instances, and a negative
length counts as zero. Keywords that are not known state nothing. In a draft where
references stand alone the other keywords beside one state nothing either.
-/

namespace SchemaLang.JsonSchema

/-- The text that is the value of a keyword. -/
def textValue (keyword : String) : Json → Except Fault String
  | .string text => .ok text
  | _ => .error (.keyword keyword)

/-- The texts that are the items of a value. -/
def textsValue (keyword : String) : Json → Except Fault (List String)
  | .array items => items.mapM (textValue keyword)
  | _ => .error (.keyword keyword)

/-- The type of a name. -/
def typeNamed (name : String) : Except Fault SimpleType :=
  match SimpleType.ofName? name with
  | some type => .ok type
  | none => .error (.keyword "type")

/-- The types that a value names: one, or several in a list. -/
def typesValue : Json → Except Fault (List SimpleType)
  | .string name => do return [← typeNamed name]
  | value => do (← textsValue "type" value).mapM typeNamed

/-- The number that is the value of a bound. -/
def boundValue (kind : Bound) : Json → Except Fault Keyword
  | .number limit => .ok (.bound kind limit)
  | _ => .error (.keyword kind.keyword)

/-- The length that is the value of a limit. -/
def limitValue (kind : Limit) : Json → Except Fault Keyword
  | .number value =>
    if value.isWhole then .ok (.limit kind value.truncated.toNat)
    else .error (.keyword kind.keyword)
  | _ => .error (.keyword kind.keyword)

/-- The pattern that is the value of a keyword. -/
def patternValue (value : Json) : Except Fault Keyword := do
  let text ← textValue "pattern" value
  match Pattern.SchemaPattern.read text with
  | .ok pattern => return .pattern pattern
  | .error fault => .error (.pattern text fault)

/-- The condition of a keyword whose value holds no schemas, if there is one. -/
def plainKeyword (name : String) (value : Json) : Except Fault (List Keyword) := do
  match name with
  | "type" => return [.type (← typesValue value)]
  | "enum" =>
    match value with
    | .array values => return [.enum values]
    | _ => .error (.keyword name)
  | "minimum" => return [← boundValue .minimum value]
  | "maximum" => return [← boundValue .maximum value]
  | "exclusiveMinimum" => return [← boundValue .exclusiveMinimum value]
  | "exclusiveMaximum" => return [← boundValue .exclusiveMaximum value]
  | "minLength" => return [← limitValue .minLength value]
  | "maxLength" => return [← limitValue .maxLength value]
  | "minItems" => return [← limitValue .minItems value]
  | "maxItems" => return [← limitValue .maxItems value]
  | "pattern" => return [← patternValue value]
  | "required" => return [.required (← textsValue name value)]
  | "$ref" => return [.reference (← textValue name value)]
  | _ => return []

/-- The schema of an object with these members, whose conditions are given. -/
def Schema.ofMembers (draft : Draft) (members : List (String × Json))
    (keywords : Except Fault (List Keyword)) : Except Fault Schema :=
  match if draft.referenceAlone then members.lookup "$ref" else none with
  | some (.string text) => .ok (.reference text)
  | some _ => .error (.keyword "$ref")
  | none => keywords.map .keywords

mutual

/-- The schema that a value is. -/
def Schema.ofJson (draft : Draft) : Json → Except Fault Schema
  | .bool true => .ok .always
  | .bool false => .ok .never
  | .object members => Schema.ofMembers draft members (keywordsOf draft members)
  | _ => .error .notASchema

/-- The conditions of the members of a schema. -/
def keywordsOf (draft : Draft) : List (String × Json) → Except Fault (List Keyword)
  | [] => .ok []
  | (name, value) :: members => do
    let keywords ← keywordOf draft name value
    return keywords ++ (← keywordsOf draft members)

/-- The condition of a keyword, if there is one. -/
def keywordOf (draft : Draft) (name : String) : Json → Except Fault (List Keyword)
  | .object members => do
    match name with
    | "properties" => return [.properties (← schemasNamed draft members)]
    | "additionalProperties" =>
      return [.additionalProperties (← Schema.ofMembers draft members (keywordsOf draft members))]
    | "items" => return [.items (← Schema.ofMembers draft members (keywordsOf draft members))]
    | "anyOf" | "allOf" => .error (.keyword name)
    | _ => plainKeyword name (.object members)
  | .array items => do
    match name with
    | "anyOf" => return [.anyOf (← schemasOf draft items)]
    | "allOf" => return [.allOf (← schemasOf draft items)]
    | "items" =>
      if draft.itemsInOrder then return [.itemsInOrder (← schemasOf draft items)]
      else .error (.keyword name)
    | "properties" | "additionalProperties" => .error (.keyword name)
    | _ => plainKeyword name (.array items)
  | .bool value => do
    let schema : Schema := if value then .always else .never
    match name with
    | "additionalProperties" => return [.additionalProperties schema]
    | "items" => return [.items schema]
    | "anyOf" | "allOf" | "properties" => .error (.keyword name)
    | _ => plainKeyword name (.bool value)
  | value =>
    match name with
    | "anyOf" | "allOf" | "properties" | "additionalProperties" => .error (.keyword name)
    | _ => plainKeyword name value

/-- Schemas under names. -/
def schemasNamed (draft : Draft) : List (String × Json) → Except Fault (List (String × Schema))
  | [] => .ok []
  | (name, value) :: members => do
    let schema ← Schema.ofJson draft value
    return (name, schema) :: (← schemasNamed draft members)

/-- Schemas in a list. -/
def schemasOf (draft : Draft) : List Json → Except Fault (List Schema)
  | [] => .ok []
  | value :: values => do
    let schema ← Schema.ofJson draft value
    return schema :: (← schemasOf draft values)

end

end SchemaLang.JsonSchema
