import SchemaLang.JsonSchema.SchemaDocument

/-!
# Checking values

Checking a value against a schema gives the list of its failures. A failure has a place in
the value, the place of the failed keyword in the schema, and the part of the value that
was checked. A missing member and members that should not be there are failures of the
object, and their kind names the members. Where members are refused and none are declared,
the failure is at the object too, but what it carries is the first member. An instance of no
arm of a choice fails the choice as a whole.

References may lead round in circles, so checking counts its steps down. Between two
steps into the value there are at most as many as the document has parts.
-/

namespace SchemaLang.JsonSchema

/-- What has failed, where that is more than a condition on the whole value. -/
inductive FailureKind where
  | required (property : Json)
  | additionalProperties (first : String) (others : List String)
  | other
deriving Repr

/-- One failed check. -/
structure Failure where
  instancePath : Pointer
  schemaPath : Pointer
  kind : FailureKind
  value : Json
deriving Repr

/-- The failure of a condition on the whole value. -/
def failureIf (failed : Bool) (location path : Pointer) (value : Json) : List Failure :=
  if failed then [⟨path, location, .other, value⟩] else []

/-- A check of one value by the schema at a place. -/
abbrev SchemaCheck := Pointer → Schema → Pointer → Json → List Failure

/-- The items of a list, each checked by the schema at its position. -/
def checkInOrder (check : SchemaCheck) (location path : Pointer) :
    Nat → List Schema → List Json → List Failure
  | position, schema :: schemas, item :: items =>
    check (location ++ [toString position]) schema (path ++ [toString position]) item ++
      checkInOrder check location path (position + 1) schemas items
  | _, _, _ => []

/-- The members of an object that are not declared. -/
def undeclared (declared? : Option (List String)) (members : List (String × Json)) :
    List (String × Json) :=
  members.filter fun (name, _) => !(declared?.getD []).contains name

/-- The members of a value that should not be there. -/
def checkUndeclared (declared? : Option (List String)) (location path : Pointer) (value : Json) :
    List Failure :=
  match declared?, value.members with
  | some _, members =>
    match (undeclared declared? members).map (·.1) with
    | [] => []
    | first :: others => [⟨path, location, .additionalProperties first others, value⟩]
  | none, (_, part) :: _ => [⟨path, location, .other, part⟩]
  | none, [] => []

/-- The failures of one keyword. `check` checks the parts of a value, and `declared?` holds
the names of the properties declared beside the keyword. -/
def Keyword.failures (check : SchemaCheck) (declared? : Option (List String))
    (location path : Pointer) (value : Json) : Keyword → List Failure
  | .type types =>
    failureIf (!types.any fun type => type.holds value) (location ++ ["type"]) path value
  | .enum values =>
    failureIf (!values.any fun other => other.equalValue value) (location ++ ["enum"]) path value
  | .bound kind edge =>
    match value with
    | .number number =>
      failureIf (!kind.holds edge number) (location ++ [kind.keyword]) path value
    | _ => []
  | .limit kind length =>
    failureIf (!kind.holds length value) (location ++ [kind.keyword]) path value
  | .pattern stated =>
    match value with
    | .string text => failureIf (!stated.occursIn text) (location ++ ["pattern"]) path value
    | _ => []
  | .required names =>
    match value with
    | .object members =>
      (names.filter fun name => (members.lookup name).isNone).map fun name =>
        ⟨path, location ++ ["required"], .required (.string name), value⟩
    | _ => []
  | .properties schemas =>
    schemas.flatMap fun (name, schema) =>
      match value.members.lookup name with
      | some part => check (location ++ ["properties", name]) schema (path ++ [name]) part
      | none => []
  | .additionalProperties .never =>
    checkUndeclared declared? (location ++ ["additionalProperties"]) path value
  | .additionalProperties schema =>
    (undeclared declared? value.members).flatMap fun (name, part) =>
      check (location ++ ["additionalProperties"]) schema (path ++ [name]) part
  | .items schema =>
    match value with
    | .array parts =>
      parts.zipIdx.flatMap fun (item, position) =>
        check (location ++ ["items"]) schema (path ++ [toString position]) item
    | _ => []
  | .itemsInOrder schemas =>
    match value with
    | .array parts => checkInOrder check (location ++ ["items"]) path 0 schemas parts
    | _ => []
  | .anyOf schemas =>
    failureIf (!schemas.zipIdx.any fun (schema, position) =>
      (check (location ++ ["anyOf", toString position]) schema path value).isEmpty)
        (location ++ ["anyOf"]) path value
  | .allOf schemas =>
    schemas.zipIdx.flatMap fun (schema, position) =>
      check (location ++ ["allOf", toString position]) schema path value
  | .reference text => check location (.reference text) path value

namespace SchemaDocument

/-- The failures of a value at a schema, within a number of steps. -/
def check (document : SchemaDocument) : Nat → SchemaCheck
  | 0, _, _, _, _ => []
  | steps + 1, location, schema, path, value =>
    match schema with
    | .always => []
    | .never => [⟨path, location, .other, value⟩]
    | .reference text =>
      match document.targets.lookup text with
      | some target => check document steps (location ++ ["$ref"]) target path value
      | none => []
    | .keywords keywords =>
      keywords.flatMap
        (Keyword.failures (check document steps) (declaredNames? keywords) location path value)

/-- The failures of an instance. -/
def failures (document : SchemaDocument) (value : Json) : List Failure :=
  check document ((value.depth + 1) * (document.weight + 1)) [] document.root [] value

end SchemaDocument

end SchemaLang.JsonSchema
