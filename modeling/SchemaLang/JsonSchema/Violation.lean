import SchemaLang.Error
import SchemaLang.Json.Printer
import SchemaLang.JsonSchema.Checking

/-!
# Violations

What is reported of the failures of a check: where in the value, which keyword, and the
offending part. Two keywords about members point at the member and not at the object: a
required member that is missing, with no value, and a member that should not be there.

The keyword is read off the place in the schema: it is the last step of its text. A schema
that refuses all values has no keyword, so the last step is then whatever leads to that
schema.
-/

namespace SchemaLang.JsonSchema

/-- A pointer as it is written. -/
structure PointerText where
  text : String
deriving DecidableEq, Repr

/-- One failed check. -/
structure Violation where
  path : PointerText
  keyword : String
  value : Json
deriving Repr

namespace Violation

/-- The violation as a line for a reader. -/
def display (violation : Violation) : String :=
  let path := violation.path.text
  let place := if path = "" then "/" else path
  place ++ ": failed " ++ violation.keyword ++ " (value " ++ violation.value.compact ++ ")"

end Violation

/-- Put other characters for each that is the same as a given one. -/
def substitute (old : Char) (new text : List Char) : List Char :=
  text.flatMap fun c => if c = old then new else [c]

/-- Add a step at the end of a pointer. Tildes are escaped first, since slashes are escaped
with tildes. -/
def PointerText.push (path : PointerText) (segment : String) : PointerText :=
  let escaped := substitute '/' ['~', '1'] (substitute '~' ['~', '0'] segment.toList)
  ⟨path.text ++ "/" ++ String.ofList escaped⟩

namespace Failure

/-- The last step of the text of the place in the schema. -/
def keyword (failure : Failure) : String :=
  match (failure.schemaPath.text.toList.splitOn '/').getLast? with
  | none | some [] => "false"
  | some last => String.ofList last

/-- The violations that a failure is reported as. -/
def violations (failure : Failure) : List Violation :=
  let path : PointerText := ⟨failure.instancePath.text⟩
  match failure.kind with
  | .required property =>
    let name :=
      match property with
      | .string name => name
      | other => other.compact
    [⟨path.push name, "required", .null⟩]
  | .additionalProperties first others =>
    (first :: others).map fun name =>
      ⟨path.push name, "additionalProperties", (failure.value.members.lookup name).getD .null⟩
  | .other => [⟨path, failure.keyword, failure.value⟩]

end Failure

/-- Check an instance against a schema document. -/
def validate (schema value : Json) : Except Fault (List Violation) := do
  return ((← SchemaDocument.ofJson schema).failures value).flatMap Failure.violations

/-- Check the text of an instance against the text of a schema document. -/
def validateText (schema value : String) : Except Error (List Violation) := do
  let read (subject text : String) : Except Error Json :=
    match Json.read text with
    | .ok value => .ok value
    | .error fault => .error (.configuration subject (.json fault))
  let schema ← read "schema" schema
  let value ← read "instance" value
  match validate schema value with
  | .ok violations => return violations
  | .error fault => .error (.internal (.invalidSchema fault))

end SchemaLang.JsonSchema
