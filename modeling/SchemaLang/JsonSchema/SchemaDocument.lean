import SchemaLang.JsonSchema.Reader
import SchemaLang.JsonSchema.Shape

/-!
# Schemas with their references

A schema refers to parts of the document it stands in. A document can be used when its
draft is known, it has the shape of a schema and every reference that can be reached from
its root leads to a value that can be read as one. Only as many different references exist
as the document has parts, which bounds the search.
-/

namespace SchemaLang.JsonSchema

/-- A schema and the schemas that references lead to. -/
structure SchemaDocument where
  root : Schema
  targets : List (String × Schema)
  /-- The number of parts of the document. -/
  weight : Nat

/-- The schema that a reference leads to. -/
def resolveReference (draft : Draft) (document : Json) (text : String) : Except Fault Schema :=
  match (referencePointer? text).bind document.at? with
  | some part => Schema.ofJson draft part
  | none => .error (.danglingReference text)

mutual

/-- The references in a schema. -/
def Schema.references : Schema → List String
  | .always => []
  | .never => []
  | .reference text => [text]
  | .keywords keywords => referencesOfKeywords keywords

/-- The references in keywords. -/
def referencesOfKeywords : List Keyword → List String
  | [] => []
  | keyword :: keywords => keyword.references ++ referencesOfKeywords keywords

/-- The references in a keyword. -/
def Keyword.references : Keyword → List String
  | .properties members => referencesOfMembers members
  | .additionalProperties schema => schema.references
  | .items schema => schema.references
  | .itemsInOrder schemas => referencesOfAll schemas
  | .anyOf schemas => referencesOfAll schemas
  | .allOf schemas => referencesOfAll schemas
  | .reference text => [text]
  | _ => []

/-- The references in schemas under names. -/
def referencesOfMembers : List (String × Schema) → List String
  | [] => []
  | (_, schema) :: members => schema.references ++ referencesOfMembers members

/-- The references in schemas. -/
def referencesOfAll : List Schema → List String
  | [] => []
  | schema :: schemas => schema.references ++ referencesOfAll schemas

end

/-- Follow references to schemas that have not been met, and then their references. -/
def followReferences (draft : Draft) (document : Json) :
    Nat → List String → List (String × Schema) → Except Fault (List (String × Schema))
  | _, [], targets => .ok targets
  | 0, _ :: _, targets => .ok targets
  | rounds + 1, texts, targets => do
    let fresh := texts.eraseDups.filter fun text => (targets.lookup text).isNone
    let found ← fresh.mapM fun text => do return (text, ← resolveReference draft document text)
    followReferences draft document rounds (found.flatMap fun (_, schema) => schema.references)
      (targets ++ found)

namespace SchemaDocument

/-- Read a document with all its references. -/
def ofJson (document : Json) : Except Fault SchemaDocument := do
  let draft ← Draft.ofDocument document
  checkShape draft document
  let root ← Schema.ofJson draft document
  let targets ← followReferences draft document document.size root.references []
  return ⟨root, targets, document.size⟩

end SchemaDocument

end SchemaLang.JsonSchema
