import SchemaLang.Bindings.Identifier

/-!
# TypeScript bindings

Records become interfaces and enums become unions of string literals. Every type
expression has a form of its own, so only identifiers can fall together.
-/

namespace SchemaLang.TypeScriptBindings

/-- The lines before the first definition. -/
def preamble : List String := [generatedHeader, ""]

/-- Whether a name can be a property key without quotes. -/
def isPlainKey (name : String) : Bool :=
  match name.toList with
  | [] => false
  | first :: others =>
    (first.isAlpha || first = '_' || first = '$') &&
      others.all fun c => c.isAlphanum || c = '_' || c = '$'

/-- A property key. -/
def propertyKey (name : String) : String :=
  if isPlainKey name then name else Text.quote name

/-- The type for a built-in type. -/
def ofPrimitive : Primitive → String
  | .integer => "number"
  | .number => "number"
  | .boolean => "boolean"
  | .any => "unknown"
  | .string => "string"
  | .dateTime => "string"
  | .date => "string"
  | .uri => "string"
  | .email => "string"

/-- Whether the form of a type has to stand in parentheses before brackets. -/
def needsParentheses : FieldType Nat → Bool
  | .union _ => true
  | .optional _ => true
  | _ => false

mutual

/-- The type for a type expression. -/
def ofType (registry : Registry) : FieldType Nat → Except Error String
  | .primitive kind => .ok (ofPrimitive kind)
  | .range kind _ _ => .ok (ofPrimitive kind.primitive)
  | .reference id =>
    match registry.get? id with
    | some definition => .ok definition.identifier
    | none => .error (.internal (.danglingType id))
  | .array item =>
    (ofType registry item).map fun text =>
      if needsParentheses item then "(" ++ text ++ ")[]" else text ++ "[]"
  | .optional inner => (ofType registry inner).map (· ++ " | undefined")
  | .union arms => (ofArms registry arms).map (" | ".intercalate ·)

/-- The types for the arms of a union. -/
def ofArms (registry : Registry) : List (FieldType Nat) → Except Error (List String)
  | [] => .ok []
  | arm :: arms =>
    match ofType registry arm with
    | .error error => .error error
    | .ok text => (ofArms registry arms).map (text :: ·)

end

/-- The line of a field. -/
def ofField (registry : Registry) (field : DefinedField) : Except Error String := do
  let type ← ofType registry field.type.required
  let mark := if field.isOptional then "?" else ""
  return "  " ++ propertyKey field.name ++ mark ++ ": " ++ type ++ ";"

/-- A definition as text. -/
def ofDefinition (registry : Registry) (definition : Definition) : Except Error String :=
  match definition.body with
  | .enumeration members =>
    .ok ("export type " ++ definition.identifier ++ " = " ++
      " | ".intercalate (members.map Text.quote) ++ ";\n")
  | .record content => do
    let lines ← content.fields.mapM (ofField registry)
    return "\n".intercalate
      (["export interface " ++ definition.identifier ++ " \x7b"] ++ lines ++ ["\x7d\n"])

end SchemaLang.TypeScriptBindings
