import SchemaLang.Error
import SchemaLang.Registry.Definition
import SchemaLang.Text.Naming

/-!
# Identifiers of bindings

Definitions and fields get identifiers in the style of the target language, so two
names may fall together. Bindings exist only for registries in which the
identifiers of the definitions are distinct, and so are those of the fields of each
record.
-/

namespace SchemaLang

/-- The words that a Rust program cannot use as identifiers. -/
def rustKeywords : List String :=
  ["as", "async", "await", "break", "const", "continue", "crate", "dyn", "else", "enum",
    "extern", "false", "fn", "for", "if", "impl", "in", "let", "loop", "match", "mod", "move",
    "mut", "pub", "ref", "return", "self", "Self", "static", "struct", "super", "trait", "true",
    "type", "unsafe", "use", "where", "while"]

/-- An identifier that is no keyword. -/
def avoidKeyword (identifier : String) : String :=
  if rustKeywords.contains identifier then identifier ++ "_" else identifier

/-- The identifier of a definition. -/
def Definition.identifier (definition : Definition) : String := Text.pascalCase definition.name

namespace Target

/-- The target that a user names, or the error that there is none. -/
def named (name : String) : Except Error Target :=
  match ofName? name with
  | some target => .ok target
  | none => .error (.unknownTarget name)

/-- The identifier of a field. -/
def fieldIdentifier : Target → String → String
  | .rust, name => avoidKeyword (Text.snakeCase name)
  | .typeScript, name => name

/-- Check that the identifiers of the fields of a definition are distinct. -/
def checkFields (target : Target) (definition : Definition) :
    List DefinedField → List DefinedField → Except Error Unit
  | _, [] => .ok ()
  | earlier, field :: fields =>
    let identifier := target.fieldIdentifier field.name
    match earlier.find? fun other => target.fieldIdentifier other.name = identifier with
    | some previous =>
      .error (.unsupported target
        (.fields previous.name field.name definition.name identifier) field.location)
    | none => checkFields target definition (earlier ++ [field]) fields

/-- Check that the identifiers of definitions, and of the fields of each, are
distinct. -/
def checkDefinitions (target : Target) :
    List Definition → List Definition → Except Error Unit
  | _, [] => .ok ()
  | earlier, definition :: definitions =>
    match earlier.find? fun other => other.identifier = definition.identifier with
    | some previous =>
      .error (.unsupported target
        (.declarations previous.name definition.name definition.identifier) definition.location)
    | none =>
      match checkFields target definition [] definition.fields with
      | .error error => .error error
      | .ok _ => checkDefinitions target (earlier ++ [definition]) definitions

/-- Check that all identifiers of a registry are distinct. -/
def checkIdentifiers (target : Target) (registry : Registry) : Except Error Unit :=
  checkDefinitions target [] registry.definitions

end Target

/-- The first line of every generated file. -/
def generatedHeader : String := "// Code generated by bsdl. DO NOT EDIT."

/-- The field whose type is being written, and the definition it belongs to. -/
structure FieldContext where
  registry : Registry
  ownerId : Nat
  owner : Definition
  field : DefinedField

namespace FieldContext

/-- The definition of a number. -/
def definition (context : FieldContext) (id : Nat) : Except Error Definition :=
  match context.registry.get? id with
  | some definition => .ok definition
  | none => .error (.internal (.danglingType id))

end FieldContext

end SchemaLang
