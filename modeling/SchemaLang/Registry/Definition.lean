import SchemaLang.Module.Scope

/-!
# Definitions

A registry holds the definitions of a whole compilation, numbered in the order of
their declarations. References between them are numbers, so definitions may refer
to themselves and to each other. Names are unique in a registry that was built.
-/

namespace SchemaLang

/-- A value that a field may be restricted to. -/
inductive Literal where
  | text (value : String)
  | number (value : Double)
deriving DecidableEq, Repr

/-- A restriction of the values of a field. -/
inductive Constraint where
  | pattern (text : String)
  | minLength (length : Nat)
  | maxLength (length : Nat)
  | minimum (bound : Double)
  | maximum (bound : Double)
  | exclusiveMinimum (bound : Double)
  | exclusiveMaximum (bound : Double)
  | oneOf (values : List Literal)
deriving DecidableEq, Repr

/-- A field whose references are numbers of definitions. -/
structure DefinedField where
  name : String
  type : FieldType Nat
  constraints : List Constraint
  location : Location
deriving Repr

namespace DefinedField

/-- Whether the field may be absent. -/
def isOptional (field : DefinedField) : Bool := field.type.isOptional

end DefinedField

/-- A record: its fields, the lists of fields that must be present although they
are optional, and whether it is the entry. -/
structure RecordBody where
  fields : List DefinedField
  required : List (List String)
  isEntry : Bool
deriving Repr

/-- What a definition says. -/
inductive DefinitionBody where
  | enumeration (members : List String)
  | record (content : RecordBody)
deriving Repr

/-- A definition under its full name. -/
structure Definition where
  name : String
  scope? : Option String
  location : Location
  body : DefinitionBody
deriving Repr

namespace Definition

/-- The fields of a record, and none of an enum. -/
def fields (definition : Definition) : List DefinedField :=
  match definition.body with
  | .record content => content.fields
  | .enumeration _ => []

/-- Whether a definition is the entry. -/
def isEntry (definition : Definition) : Bool :=
  match definition.body with
  | .record content => content.isEntry
  | .enumeration _ => false

end Definition

/-- Definitions by number, and the number of the entry. -/
structure Registry where
  definitions : List Definition
  entry? : Option Nat
deriving Repr

namespace Registry

/-- How many definitions there are. -/
def size (registry : Registry) : Nat := registry.definitions.length

/-- The definition of a number. -/
def get? (registry : Registry) (id : Nat) : Option Definition := registry.definitions[id]?

/-- The number of the definition with a full name. -/
def lookup? (registry : Registry) (name : String) : Option Nat :=
  registry.definitions.findIdx? fun definition => definition.name = name

/-- The number that a name means inside a scope: the definition of the scope comes
before the one outside of it. -/
def lookupIn? (registry : Registry) (scope? : Option String) (name : String) : Option Nat :=
  match scope? with
  | some scope => registry.lookup? (qualify (some scope) name) <|> registry.lookup? name
  | none => registry.lookup? name

/-- The definitions with their numbers. -/
def numbered (registry : Registry) : List (Nat × Definition) :=
  registry.definitions.mapIdx fun id definition => (id, definition)

/-- Replace the definition of a number. -/
def set (registry : Registry) (id : Nat) (definition : Definition) : Registry :=
  { registry with definitions := registry.definitions.set id definition }

end Registry

end SchemaLang
