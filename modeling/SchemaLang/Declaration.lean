import SchemaLang.FieldType
import SchemaLang.Location
import SchemaLang.Number.Spelling
import SchemaLang.Text.Quoted

/-!
# Declarations

What a module says: it imports other modules, declares enums and record types, one
of which may be the entry, and states rules that the values of a type must obey.
-/

namespace SchemaLang

/-- A field of a record type, as written. -/
structure Field where
  name : String
  type : FieldType String
  location : Location
deriving Repr

/-- An import of another module, under an alias or not. -/
structure Import where
  path : String
  alias? : Option String
  location : Location
deriving DecidableEq, Repr

/-- A type whose values are listed. -/
structure EnumDeclaration where
  name : String
  members : List String
  location : Location
deriving DecidableEq, Repr

/-- A type whose values have named fields. -/
structure RecordDeclaration where
  name : String
  fields : List Field
  location : Location
deriving Repr

/-- An argument of a constraint. -/
inductive Argument where
  | text (value : String)
  | number (value : Double)
  | word (name : String)
deriving DecidableEq, Repr

/-- The argument as messages show it. Only texts stand between quotes. -/
def Argument.display : Argument → String
  | .text value => Text.display value
  | .number value => value.display
  | .word name => name

/-- A constraint as it is called. -/
structure Call where
  name : String
  arguments : List Argument
  location : Location
deriving DecidableEq, Repr

/-- The constraints on one field, or on the type itself. -/
structure Rule where
  key : String
  calls : List Call
  location : Location
deriving DecidableEq, Repr

/-- Rules for a named type, or for the type that precedes the block. -/
structure ValidationBlock where
  target? : Option String
  rules : List Rule
  location : Location
deriving DecidableEq, Repr

/-- One statement of a module. -/
inductive Declaration where
  | moduleImport (content : Import)
  | enumeration (content : EnumDeclaration)
  | record (content : RecordDeclaration)
  | entry (content : RecordDeclaration)
  | validation (content : ValidationBlock)
deriving Repr

namespace Declaration

/-- Where a declaration stands. -/
def location : Declaration → Location
  | .moduleImport content => content.location
  | .enumeration content => content.location
  | .record content => content.location
  | .entry content => content.location
  | .validation content => content.location

/-- The name a declaration introduces, if it does. -/
def name? : Declaration → Option String
  | .enumeration content => some content.name
  | .record content => some content.name
  | .entry content => some content.name
  | .moduleImport _ => none
  | .validation _ => none

/-- The import that a declaration is, if it is one. -/
def import? : Declaration → Option Import
  | .moduleImport content => some content
  | _ => none

end Declaration

end SchemaLang
