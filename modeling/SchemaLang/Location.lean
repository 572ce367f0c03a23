/-!
# Locations

A location says where in the sources something stands: the label of the module,
and a line and a column that both count from one. A definition that is built in
stands at line zero.
-/

namespace SchemaLang

/-- A place in a module. -/
structure Location where
  source : String
  line : Nat
  column : Nat
deriving DecidableEq, Repr, Inhabited

namespace Location

/-- The location as messages write it. -/
def describe (location : Location) : String :=
  s!"{location.source}:{location.line}:{location.column}"

/-- Where the built-in types stand. -/
def builtin : Location := ⟨"<builtin>", 0, 0⟩

/-- The first place of a module. -/
def start (source : String) : Location := ⟨source, 1, 1⟩

/-- The place after one more character. -/
def after (location : Location) (c : Char) : Location :=
  if c = '\n' then ⟨location.source, location.line + 1, 1⟩
  else ⟨location.source, location.line, location.column + 1⟩

/-- The place after some more characters. -/
def afterAll (location : Location) (chars : List Char) : Location :=
  chars.foldl after location

end Location

end SchemaLang
