/-!
# Binding targets

The languages for which bindings can be generated.
-/

namespace SchemaLang

/-- A language for bindings. -/
inductive Target where
  | rust
  | typeScript
deriving DecidableEq, Repr

namespace Target

/-- The name of a target. -/
def name : Target → String
  | .rust => "rust"
  | .typeScript => "typescript"

/-- The extension of a generated file. -/
def extension : Target → String
  | .rust => "rs"
  | .typeScript => "ts"

/-- The target that a user names, by its name or its extension, in any case. -/
def ofName? (name : String) : Option Target :=
  match String.ofList (name.toList.map Char.toLower) with
  | "rust" | "rs" => some .rust
  | "typescript" | "ts" => some .typeScript
  | _ => none

end Target

end SchemaLang
