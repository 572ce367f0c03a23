import SchemaLang.Text.Quoted

/-!
# Constructs without a binding

What a schema may say that a language for bindings cannot. Each construct makes
two things fall together that have to stay apart, or nests one union in another.
-/

namespace SchemaLang

/-- A construct that a binding target cannot express. -/
inductive Construct where
  | declarations (first second identifier : String)
  | fields (first second owner identifier : String)
  | unionNameReused (owner field identifier : String)
  | unionNameDeclared (owner field identifier : String)
  | sameArms (type : String)
  | nestedUnion
  | sameVariants (identifier variant : String)
deriving DecidableEq, Repr

namespace Construct

/-- The construct as messages name it. -/
def describe : Construct → String
  | .declarations first second identifier =>
    s!"declarations {Text.quote first} and {Text.quote second} that both map to {identifier}"
  | .fields first second owner identifier =>
    s!"fields {Text.quote first} and {Text.quote second} of {Text.quote owner} " ++
      s!"that both map to {identifier}"
  | .unionNameReused owner field identifier =>
    s!"a union on {owner}.{field} (the generated enum {identifier} " ++
      "is already used by another union)"
  | .unionNameDeclared owner field identifier =>
    s!"a union on {owner}.{field} (the generated enum {identifier} " ++
      "collides with a declared type)"
  | .sameArms type => s!"a union whose arms map to the same Rust type `{type}`"
  | .nestedUnion => "a nested union"
  | .sameVariants identifier variant =>
    s!"enum members that both map to the variant {identifier}::{variant}"

end Construct

end SchemaLang
