import SchemaLang.Number.Double
import SchemaLang.Primitive

/-!
# Field types

The type of a field, over the way in which other types are referred to: by the
name that the author wrote, or by the number of a definition once names are looked
up. Linking replaces every reference and keeps all else, so it is the traversal
`FieldType.link`.
-/

namespace SchemaLang

/-- A type expression whose references are of type `ρ`. -/
inductive FieldType (ρ : Type) where
  | primitive (kind : Primitive)
  | reference (target : ρ)
  | array (item : FieldType ρ)
  | optional (inner : FieldType ρ)
  | union (arms : List (FieldType ρ))
  | range (kind : NumericKind) (least greatest : Option Double)
deriving Repr

namespace FieldType

variable {ρ σ ε : Type}

mutual

/-- Replace every reference, or stop at the first that cannot be replaced. -/
def link (replace : ρ → Except ε σ) : FieldType ρ → Except ε (FieldType σ)
  | .primitive kind => .ok (.primitive kind)
  | .reference target => (replace target).map .reference
  | .array item => (item.link replace).map .array
  | .optional inner => (inner.link replace).map .optional
  | .union arms => (linkAll replace arms).map .union
  | .range kind least greatest => .ok (.range kind least greatest)

/-- Replace every reference in a list of types, from left to right. -/
def linkAll (replace : ρ → Except ε σ) : List (FieldType ρ) → Except ε (List (FieldType σ))
  | [] => .ok []
  | type :: types =>
    match type.link replace with
    | .error error => .error error
    | .ok type => (linkAll replace types).map (type :: ·)

end

/-- Whether a field of this type may be absent. -/
def isOptional : FieldType ρ → Bool
  | .optional _ => true
  | _ => false

/-- The type of a field when it is present. -/
def required : FieldType ρ → FieldType ρ
  | .optional inner => inner
  | type => type

/-- Whether the values are lists. -/
def isArray : FieldType ρ → Bool
  | .array _ => true
  | _ => false

mutual

/-- The references that are held by value: those behind an array are not. -/
def directReferences : FieldType ρ → List ρ
  | .reference target => [target]
  | .optional inner => inner.directReferences
  | .union arms => directReferencesOfAll arms
  | .array _ => []
  | .primitive _ => []
  | .range _ _ _ => []

/-- The references of several types that are held by value. -/
def directReferencesOfAll : List (FieldType ρ) → List ρ
  | [] => []
  | type :: types => type.directReferences ++ directReferencesOfAll types

end

end FieldType

end SchemaLang
