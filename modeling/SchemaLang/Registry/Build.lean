import SchemaLang.Registry.Constraint

/-!
# Building a registry

A registry is built in three passes over the declarations of a compilation. The
first collects the names, so that the second can replace every reference by a
number, whatever the order of the declarations. The third attaches the validation
blocks. An error of an earlier pass comes before every error of a later one.
-/

namespace SchemaLang

/-- A declaration that introduces a name, with that name. -/
structure Outline where
  name : String
  statement : ScopedDeclaration
deriving Repr

namespace Outline

/-- Where the declaration stands. -/
def location (outline : Outline) : Location := outline.statement.declaration.location

/-- Whether the declaration is an entry. -/
def isEntry (outline : Outline) : Bool :=
  match outline.statement.declaration with
  | .entry _ => true
  | _ => false

/-- Add a declaration to those before it, if it introduces a name. A name may not be
that of a built-in type, nor be used before, and there is at most one entry. -/
def add (earlier : List Outline) (statement : ScopedDeclaration) : Except Error (List Outline) :=
  match statement.qualifiedName? with
  | none => .ok earlier
  | some name =>
    let outline : Outline := ⟨name, statement⟩
    if (Primitive.ofKeyword? name).isSome then
      .error (.duplicateDeclaration name outline.location Location.builtin)
    else
      match earlier.find? fun other => other.name = name with
      | some previous =>
        .error (.duplicateDeclaration name outline.location previous.location)
      | none =>
        match earlier.find? isEntry, outline.isEntry with
        | some previous, true =>
          .error (.multipleEntries name previous.name outline.location)
        | _, _ => .ok (earlier ++ [outline])

/-- The definition of a declaration before its fields are linked. -/
def definition (outline : Outline) : Definition :=
  let body : DefinitionBody :=
    match outline.statement.declaration with
    | .enumeration content => .enumeration content.members
    | _ => .record ⟨[], [], outline.isEntry⟩
  ⟨outline.name, outline.statement.scope?, outline.location, body⟩

end Outline

namespace Registry

/-- The registry of outlines, with fields still missing. -/
def ofOutlines (outlines : List Outline) : Registry :=
  ⟨outlines.map Outline.definition, outlines.findIdx? Outline.isEntry⟩

/-- A field with its references looked up. -/
def linkField (names : Registry) (outline : Outline) (field : Field) :
    Except Error DefinedField := do
  let find (name : String) : Except Error Nat :=
    match names.lookupIn? outline.statement.scope? name with
    | some id => .ok id
    | none => .error (.unresolvedReference name field.name outline.name field.location)
  return ⟨field.name, ← field.type.link find, [], field.location⟩

/-- The definition of a declaration with its fields linked. -/
def linkOutline (names : Registry) (outline : Outline) : Except Error Definition := do
  let linked (content : RecordDeclaration) : Except Error Definition := do
    let fields ← content.fields.mapM (linkField names outline)
    return { outline.definition with body := .record ⟨fields, [], outline.isEntry⟩ }
  match outline.statement.declaration with
  | .record content => linked content
  | .entry content => linked content
  | _ => return outline.definition

/-- The registry of declarations, without their validation blocks. -/
def link (declarations : List ScopedDeclaration) : Except Error Registry := do
  let outlines ← declarations.foldlM Outline.add []
  let names := ofOutlines outlines
  let definitions ← outlines.mapM (linkOutline names)
  return { names with definitions }

/-- Add constraints to the field at a position. -/
def constrainField (position : Nat) (constraints : List Constraint) (fields : List DefinedField) :
    List DefinedField :=
  fields.modify position fun field =>
    { field with constraints := field.constraints ++ constraints }

/-- A body with further required fields. An enum has no place for them. -/
def require (required : List (List String)) : DefinitionBody → DefinitionBody
  | .enumeration members => .enumeration members
  | .record content => .record { content with required := content.required ++ required }

/-- A body with further constraints on the field at a position. -/
def constrain (position : Nat) (constraints : List Constraint) : DefinitionBody → DefinitionBody
  | .enumeration members => .enumeration members
  | .record content =>
    .record { content with fields := constrainField position constraints content.fields }

/-- The definition after a rule. -/
def applyRule (definition : Definition) (rule : Rule) : Except Error Definition := do
  if rule.key = "self" then
    let required ← rule.calls.mapM fun call => call.onSelf definition
    return { definition with body := require required definition.body }
  else
    match definition.fields.findIdx? fun field => field.name = rule.key with
    | none => .error (.invalidConstraint (.noSuchField definition.name rule.key) rule.location)
    | some position =>
      let constraints ← rule.calls.mapM Call.onField
      return { definition with body := constrain position constraints definition.body }

/-- The definition that a validation block is about: the one it names, or else the
last record before it in the same contribution. -/
def validationTarget (registry : Registry) (statement : ScopedDeclaration)
    (block : ValidationBlock) (preceding? : Option (Nat × Nat)) : Except Error Nat :=
  let invalid (fault : ConstraintFault) : Except Error Nat :=
    .error (.invalidConstraint fault block.location)
  match block.target? with
  | some name =>
    match registry.lookupIn? statement.scope? name with
    | none => invalid (.targetUndeclared name)
    | some id =>
      match (registry.get? id).map Definition.body with
      | some (.enumeration _) => invalid (.targetIsEnum name)
      | _ => .ok id
  | none =>
    match preceding? with
    | some (unit, id) => if unit = statement.unit then .ok id else invalid .noPrecedingType
    | none => invalid .noPrecedingType

/-- The registry after a validation block. -/
def applyBlock (registry : Registry) (block : ValidationBlock) (id : Nat) :
    Except Error Registry := do
  match registry.get? id with
  | none => .error (.internal (.danglingType id))
  | some definition => return registry.set id (← block.rules.foldlM applyRule definition)

/-- The registry after all validation blocks. `next` numbers the next declaration
with a name, and `preceding?` is the last record with its contribution. -/
def applyBlocks (next : Nat) (preceding? : Option (Nat × Nat)) (registry : Registry) :
    List ScopedDeclaration → Except Error Registry
  | [] => .ok registry
  | statement :: others =>
    match statement.declaration with
    | .moduleImport _ => applyBlocks next preceding? registry others
    | .enumeration _ => applyBlocks (next + 1) preceding? registry others
    | .record _ => applyBlocks (next + 1) (some (statement.unit, next)) registry others
    | .entry _ => applyBlocks (next + 1) (some (statement.unit, next)) registry others
    | .validation block =>
      match registry.validationTarget statement block preceding? with
      | .error error => .error error
      | .ok id =>
        match registry.applyBlock block id with
        | .error error => .error error
        | .ok registry => applyBlocks next preceding? registry others

/-- The registry of the declarations of a compilation. -/
def build (declarations : List ScopedDeclaration) : Except Error Registry := do
  applyBlocks 0 none (← link declarations) declarations

end Registry

end SchemaLang
