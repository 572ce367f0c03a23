import SchemaLang.Bindings.Identifier
import SchemaLang.Registry.Reachability

/-!
# Rust bindings

Records become structs and enums become enums of unit variants. A union becomes an
enum of its own, named for the field it stands on and written after the struct. A
reference by value back to the owner is boxed, unless a vector stands between.

Writing keeps what it has made so far: the names of the union enums, which must stay
distinct over a whole file, and the union enums that wait for their struct. What a
failed step has made stays made.
-/

namespace SchemaLang.RustBindings

/-- What writing has made so far. -/
structure Progress where
  /-- Union enums that the next struct will carry with it. -/
  pending : List String := []
  /-- The names of all union enums. -/
  unionNames : List String := []
deriving DecidableEq, Repr

/-- A step that may fail and may make progress all the same. -/
abbrev Emission (α : Type) := ExceptT Error (StateM Progress) α

/-- The lines before the first definition. -/
def preamble : List String :=
  [generatedHeader, "", "use serde::\x7bDeserialize, Serialize\x7d;",
    "use serde_with::skip_serializing_none;", ""]

/-- The error that a construct on a field has no form. -/
def unsupported (context : FieldContext) (construct : Construct) : Error :=
  .unsupported .rust construct context.field.location

/-- The type for a built-in type. -/
def ofPrimitive : Primitive → String
  | .string => "String"
  | .dateTime => "String"
  | .date => "String"
  | .uri => "String"
  | .email => "String"
  | .integer => "i64"
  | .number => "f64"
  | .boolean => "bool"
  | .any => "serde_json::Value"

/-- The type for a reference. -/
def ofReference (context : FieldContext) (insideVector : Bool) (id : Nat) :
    Except Error String := do
  let definition ← context.definition id
  if !insideVector && context.registry.reaches id context.ownerId then
    return "Box<" ++ definition.identifier ++ ">"
  else
    return definition.identifier

/-- The variant for one arm of a union. -/
def variantName (context : FieldContext) : FieldType Nat → Except Error String
  | .primitive kind => .ok (Text.pascalCase kind.keyword)
  | .range kind _ _ => .ok (Text.pascalCase kind.primitive.keyword)
  | .reference id => (context.definition id).map Definition.identifier
  | .array item => (variantName context item).map (· ++ "List")
  | .optional inner => variantName context inner
  | .union _ => .error (unsupported context .nestedUnion)

/-- The name of the enum for a union on a field. -/
def unionName (context : FieldContext) : String :=
  context.owner.identifier ++ Text.pascalCase context.field.name

/-- The name of the enum for a union, if it is still free. -/
def freeUnionName (context : FieldContext) : Emission String := do
  let name := unionName context
  let owner := context.owner.name
  let field := context.field.name
  if (← get).unionNames.contains name then
    throw (unsupported context (.unionNameReused owner field name))
  else if context.registry.definitions.any fun other => other.identifier = name then
    throw (unsupported context (.unionNameDeclared owner field name))
  else
    return name

/-- A union enum as text. -/
def unionText (name : String) (variants : List (String × String)) : String :=
  let lines := variants.map fun (variant, type) => "    " ++ variant ++ "(" ++ type ++ "),"
  "#[derive(Debug, Clone, PartialEq, Serialize, Deserialize)]\n#[serde(untagged)]\npub enum " ++
    name ++ " \x7b\n" ++ "\n".intercalate lines ++ "\n\x7d\n"

/-- Remember a union enum. -/
def addUnion (name : String) (variants : List (String × String)) : Emission Unit :=
  modify fun progress =>
    { pending := progress.pending ++ [unionText name variants]
      unionNames := progress.unionNames ++ [name] }

mutual

/-- The type for a type expression on a field. -/
def ofType (context : FieldContext) (insideVector : Bool) : FieldType Nat → Emission String
  | .primitive kind => pure (ofPrimitive kind)
  | .range kind _ _ => pure (ofPrimitive kind.primitive)
  | .reference id => liftExcept (ofReference context insideVector id)
  | .array item => do return "Vec<" ++ (← ofType context true item) ++ ">"
  | .optional inner => do return "Option<" ++ (← ofType context insideVector inner) ++ ">"
  | .union arms => do
    let name ← freeUnionName context
    let variants ← ofArms context insideVector [] arms
    addUnion name variants
    return name

/-- The variants for the arms of a union after those before them. No two may have
one name or hold one type. -/
def ofArms (context : FieldContext) (insideVector : Bool) (earlier : List (String × String)) :
    List (FieldType Nat) → Emission (List (String × String))
  | [] => pure earlier
  | arm :: arms => do
    let variant ← liftExcept (variantName context arm)
    let type ← ofType context insideVector arm
    match earlier.find? fun other => other.1 = variant || other.2 = type with
    | some (_, existing) => throw (unsupported context (.sameArms existing))
    | none => ofArms context insideVector (earlier ++ [(variant, type)]) arms

end

/-- The attribute that restores a name, if the identifier differs from it. -/
def renameLines (name identifier : String) : List String :=
  if name = identifier then [] else ["    #[serde(rename = \"" ++ name ++ "\")]"]

/-- The lines of a field. -/
def ofField (context : FieldContext) : Emission String := do
  let type ← ofType context false context.field.type
  let identifier := Target.rust.fieldIdentifier context.field.name
  return "\n".intercalate
    (renameLines context.field.name identifier ++ ["    pub " ++ identifier ++ ": " ++ type ++ ","])

/-- The lines of the members of an enum after those before them. No two may have one
identifier. -/
def variantLines (definition : Definition) (earlier : List String) :
    List String → Except Error (List String)
  | [] => .ok []
  | member :: members =>
    let identifier := avoidKeyword (Text.pascalCase member)
    if earlier.contains identifier then
      .error (.unsupported .rust (.sameVariants definition.identifier identifier)
        definition.location)
    else
      (variantLines definition (earlier ++ [identifier]) members).map fun lines =>
        renameLines member identifier ++ ["    " ++ identifier ++ ","] ++ lines

/-- An enum as text. -/
def ofEnum (definition : Definition) (members : List String) : Except Error String := do
  let lines ← variantLines definition [] members
  return "#[derive(Debug, Clone, Copy, PartialEq, Eq, Hash, Serialize, Deserialize)]\npub enum " ++
    definition.identifier ++ " \x7b\n" ++ "\n".intercalate lines ++ "\n\x7d\n"

/-- A record as text, followed by the union enums that wait. -/
def ofRecord (registry : Registry) (id : Nat) (definition : Definition) (content : RecordBody) :
    Emission String := do
  let fields ← content.fields.mapM fun field => ofField ⟨registry, id, definition, field⟩
  let struct :=
    "#[skip_serializing_none]\n#[derive(Debug, Clone, PartialEq, Serialize, Deserialize)]\n" ++
      "pub struct " ++ definition.identifier ++ " \x7b\n" ++ "\n".intercalate fields ++ "\n\x7d\n"
  let progress ← get
  set { progress with pending := [] }
  return "\n".intercalate (struct :: progress.pending)

/-- A definition as text. -/
def ofDefinition (registry : Registry) (id : Nat) (definition : Definition) : Emission String :=
  match definition.body with
  | .enumeration members => liftExcept (ofEnum definition members)
  | .record content => ofRecord registry id definition content

end SchemaLang.RustBindings
