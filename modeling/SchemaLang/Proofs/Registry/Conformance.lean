import Mathlib.Logic.Relation
import SchemaLang.Pattern.SchemaPattern
import SchemaLang.Proofs.Registry.Linking

/-!
# Conformance

Which JSON values conform to a type of a registry, said of the registry alone: of its
definitions, the types of their fields, the fields that must be present and the constraints.
No schema document enters into it. Definitions refer to each other and to themselves, so
conformance is the least relation closed under its rules: a value conforms if it does so for
a reason that ends.
-/

namespace SchemaLang

/-- The values that a built-in type accepts. A number is an integer if its value is whole,
and a text of a certain format may be any text. -/
def Primitive.Accepts (kind : Primitive) (value : Json) : Prop :=
  match kind with
  | .integer => ∃ number, value = .number number ∧ number.isWhole = true
  | .number => ∃ number, value = .number number
  | .boolean => ∃ truth, value = .bool truth
  | .any => True
  | .string | .dateTime | .date | .uri | .email => ∃ text, value = .string text

namespace JsonNumber

/-- The number is not below a bound. -/
def AtLeast (number : JsonNumber) (bound : Double) : Prop :=
  number.order (.double bound) = some .gt ∨ number.order (.double bound) = some .eq

/-- The number is not above a bound. -/
def AtMost (number : JsonNumber) (bound : Double) : Prop :=
  number.order (.double bound) = some .lt ∨ number.order (.double bound) = some .eq

end JsonNumber

/-- A value is the listed one. Numbers are compared by their values. -/
def Literal.Denotes : Literal → Json → Prop
  | .text listed, value => value = .string listed
  | .number bound, value =>
    ∃ number, value = .number number ∧ number.order (.double bound) = some .eq

/-- The values that a constraint allows. Patterns speak of texts only and bounds of numbers
only. Lengths speak of texts, or of lists if the constrained field is a list. A pattern means
what schemas mean by it, so one that they do not know allows no text. -/
def Constraint.Allows (onList : Bool) (value : Json) : Constraint → Prop
  | .pattern text => ∀ subject, value = .string subject →
      ∃ pattern, Pattern.SchemaPattern.read text = .ok pattern ∧ pattern.occursIn subject = true
  | .minLength length =>
    if onList then ∀ items, value = .array items → length ≤ items.length
    else ∀ text, value = .string text → length ≤ text.length
  | .maxLength length =>
    if onList then ∀ items, value = .array items → items.length ≤ length
    else ∀ text, value = .string text → text.length ≤ length
  | .minimum bound => ∀ number, value = .number number → number.AtLeast bound
  | .maximum bound => ∀ number, value = .number number → number.AtMost bound
  | .exclusiveMinimum bound => ∀ number, value = .number number →
      number.order (.double bound) = some .gt
  | .exclusiveMaximum bound => ∀ number, value = .number number →
      number.order (.double bound) = some .lt
  | .oneOf values => ∃ literal ∈ values, literal.Denotes value

/-- A field must be present if its type is not optional, or if the record says so. -/
def RecordBody.Requires (content : RecordBody) (field : DefinedField) : Prop :=
  field.type.isOptional = false ∨ ∃ names ∈ content.required, field.name ∈ names

namespace Registry

/-- A value conforms to a type. An object conforms to a record if it has declared members
only, has the required fields, and each field that is present conforms to its type and to all
its constraints. -/
inductive Conforms (registry : Registry) : FieldType Nat → Json → Prop where
  | primitive {kind value} (accepts : kind.Accepts value) :
      Conforms registry (.primitive kind) value
  | enumeration {id definition members text} (found : registry.get? id = some definition)
      (body : definition.body = .enumeration members) (listed : text ∈ members) :
      Conforms registry (.reference id) (.string text)
  | record {id definition content members} (found : registry.get? id = some definition)
      (body : definition.body = .record content)
      (declared : ∀ member ∈ members, ∃ field ∈ content.fields, field.name = member.1)
      (required : ∀ field ∈ content.fields, content.Requires field →
        ∃ part, members.lookup field.name = some part)
      (typed : ∀ field ∈ content.fields, ∀ part, members.lookup field.name = some part →
        Conforms registry field.type part)
      (constrained : ∀ field ∈ content.fields, ∀ part, members.lookup field.name = some part →
        ∀ constraint ∈ field.constraints,
          constraint.Allows field.type.required.isArray part) :
      Conforms registry (.reference id) (.object members)
  | array {type items} (itemwise : ∀ item ∈ items, Conforms registry type item) :
      Conforms registry (.array type) (.array items)
  | optional {inner value} (conforms : Conforms registry inner value) :
      Conforms registry (.optional inner) value
  | union {arms arm value} (member : arm ∈ arms) (conforms : Conforms registry arm value) :
      Conforms registry (.union arms) value
  | range {kind least greatest number} (accepts : kind.primitive.Accepts (.number number))
      (above : ∀ bound, least = some bound → number.AtLeast bound)
      (below : ∀ bound, greatest = some bound → number.AtMost bound) :
      Conforms registry (.range kind least greatest) (.number number)

section Inversion

variable {reg : Registry} {value : Json}

/-- Primitive types say themselves which values they accept. -/
theorem conforms_primitive_iff {kind : Primitive} :
    reg.Conforms (.primitive kind) value ↔ kind.Accepts value :=
  ⟨fun | .primitive accepts => accepts, .primitive⟩

/-- An array conforms item by item. -/
theorem conforms_array_iff {item : FieldType Nat} :
    reg.Conforms (.array item) value ↔
      ∃ items, value = .array items ∧ ∀ part ∈ items, reg.Conforms item part :=
  ⟨fun | .array itemwise => ⟨_, rfl, itemwise⟩, fun ⟨_, same, itemwise⟩ => same ▸ .array itemwise⟩

/-- A field that may be missing has no other values. -/
theorem conforms_optional_iff {inner : FieldType Nat} :
    reg.Conforms (.optional inner) value ↔ reg.Conforms inner value :=
  ⟨fun | .optional conforms => conforms, .optional⟩

/-- One arm is enough for a union. -/
theorem conforms_union_iff {arms : List (FieldType Nat)} :
    reg.Conforms (.union arms) value ↔ ∃ arm ∈ arms, reg.Conforms arm value :=
  ⟨fun | .union member conforms => ⟨_, member, conforms⟩,
    fun ⟨_, member, conforms⟩ => .union member conforms⟩

/-- A missing bound asks for nothing. -/
theorem conforms_range_iff {kind : NumericKind} {least greatest : Option Double} :
    reg.Conforms (.range kind least greatest) value ↔ ∃ number, value = .number number ∧
      kind.primitive.Accepts (.number number) ∧
      (∀ bound, least = some bound → number.AtLeast bound) ∧
      ∀ bound, greatest = some bound → number.AtMost bound :=
  ⟨fun | .range accepts above below => ⟨_, rfl, accepts, above, below⟩,
    fun ⟨_, same, accepts, above, below⟩ => same ▸ .range accepts above below⟩

/-- A value of a field that is present conforms to the type of the field. -/
theorem conforms_required_iff {type : FieldType Nat} :
    reg.Conforms type.required value ↔ reg.Conforms type value := by
  cases type with
  | optional inner => exact conforms_optional_iff.symm
  | _ => rfl

variable {definition defn : Definition}

/-- The members of an enumeration are texts. -/
theorem conforms_enumeration_iff {id : Nat} (found : reg.get? id = some defn)
    {members : List String} (body : defn.body = .enumeration members) :
    reg.Conforms (.reference id) value ↔ ∃ text ∈ members, value = .string text := by
  constructor
  · intro conforms
    cases conforms with
    | enumeration isFound isBody listed =>
      cases found.symm.trans isFound
      cases body.symm.trans isBody
      exact ⟨_, listed, rfl⟩
    | record isFound isBody _ _ _ _ =>
      cases found.symm.trans isFound
      cases body.symm.trans isBody
  · rintro ⟨text, listed, rfl⟩
    exact .enumeration found body listed

theorem conforms_record_iff {id : Nat} (found : reg.get? id = some defn)
    {content : RecordBody} (body : defn.body = .record content) :
    reg.Conforms (.reference id) value ↔ ∃ members, value = .object members ∧
      (∀ member ∈ members, ∃ field ∈ content.fields, field.name = member.1) ∧
      (∀ field ∈ content.fields, content.Requires field →
        ∃ part, members.lookup field.name = some part) ∧
      ∀ field ∈ content.fields, ∀ part, members.lookup field.name = some part →
        reg.Conforms field.type part ∧ ∀ constraint ∈ field.constraints,
          constraint.Allows field.type.required.isArray part := by
  constructor
  · intro conforms
    cases conforms with
    | enumeration isFound isBody _ =>
      cases found.symm.trans isFound
      cases body.symm.trans isBody
    | record isFound isBody declared required typed constrained =>
      cases found.symm.trans isFound
      cases body.symm.trans isBody
      exact ⟨_, rfl, declared, required, fun field member part present =>
        ⟨typed field member part present, constrained field member part present⟩⟩
  · rintro ⟨members, rfl, declared, required, fieldwise⟩
    exact .record found body declared required
      (fun field member part present => (fieldwise field member part present).1)
      fun field member part present => (fieldwise field member part present).2

end Inversion

/-- A definition has a field that refers to another definition. -/
def Uses (registry : Registry) (user used : Nat) : Prop :=
  ∃ definition, registry.get? user = some definition ∧
    ∃ field ∈ definition.fields, used ∈ field.type.references

/-- The texts of the patterns that a definition states. -/
def Stated (definition : Definition) (text : String) : Prop :=
  ∃ field ∈ definition.fields, Constraint.pattern text ∈ field.constraints

/-- Every pattern is spelled as schemas ask for, and those of the definitions that the entry
uses, directly or through others, are patterns that schemas can state. -/
structure PatternsReadable (registry : Registry) (entry : Nat) : Prop where
  spelled : ∀ definition ∈ registry.definitions, ∀ text, Stated definition text →
    ∃ chars, Pattern.schemaText text.toList = .ok chars
  readable : ∀ id definition, Relation.ReflTransGen registry.Uses entry id →
    registry.get? id = some definition → ∀ text, Stated definition text →
    ∃ pattern, Pattern.SchemaPattern.read text = .ok pattern

end Registry

end SchemaLang
