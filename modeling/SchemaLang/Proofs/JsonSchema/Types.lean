import SchemaLang.Proofs.JsonSchema.Members
import SchemaLang.Proofs.JsonSchema.References
import SchemaLang.Proofs.Registry.WellFormed

/-!
# The schemas of types

The members that are written for a type have the shape of a schema and read back as a schema
that follows the type: one keyword for its kind, one schema for each part of it, and a
reference for a reference. This schema is a function of the type alone.
-/

namespace SchemaLang

open Outcome List Json FieldType

namespace FieldType

variable {ρ : Type}

mutual

/-- How many steps a check of a value takes at most before it enters a part of the value or
another definition. -/
def height : FieldType ρ → Nat
  | .primitive _ => 1
  | .reference _ => 2
  | .array item => item.height + 1
  | .optional inner => inner.height
  | .union arms => heightOfAll arms + 1
  | .range _ _ _ => 1

/-- The greatest height of some types. -/
def heightOfAll : List (FieldType ρ) → Nat
  | [] => 0
  | type :: types => max type.height (heightOfAll types)

end

theorem height_le_heightOfAll {types : List (FieldType ρ)} {type : FieldType ρ}
    (member : type ∈ types) : type.height ≤ heightOfAll types := by
  induction types with
  | nil => cases member
  | cons first rest ih =>
    simp only [heightOfAll]
    rcases mem_cons.mp member with rfl | later
    · exact le_max_left _ _
    · exact (ih later).trans (le_max_right _ _)

/-- A field that is present has a proper type if the field does. -/
theorem Proper.required {type : FieldType ρ} (proper : type.Proper) : type.required.Proper := by
  cases type with
  | optional inner => simpa only [FieldType.required, FieldType.Proper] using proper
  | _ => exact proper

/-- Being optional adds no reference. -/
theorem required_references (type : FieldType ρ) : type.required.references = type.references := by
  cases type with
  | optional inner => simp only [required, references]
  | _ => rfl

end FieldType

namespace JsonSchema

/-- The text of the reference to a definition. -/
def referenceText (registry : Registry) (id : Nat) : String :=
  match registry.get? id with
  | some definition => pointer registry id definition
  | none => ""

variable {definition defn : Definition}

theorem referenceText_of_get? {reg : Registry} {id : Nat}
    (found : reg.get? id = some defn) :
    referenceText reg id = pointer reg id defn := by
  rw [referenceText, found]

/-- The conditions of a built-in type. Formats are not conditions. -/
def primitiveKeywords : Primitive → List Keyword
  | .integer => [.type [.integer]]
  | .number => [.type [.number]]
  | .boolean => [.type [.boolean]]
  | .any => []
  | .string | .dateTime | .date | .uri | .email => [.type [.string]]

/-- The condition of a bound, if there is one. -/
def boundKeywords (kind : Bound) : Option Double → List Keyword
  | some bound => [.bound kind (.ofDouble bound)]
  | none => []

mutual

/-- The schema that a type is written as. -/
def typeSchema (registry : Registry) : FieldType Nat → Schema
  | .primitive kind => .keywords (primitiveKeywords kind)
  | .reference id => .reference (referenceText registry id)
  | .array item => .keywords [.type [.array], .items (typeSchema registry item)]
  | .optional inner => typeSchema registry inner
  | .union arms => .keywords [.anyOf (armSchemas registry arms)]
  | .range kind least greatest =>
    .keywords (primitiveKeywords kind.primitive ++ boundKeywords .minimum least ++
      boundKeywords .maximum greatest)

/-- The schemas that the arms of a choice are written as. -/
def armSchemas (registry : Registry) : List (FieldType Nat) → List Schema
  | [] => []
  | arm :: arms => typeSchema registry arm :: armSchemas registry arms

end

theorem armSchemas_eq_map (reg : Registry) (arms : List (FieldType Nat)) :
    armSchemas reg arms = arms.map (typeSchema reg) := by
  induction arms with
  | nil => rfl
  | cons arm arms ih =>
    rw [armSchemas, ih, map_cons]

/-- Members that are written for a type: they read as its schema, have the right shape, and
are as many as the steps that checking the type takes. -/
structure Written (registry : Registry) (type : FieldType Nat) (members : Members) : Prop where
  reads : Schema.ofJson .draft7 (.object members) = .ok (typeSchema registry type)
  shaped : checkShape .draft7 (.object members) = .ok ()
  height : type.height ≤ (object members).size

/-- The same of the schemas of the arms of a choice. -/
structure AllWritten (registry : Registry) (arms : List (FieldType Nat)) (values : List Json) :
    Prop where
  reads : schemasOf .draft7 values = .ok (armSchemas registry arms)
  shaped : checkAll .draft7 values = .ok ()
  height : heightOfAll arms ≤ itemsSize values
  nonempty : arms ≠ [] → values ≠ []

variable {reg : Registry}

theorem written_primitive (kind : Primitive) :
    Written reg (.primitive kind) (ofPrimitive kind) := by
  cases kind <;> exact ⟨rfl, rfl, by simp [height, size]⟩

theorem written_reference {id : Nat} (found : reg.get? id = some defn)
    (plain : PlainName defn.name) :
    Written reg (.reference id)
      [("$ref", .string (pointer reg id defn))] := by
  constructor
  case reads =>
    rw [typeSchema, referenceText_of_get? found]
    rfl
  case shaped =>
    have fits : checkMember .draft7 "$ref" (.string (pointer reg id defn)) =
        checkKeyword "$ref" (isReference (pointer reg id defn)) := rfl
    rw [checkShape, checkMembers_ok_iff, forall_mem_singleton, fits, isReference_pointer plain]
    rfl
  case height => simp [height, size, membersSize]

theorem written_array {item : FieldType Nat} {members : Members}
    (written : Written reg item members) :
    Written reg (.array item) [("type", .string "array"), ("items", .object members)] := by
  constructor
  case reads =>
    have items : keywordOf .draft7 "items" (.object members) =
        (do return [.items (← Schema.ofJson .draft7 (.object members))]) := rfl
    have keywords : keywordsOf .draft7 [("type", .string "array"), ("items", .object members)] =
        .ok ([.type [.array]] ++ ([.items (typeSchema reg item)] ++ [])) :=
      keywordsOf_cons_ok_iff.mpr ⟨_, _, rfl, keywordsOf_cons_ok_iff.mpr
        ⟨_, _, items.trans (by rw [written.reads]; rfl), rfl, rfl⟩, rfl⟩
    rw [Schema.ofJson, keywords]
    simp only [typeSchema]
    rfl
  case shaped =>
    rw [checkShape, checkMembers_ok_iff, forall_mem_cons, forall_mem_singleton]
    exact ⟨rfl, written.shaped⟩
  case height =>
    have inner := written.height
    simp only [height, size, membersSize] at inner ⊢
    omega

variable {arms : List (FieldType Nat)}

theorem written_union {values : List Json} (written : AllWritten reg arms values)
    (nonempty : arms ≠ []) : Written reg (.union arms) [("anyOf", .array values)] := by
  constructor
  case reads =>
    have choice : keywordOf .draft7 "anyOf" (.array values) =
        (do return [.anyOf (← schemasOf .draft7 values)]) := rfl
    have keywords : keywordsOf .draft7 [("anyOf", .array values)] =
        .ok ([.anyOf (armSchemas reg arms)] ++ []) :=
      keywordsOf_cons_ok_iff.mpr ⟨_, _, choice.trans (by rw [written.reads]; rfl), rfl, rfl⟩
    rw [Schema.ofJson, keywords]
    simp only [typeSchema]
    rfl
  case shaped =>
    have choice : checkMember .draft7 "anyOf" (.array values) =
        if values.isEmpty then .error (.keyword "anyOf") else checkAll .draft7 values := rfl
    rw [checkShape, checkMembers_ok_iff, forall_mem_singleton, choice,
      if_neg (by simpa using written.nonempty nonempty)]
    exact written.shaped
  case height =>
    have inner := written.height
    simp only [height, size, membersSize] at inner ⊢
    omega

/-- The conditions of finite bounds are read as they are written. -/
theorem written_range {kind : NumericKind} {least greatest : Option Double}
    (least_finite : FieldType.FiniteBound least)
    (greatest_finite : FieldType.FiniteBound greatest) :
    Written reg (.range kind least greatest)
      (ofPrimitive kind.primitive ++ boundMember "minimum" least ++
        boundMember "maximum" greatest) := by
  have bounds : ∀ keyword (bound? : Option Double), FieldType.FiniteBound bound? →
      boundMember keyword bound? =
        (bound?.map fun bound => (keyword, number (.ofDouble bound))).toList := by
    intro keyword bound? isFinite
    cases bound? with
    | none => rfl
    | some bound => rw [boundMember, ofDouble, if_pos (isFinite bound rfl)]; rfl
  rw [bounds _ _ least_finite, bounds _ _ greatest_finite]
  constructor
  case reads => cases kind <;> cases least <;> cases greatest <;> rfl
  case shaped => cases kind <;> cases least <;> cases greatest <;> rfl
  case height =>
    simp only [height]
    exact size_pos _

/-- What is written for the arms of a choice, if each of them is written. -/
theorem allWritten {values : List Json}
    (each : Forall₂ (fun arm value => ∃ members, Written reg arm members ∧ object members =
      value) arms values) : AllWritten reg arms values := by
  induction each with
  | nil => exact ⟨rfl, rfl, by simp [heightOfAll], by simp⟩
  | cons here _ later =>
    obtain ⟨members, first, rfl⟩ := here
    constructor
    case reads =>
      rw [schemasOf, first.reads, armSchemas, later.reads]
      rfl
    case shaped =>
      rw [checkAll, then_ok_iff]
      exact ⟨first.shaped, later.shaped⟩
    case height =>
      have lower := first.height
      have others := later.height
      simp only [heightOfAll, itemsSize]
      omega
    case nonempty => simp

/-- What is written for a proper type. -/
theorem ofType_written (proper : reg.Proper) {type : FieldType Nat} {members : Members}
    (typed : type.Proper) (emitted : ofType reg type = .ok members) :
    Written reg type members := by
  induction type generalizing members with
  | primitive kind =>
    cases emitted
    exact written_primitive kind
  | reference id =>
    unfold ofType at emitted
    split at emitted
    · rename_i defn found
      cases emitted
      exact written_reference found (proper.plain defn (mem_of_getElem? found))
    · cases emitted
  | array item ih =>
    obtain ⟨inner, found, rfl⟩ := map_ok_iff.mp emitted
    simp only [FieldType.Proper] at typed
    exact written_array (ih typed found)
  | optional inner ih =>
    simp only [FieldType.Proper] at typed
    simp only [ofType] at emitted
    have written := ih typed emitted
    constructor
    case reads => simpa only [typeSchema] using written.reads
    case shaped => exact written.shaped
    case height => simpa only [height] using written.height
  | union arms each =>
    obtain ⟨values, found, rfl⟩ := map_ok_iff.mp emitted
    rw [ofArms_eq_mapM] at found
    refine written_union (allWritten ?_) typed.1
    refine forall₂_imp (mapM_ok_iff.mp found) fun arm isArm value done => ?_
    obtain ⟨inner, here, rfl⟩ := map_ok_iff.mp done
    exact ⟨inner, each arm isArm (allProper_iff.mp typed.2 arm isArm) here, rfl⟩
  | range kind least greatest =>
    cases emitted
    exact written_range typed.1 typed.2

/-- The references of the schema of a type are those of the type. -/
theorem typeSchema_references (type : FieldType Nat) :
    (typeSchema reg type).references = type.references.map (referenceText reg) := by
  induction type with
  | primitive kind => cases kind <;> rfl
  | reference id => rfl
  | array item ih =>
    simpa only [typeSchema, references, Schema.references, referencesOfKeywords,
      Keyword.references, nil_append, append_nil] using ih
  | optional inner ih => simpa only [typeSchema, references] using ih
  | union arms each =>
    have ofArms : referencesOfAll (armSchemas reg arms) =
        (FieldType.referencesOfAll arms).map (referenceText reg) := by
      induction arms with
      | nil => rfl
      | cons arm arms ih =>
        obtain ⟨here, there⟩ := forall_mem_cons.mp each
        rw [armSchemas, referencesOfAll, FieldType.referencesOfAll, map_append, here, ih there]
    simpa only [typeSchema, references, Schema.references, referencesOfKeywords,
      Keyword.references, append_nil] using ofArms
  | range kind least greatest => cases kind <;> cases least <;> cases greatest <;> rfl

end JsonSchema

end SchemaLang
