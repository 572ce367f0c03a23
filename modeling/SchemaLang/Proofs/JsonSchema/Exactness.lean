import SchemaLang.Proofs.JsonSchema.Documents

/-!
# Exactness of documents

A value has no failures against the document of a registry exactly when it conforms to the
entry. The proof follows the check, which counts its steps down: a type takes some steps
before the check enters a part of the value or another definition, never more than the
document has parts, and a definition sends the check into a part of the value before it meets
another definition. So the steps that a check is given last until its end.
-/

namespace SchemaLang.JsonSchema

open Relation List Registry FieldType

variable {reg : Registry} {id : Nat} {document : SchemaDocument}

/-! ## Keywords -/

variable {keywords : List Keyword} {location path : Pointer} {value : Json}

/-- A value has no failures against a list of conditions exactly when it has none of each. -/
theorem check_keywords_eq_nil {steps : Nat} :
    document.check (steps + 1) location (.keywords keywords) path value = [] ↔
      ∀ keyword ∈ keywords, keyword.failures (document.check steps) (declaredNames? keywords)
        location path value = [] := by
  rw [SchemaDocument.check, flatMap_eq_nil_iff]

variable {check : SchemaCheck} {declared? : Option (List String)}

theorem failures_type_eq_nil {type : SimpleType} :
    (Keyword.type [type]).failures check declared? location path value = [] ↔
      type.holds value = true := by
  rw [Keyword.failures, failureIf_eq_nil]
  simp

theorem failures_items_eq_nil {schema : Schema} {items : List Json} :
    (Keyword.items schema).failures check declared? location path (.array items) = [] ↔
      ∀ (item : Json) (position : Nat), items[position]? = some item →
        check (location ++ ["items"]) schema (path ++ [toString position]) item = [] := by
  simp only [Keyword.failures, flatMap_eq_nil_iff, Prod.forall, mk_mem_zipIdx_iff_getElem?]

theorem failures_anyOf_eq_nil {schemas : List Schema} :
    (Keyword.anyOf schemas).failures check declared? location path value = [] ↔
      ∃ (schema : Schema) (position : Nat), schemas[position]? = some schema ∧
        check (location ++ ["anyOf", toString position]) schema path value = [] := by
  simp only [Keyword.failures, failureIf_eq_nil, Bool.not_eq_eq_eq_not, Bool.not_false, any_eq_true,
    Prod.exists, mk_mem_zipIdx_iff_getElem?, List.isEmpty_iff]

theorem failures_allOf_singleton {schema : Schema} :
    (Keyword.allOf [schema]).failures check declared? location path value =
      check (location ++ ["allOf", toString 0]) schema path value := by
  simp [Keyword.failures]

variable {schemas : List (String × Schema)}

theorem failures_properties_eq_nil :
    (Keyword.properties schemas).failures check declared? location path value = [] ↔
      ∀ schema ∈ schemas, ∀ part, value.members.lookup schema.1 = some part →
        check (location ++ ["properties", schema.1]) schema.2 (path ++ [schema.1]) part = [] := by
  simp only [Keyword.failures, flatMap_eq_nil_iff]
  refine forall₂_congr fun schema _ => ?_
  cases value.members.lookup schema.1 with
  | none | some _ => simp

variable {names : List String} {members : Members}

theorem failures_required_eq_nil :
    (Keyword.required names).failures check declared? location path (.object members) = [] ↔
      ∀ name ∈ names, ∃ part, members.lookup name = some part := by
  simp only [Keyword.failures, map_eq_nil_iff, filter_eq_nil_iff,
    Option.isNone_iff_eq_none, ← Option.ne_none_iff_exists', ne_eq]

/-- Nothing but declared members is allowed. -/
theorem failures_closed_eq_nil :
    (Keyword.additionalProperties .never).failures check (some names) location path value = [] ↔
      ∀ member ∈ value.members, member.1 ∈ names := by
  have nothing : (undeclared (some names) value.members).map (·.1) = [] ↔
      ∀ member ∈ value.members, member.1 ∈ names := by
    simp [undeclared, filter_eq_nil_iff]
  rw [Keyword.failures, checkUndeclared, ← nothing]
  cases (undeclared (some names) value.members).map (·.1) <;> simp

/-- Which properties are declared beside it concerns only one keyword. -/
theorem failures_congr {keyword : Keyword}
    (plain : ∀ schema, keyword ≠ .additionalProperties schema)
    (other? : Option (List String)) :
    keyword.failures check declared? location path value =
      keyword.failures check other? location path value := by
  cases keyword with
  | additionalProperties schema => exact absurd rfl (plain schema)
  | _ => rfl

/-! ## Types without parts -/

theorem primitiveKeywords_meaning (kind : Primitive) :
    (∀ keyword ∈ primitiveKeywords kind,
      keyword.failures check declared? location path value = []) ↔ kind.Accepts value := by
  cases kind with
  | any => simp [primitiveKeywords, Primitive.Accepts]
  | _ =>
    rw [primitiveKeywords, forall_mem_singleton, failures_type_eq_nil]
    cases value <;> simp [SimpleType.holds, Primitive.Accepts]

/-- The condition of a bound is that of the constraint with this bound. -/
theorem boundKeywords_meaning {kind : Bound} (constraint : Double → Constraint)
    (written : ∀ bound, constraintKeyword false (constraint bound) =
      .ok (.bound kind (.ofDouble bound)))
    {bound? : Option Double} (finite : ∀ bound, bound? = some bound → (constraint bound).Finite) :
    (∀ keyword ∈ boundKeywords kind bound?,
        keyword.failures check declared? location path value = []) ↔
      ∀ bound, bound? = some bound → (constraint bound).Allows false value := by
  cases bound? with
  | none => simp [boundKeywords]
  | some bound =>
    rw [boundKeywords, forall_mem_singleton]
    simp only [Option.some.injEq, forall_eq']
    exact constraintKeyword_meaning (finite bound rfl) (written bound) check declared? _ path value

theorem number_of_accepts {kind : NumericKind} (accepts : kind.primitive.Accepts value) :
    ∃ number, value = .number number := by
  cases kind with
  | integer =>
    obtain ⟨number, same, _⟩ := accepts
    exact ⟨number, same⟩
  | number => exact accepts

theorem rangeKeywords_meaning {kind : NumericKind} {least greatest : Option Double}
    (leastFinite : FieldType.FiniteBound least) (greatestFinite : FieldType.FiniteBound greatest) :
    (∀ keyword ∈ primitiveKeywords kind.primitive ++ boundKeywords .minimum least ++
        boundKeywords .maximum greatest,
      keyword.failures check declared? location path value = []) ↔
      reg.Conforms (.range kind least greatest) value := by
  rw [forall_mem_append, forall_mem_append, primitiveKeywords_meaning,
    boundKeywords_meaning .minimum (fun _ => rfl) leastFinite,
    boundKeywords_meaning .maximum (fun _ => rfl) greatestFinite,
    conforms_range_iff]
  constructor
  · rintro ⟨⟨accepts, above⟩, below⟩
    obtain ⟨number, rfl⟩ := number_of_accepts accepts
    exact ⟨number, rfl, accepts, fun bound same => above bound same number rfl,
      fun bound same => below bound same number rfl⟩
  · rintro ⟨number, rfl, accepts, above, below⟩
    refine ⟨⟨accepts, ?_⟩, ?_⟩
    · rintro bound same _ ⟨⟩
      exact above bound same
    · rintro bound same _ ⟨⟩
      exact below bound same

/-! ## One step of a check -/

/-- Checks of types that take no more than some steps are exact. -/
def TypesExact (registry : Registry) (id : Nat) (document : SchemaDocument) (steps : Nat) :
    Prop :=
  ∀ type : FieldType Nat, type.Proper →
    (∀ used ∈ type.references, TransGen registry.Uses id used) →
    ∀ location path value, type.height + value.depth * (document.weight + 1) ≤ steps →
      (document.check steps location (typeSchema registry type) path value = [] ↔
        registry.Conforms type value)

/-- Checks of fields that take no more than some steps are exact. -/
def FieldsExact (registry : Registry) (id : Nat) (document : SchemaDocument) (steps : Nat) :
    Prop :=
  ∀ field schema, FieldSchema registry field schema → field.type.Proper →
    (∀ constraint ∈ field.constraints, constraint.Finite) →
    (∀ used ∈ field.type.references, TransGen registry.Uses id used) →
    ∀ location path value,
      field.type.required.height + 1 + value.depth * (document.weight + 1) ≤ steps →
      (document.check steps location schema path value = [] ↔
        registry.Conforms field.type value ∧ ∀ constraint ∈ field.constraints,
          constraint.Allows field.type.required.isArray value)

/-- Checks of definitions that take no more than some steps are exact. -/
def DefinitionsExact (registry : Registry) (id : Nat) (document : SchemaDocument) (steps : Nat) :
    Prop :=
  ∀ other definition keywords, ReflTransGen registry.Uses id other →
    registry.get? other = some definition → DefinitionSchema registry definition keywords →
    ∀ location path value, 1 + value.depth * (document.weight + 1) ≤ steps →
      (document.check steps location (.keywords keywords) path value = [] ↔
        registry.Conforms (.reference other) value)

variable {steps : Nat}

/-- Steps for a value are steps for each part of it. -/
theorem depth_mul_le {part whole : Json} (deeper : part.depth < whole.depth) (weight : Nat) :
    part.depth * (weight + 1) + (weight + 1) ≤ whole.depth * (weight + 1) := by
  rw [← Nat.succ_mul]
  exact Nat.mul_le_mul_right _ deeper

theorem arrayExact (types : TypesExact reg id document steps) {item : FieldType Nat}
    (typed : item.Proper) (uses : ∀ used ∈ item.references, TransGen reg.Uses id used)
    (enough : item.height + 1 + value.depth * (document.weight + 1) ≤ steps + 1) :
    document.check (steps + 1) location
        (.keywords [.type [.array], .items (typeSchema reg item)]) path value = [] ↔
      reg.Conforms (.array item) value := by
  rw [check_keywords_eq_nil, forall_mem_cons, forall_mem_singleton,
    failures_type_eq_nil, conforms_array_iff]
  cases value with
  | array items =>
    have itemwise : ∀ part ∈ items, ∀ place,
        document.check steps (location ++ ["items"]) (typeSchema reg item) place part = [] ↔
          reg.Conforms item part := by
      intro part member place
      have smaller := depth_mul_le (Json.depth_lt_of_mem_items member) document.weight
      exact types item typed uses _ _ _ (by omega)
    rw [failures_items_eq_nil]
    constructor
    · rintro ⟨_, all⟩
      refine ⟨items, rfl, fun part member => ?_⟩
      obtain ⟨position, placed⟩ := getElem?_of_mem member
      exact (itemwise part member _).mp (all part position placed)
    · rintro ⟨_, ⟨⟩, all⟩
      refine ⟨rfl, fun part position placed => ?_⟩
      have member := mem_of_getElem? placed
      exact (itemwise part member _).mpr (all part member)
  | _ => simp [SimpleType.holds]

theorem unionExact (types : TypesExact reg id document steps) {arms : List (FieldType Nat)}
    (typed : ∀ arm ∈ arms, arm.Proper)
    (uses : ∀ arm ∈ arms, ∀ used ∈ arm.references, TransGen reg.Uses id used)
    (enough : heightOfAll arms + 1 + value.depth * (document.weight + 1) ≤ steps + 1) :
    document.check (steps + 1) location (.keywords [.anyOf (armSchemas reg arms)]) path value =
        [] ↔
      reg.Conforms (.union arms) value := by
  have armwise : ∀ arm ∈ arms,
      ∀ place, document.check steps place (typeSchema reg arm) path value = [] ↔
        reg.Conforms arm value := by
    intro arm member place
    have lower := height_le_heightOfAll member
    exact types arm (typed arm member) (uses arm member) _ _ _ (by omega)
  rw [check_keywords_eq_nil, forall_mem_singleton, failures_anyOf_eq_nil,
    armSchemas_eq_map, conforms_union_iff]
  constructor
  · rintro ⟨_, position, isSchema, passed⟩
    obtain ⟨arm, member, rfl⟩ := mem_map.mp (mem_of_getElem? isSchema)
    exact ⟨arm, member, (armwise arm member _).mp passed⟩
  · rintro ⟨arm, member, conforms⟩
    obtain ⟨position, isSchema⟩ := getElem?_of_mem (mem_map_of_mem member)
    exact ⟨_, position, isSchema, (armwise arm member _).mpr conforms⟩

/-- A check of a type takes a step and goes on with a part of the type, or with the definition
that a reference leads to. -/
theorem typeExact_succ (faithful : Faithful reg id document)
    (types : TypesExact reg id document steps)
    (defns : DefinitionsExact reg id document steps) :
    TypesExact reg id document (steps + 1) := by
  intro type typed uses location path value enough
  cases type with
  | primitive kind =>
    rw [typeSchema, check_keywords_eq_nil, primitiveKeywords_meaning, conforms_primitive_iff]
  | reference other =>
    have isUsed := uses other (by simp [references])
    obtain ⟨defn, keywords, found, target, schema⟩ := faithful.targets other isUsed
    simp only [height] at enough
    rw [typeSchema, SchemaDocument.check, target]
    exact defns other defn keywords isUsed.to_reflTransGen found schema _ _ _ (by omega)
  | array item =>
    simp only [FieldType.Proper] at typed
    simp only [references] at uses
    simp only [height] at enough
    rw [typeSchema]
    exact arrayExact types typed uses enough
  | optional inner =>
    simp only [FieldType.Proper] at typed
    simp only [references] at uses
    simp only [height] at enough
    rw [typeSchema, conforms_optional_iff]
    exact typeExact_succ faithful types defns inner typed uses location path value enough
  | union arms =>
    simp only [height] at enough
    rw [typeSchema]
    refine unionExact types (allProper_iff.mp typed.2) (fun arm member used refers => ?_)
      enough
    exact uses used (mem_referencesOfAll.mpr ⟨arm, member, refers⟩)
  | range kind least greatest =>
    rw [typeSchema, check_keywords_eq_nil]
    exact rangeKeywords_meaning typed.1 typed.2

/-! ## Fields and definitions -/

/-- No type says anything about undeclared members. -/
theorem typeSchema_plain {type : FieldType Nat}
    (same : typeSchema reg type = .keywords keywords) :
    ∀ keyword ∈ keywords, ∀ schema, keyword ≠ .additionalProperties schema := by
  cases type with
  | primitive kind =>
    cases same
    cases kind <;> simp [primitiveKeywords]
  | reference other => cases same
  | array _ | union _ =>
    rw [typeSchema] at same
    cases same
    simp
  | optional inner =>
    rw [typeSchema] at same
    exact typeSchema_plain same
  | range kind least greatest =>
    cases same
    cases kind <;> cases least <;> cases greatest <;>
      simp [primitiveKeywords, boundKeywords, NumericKind.primitive]

/-- The conditions of a type inside a larger schema say what the type says. -/
theorem partsExact (types : TypesExact reg id document steps)
    (nextTypes : TypesExact reg id document (steps + 1)) {type : FieldType Nat}
    (typed : type.Proper) (uses : ∀ used ∈ type.references, TransGen reg.Uses id used)
    {declared? : Option (List String)}
    (enough : type.height + value.depth * (document.weight + 1) ≤ steps) :
    (∀ keyword ∈ (typeSchema reg type).parts,
        keyword.failures (document.check steps) declared? location path value = []) ↔
      reg.Conforms type value := by
  cases same : typeSchema reg type with
  | keywords conditions =>
    -- The conditions stand beside others here, so other properties may be declared with them.
    have exactly := nextTypes type typed uses location path value (by omega)
    rw [same, check_keywords_eq_nil] at exactly
    rw [← exactly]
    refine forall₂_congr fun keyword member => ?_
    rw [failures_congr (typeSchema_plain same keyword member)]
  | _ =>
    rw [Schema.parts, forall_mem_singleton, failures_allOf_singleton, ← same]
    · exact types type typed uses _ path value enough
    · simp

theorem fieldsExact (exactTypes : ∀ fewer ≤ steps, TypesExact reg id document fewer) :
    FieldsExact reg id document steps := by
  intro field schema isSchema typed finite uses location path value enough
  have presentUses : ∀ used ∈ field.type.required.references, TransGen reg.Uses id used := by
    rw [required_references]
    exact uses
  rw [← conforms_required_iff]
  cases isSchema with
  | bare unconstrained =>
    rw [exactTypes steps le_rfl _ typed.required presentUses _ _ _ (by omega), unconstrained]
    simp
  | @constrained keywords readable conditions =>
    -- One step is taken for the list of conditions. A reference among them takes its own.
    obtain ⟨fewer, rfl⟩ : ∃ fewer, steps = fewer + 1 := ⟨steps - 1, by omega⟩
    rw [check_keywords_eq_nil, ← partsExact (exactTypes fewer (by omega)) (exactTypes _ le_rfl)
      typed.required presentUses (by omega)]
    simp only [conditions]
    constructor
    · intro all
      refine ⟨fun keyword ofType => all keyword (.inl ofType), fun constraint stated => ?_⟩
      obtain ⟨keyword, read⟩ := readable constraint stated
      exact (constraintKeyword_meaning (finite constraint stated) read _ _ _ path value).mp
        (all keyword (.inr ⟨constraint, stated, read⟩))
    · rintro ⟨ofType, allowed⟩ keyword (isOfType | ⟨constraint, stated, read⟩)
      · exact ofType keyword isOfType
      · exact (constraintKeyword_meaning (finite constraint stated) read _ _ _ path value).mpr
          (allowed constraint stated)

variable {other : Nat} {definition defn : Definition}

theorem enumerationExact {members : List String} (found : reg.get? other = some defn)
    (body : defn.body = .enumeration members) :
    document.check (steps + 1) location (.keywords (enumerationKeywords members)) path value = [] ↔
      reg.Conforms (.reference other) value := by
  rw [check_keywords_eq_nil, enumerationKeywords, forall_mem_cons, forall_mem_singleton,
    failures_type_eq_nil, conforms_enumeration_iff found body, Keyword.failures, failureIf_eq_nil]
  cases value with
  | string text => simp [SimpleType.holds, Json.equalValue]
  | _ => simp [SimpleType.holds]

variable {content : RecordBody}

theorem isRequired_iff {field : DefinedField} :
    isRequired content field = true ↔ content.Requires field := by
  simp [isRequired, RecordBody.Requires, DefinedField.isOptional]

theorem mem_requiredNames {name : String} :
    name ∈ requiredNames content ↔
      ∃ field ∈ content.fields, content.Requires field ∧ field.name = name := by
  simp only [requiredNames, mem_map, mem_filter, isRequired_iff, and_assoc]

theorem requiredKeywords_meaning :
    (∀ keyword ∈ requiredKeywords names,
        keyword.failures check declared? location path (.object members) = []) ↔
      ∀ name ∈ names, ∃ part, members.lookup name = some part := by
  unfold requiredKeywords
  split
  · rename_i empty
    simp [isEmpty_iff.mp empty]
  · rw [forall_mem_singleton, failures_required_eq_nil]

/-- A condition on the names of the fields that must be present is one on these fields. -/
theorem forall_requiredNames_iff {holds : String → Prop} :
    (∀ name ∈ requiredNames content, holds name) ↔
      ∀ field ∈ content.fields, content.Requires field → holds field.name := by
  simp only [mem_requiredNames]
  constructor
  · intro all field isField requires
    exact all field.name ⟨field, isField, requires, rfl⟩
  · rintro all _ ⟨field, isField, requires, rfl⟩
    exact all field isField requires

variable (proper : reg.Proper)
include proper

section

variable (faithful : Faithful reg id document)
include faithful

variable (fields : FieldsExact reg id document steps)
include fields

/-- The fields of a reachable record that are present in an object are checked exactly. -/
theorem propertiesExact (reached : ReflTransGen reg.Uses id other)
    (found : reg.get? other = some defn)
    (fieldwise : Forall₂ (fun field schema => schema.1 = field.name ∧ FieldSchema reg field
      schema.2) defn.fields schemas) (location path : Pointer)
    (enough : (Json.object members).depth * (document.weight + 1) ≤ steps) :
    (∀ schema ∈ schemas, ∀ part, members.lookup schema.1 = some part →
        document.check steps (location ++ ["properties", schema.1]) schema.2 (path ++ [schema.1])
          part = []) ↔
      ∀ field ∈ defn.fields, ∀ part, members.lookup field.name = some part →
        reg.Conforms field.type part ∧ ∀ constraint ∈ field.constraints,
          constraint.Allows field.type.required.isArray part := by
  have isDefinition := mem_of_getElem? found
  have exactly : ∀ field ∈ defn.fields, ∀ schema, FieldSchema reg field schema →
      ∀ location path part, members.lookup field.name = some part →
        (document.check steps location schema path part = [] ↔
          reg.Conforms field.type part ∧ ∀ constraint ∈ field.constraints,
            constraint.Allows field.type.required.isArray part) := by
    intro field isField schema isSchema location path part present
    -- A part is less deep by one, which frees as many steps as the document has parts. The
    -- field takes no more.
    have low := faithful.height defn isDefinition field isField
    have smaller := depth_mul_le (Json.depth_lt_of_mem_members (Json.mem_of_lookup present))
      document.weight
    refine fields field schema isSchema (proper.typed defn isDefinition field isField)
      (proper.finite defn isDefinition field isField) ?_ location path part (by omega)
    exact fun used refers => .tail' reached ⟨defn, found, field, isField, refers⟩
  constructor
  · intro checked field isField part present
    obtain ⟨schema, isSchema, named, ofField⟩ := Outcome.exists_right fieldwise isField
    have passed := checked schema isSchema part (named ▸ present)
    exact (exactly field isField schema.2 ofField _ _ part present).mp passed
  · intro conforms schema isSchema part present
    obtain ⟨field, isField, named, ofField⟩ := Outcome.exists_left fieldwise isSchema
    have atField : members.lookup field.name = some part := named ▸ present
    exact (exactly field isField schema.2 ofField _ _ part atField).mpr
      (conforms field isField part atField)

theorem recordExact (reached : ReflTransGen reg.Uses id other)
    (found : reg.get? other = some defn) (body : defn.body = .record content)
    (fieldwise : Forall₂ (fun field schema => schema.1 = field.name ∧ FieldSchema reg field
      schema.2) content.fields schemas)
    (enough : 1 + value.depth * (document.weight + 1) ≤ steps + 1) :
    document.check (steps + 1) location (.keywords (recordKeywords content schemas)) path
      value = [] ↔ reg.Conforms (.reference other) value := by
  have declared : declaredNames? (recordKeywords content schemas) =
      some (schemas.map Prod.fst) := rfl
  have names : schemas.map Prod.fst = content.fields.map DefinedField.name :=
    (Outcome.map_eq_of_forall₂ fieldwise fun _ _ related => related.1.symm).symm
  have own : defn.fields = content.fields := by rw [Definition.fields, body]
  rw [check_keywords_eq_nil, declared, recordKeywords, forall_mem_cons, forall_mem_cons,
    forall_mem_append, forall_mem_singleton, failures_type_eq_nil, failures_properties_eq_nil,
    failures_closed_eq_nil, names, conforms_record_iff found body]
  cases value with
  | object members =>
    have within : (Json.object members).depth * (document.weight + 1) ≤ steps := by omega
    have exactly := propertiesExact proper faithful fields reached found (own ▸ fieldwise) location
      path within
    rw [own] at exactly
    rw [requiredKeywords_meaning, forall_requiredNames_iff]
    constructor
    · rintro ⟨_, checked, required, closed⟩
      exact ⟨members, rfl, fun member isMember => mem_map.mp (closed member isMember),
        required, exactly.mp checked⟩
    · rintro ⟨_, ⟨⟩, isDeclared, required, conforms⟩
      exact ⟨rfl, exactly.mpr conforms, required, fun member isMember =>
        mem_map.mpr (isDeclared member isMember)⟩
  | _ => simp [SimpleType.holds]

theorem definitionsExact : DefinitionsExact reg id document (steps + 1) := by
  intro other defn keywords reached found isSchema location path value enough
  cases isSchema with
  | enumeration body => exact enumerationExact found body
  | record body fieldwise =>
    exact recordExact proper faithful fields reached found body fieldwise enough

end

/-! ## Whole checks -/

omit proper in
theorem height_pos {ρ : Type} (type : FieldType ρ) : 0 < type.height := by
  cases type with
  | optional inner =>
    rw [height]
    exact height_pos inner
  | _ => simp [height]

/-- Checks of types are exact, however many steps they take. -/
theorem typesExact (faithful : Faithful reg id document) (steps : Nat) :
    TypesExact reg id document steps := by
  -- Not a plain induction: through a definition and a field, the steps of a reference come back
  -- to types with two or three steps less.
  induction steps using Nat.strongRecOn with
  | ind steps ih =>
    cases steps with
    | zero =>
      intro type _ _ _ _ _ enough
      have positive := height_pos type
      omega
    | succ steps =>
      refine typeExact_succ faithful (ih steps (by omega)) ?_
      cases steps with
      | zero =>
        intro _ _ _ _ _ _ _ _ _ enough
        omega
      | succ fewer =>
        exact definitionsExact proper faithful
          (fieldsExact fun least atMost => ih least (by omega))

/-- A document finds no failures exactly in the values that conform to the entry. -/
theorem failures_eq_nil_iff (faithful : Faithful reg id document) (value : Json) :
    document.failures value = [] ↔ reg.Conforms (.reference id) value := by
  obtain ⟨defn, keywords, found, root, isSchema⟩ := faithful.root
  have fields : FieldsExact reg id document
      ((value.depth + 1) * (document.weight + 1) - 1) :=
    fieldsExact fun fewer _ => typesExact proper faithful fewer
  have defns := definitionsExact proper faithful fields
  have product : (value.depth + 1) * (document.weight + 1) =
      value.depth * (document.weight + 1) + (document.weight + 1) := Nat.succ_mul _ _
  rw [Nat.sub_add_cancel (by omega)] at defns
  rw [SchemaDocument.failures, root]
  exact defns id defn keywords .refl found isSchema _ _ _ (by omega)

end SchemaLang.JsonSchema
