import SchemaLang.Proofs.JsonSchema.Constraints
import SchemaLang.Proofs.JsonSchema.Types

/-!
# The schemas of definitions

What is written for a field is the schema of its type and a keyword for each constraint, and
what is written for a definition is the list of its members or a schema for each field. All
of it can be read, with the shape that a schema has, unless a pattern stands in the way.
-/

namespace SchemaLang.JsonSchema

open Outcome List Json Definition Schema

variable {reg : Registry}

/-! ## Fields -/

/-- The conditions of a schema as a part of a larger one. -/
def Schema.parts : Schema → List Keyword
  | .keywords conditions => conditions
  | schema => [.allOf [schema]]

variable {members : Members} {schema : Schema}

/-- Members that read as a schema can be wrapped, and then hold no reference beside other
members. -/
theorem wrapReference_reads (read : ofJson .draft7 (.object members) = .ok schema) :
    keywordsOf .draft7 (wrapReference members) = .ok schema.parts ∧
      (wrapReference members).lookup "$ref" = none := by
  have isRead : ofMembers .draft7 members (keywordsOf .draft7 members) = .ok schema := read
  rw [Schema.ofMembers, if_pos referenceAlone_draft7] at isRead
  unfold wrapReference
  split at isRead
  · rename_i text found
    cases isRead
    rw [found, Option.isSome_some, if_pos rfl]
    have wrapped : keywordsOf .draft7 [("allOf", .array [.object members])] = (do
        let schema ← ofJson .draft7 (.object members)
        return [.allOf [schema]]) := by
      show (do
        let keywords ← (do return [Keyword.allOf (← schemasOf .draft7 [.object members])])
        return keywords ++ (← keywordsOf .draft7 [])) = _
      rw [schemasOf]
      cases ofJson .draft7 (.object members) <;> rfl
    exact ⟨wrapped.trans (by rw [read]; rfl), rfl⟩
  · cases isRead
  · rename_i absent
    obtain ⟨keywords, found, rfl⟩ := map_ok_iff.mp isRead
    rw [absent, if_neg (by simp)]
    exact ⟨found, absent⟩

/-- Wrapping keeps the shape. -/
theorem wrapReference_shaped (shaped : checkShape .draft7 (.object members) = .ok ()) :
    checkMembers .draft7 (wrapReference members) = .ok () := by
  unfold wrapReference
  split
  · rw [checkMembers_ok_iff, forall_mem_singleton]
    exact checkAll_ok_iff.mpr fun value member => by rwa [mem_singleton.mp member]
  · exact shaped

/-- Wrapping takes nothing away. -/
theorem size_le_wrapReference (members : Members) :
    membersSize members ≤ membersSize (wrapReference members) := by
  unfold wrapReference
  split
  · simp only [membersSize, size, itemsSize]
    omega
  · exact le_rfl

/-- The schemas that a field is read as: the schema of its type, or one with the conditions of
the type and those of the constraints. -/
inductive FieldSchema (registry : Registry) (field : DefinedField) : Schema → Prop where
  | bare (unconstrained : field.constraints = []) :
      FieldSchema registry field (typeSchema registry field.type.required)
  | constrained {keywords : List Keyword}
      (readable : ∀ constraint ∈ field.constraints, ∃ keyword,
        constraintKeyword field.type.required.isArray constraint = .ok keyword)
      (conditions : ∀ keyword, keyword ∈ keywords ↔
        keyword ∈ (typeSchema registry field.type.required).parts ∨
          ∃ constraint ∈ field.constraints,
            constraintKeyword field.type.required.isArray constraint = .ok keyword) :
      FieldSchema registry field (.keywords keywords)

/-- What is known of the members that are written for a field. -/
structure FieldWritten (registry : Registry) (field : DefinedField) (members : Members) :
    Prop where
  shaped : checkShape .draft7 (.object members) = .ok () ↔
    ∀ text, Constraint.pattern text ∈ field.constraints →
      ∃ chars, Pattern.schemaText text.toList = .ok chars
  readable : (∃ schema, ofJson .draft7 (.object members) = .ok schema) ↔
    ∀ text, Constraint.pattern text ∈ field.constraints →
      ∃ pattern, Pattern.SchemaPattern.read text = .ok pattern
  reads : ∀ schema, ofJson .draft7 (.object members) = .ok schema →
    FieldSchema registry field schema
  height : field.type.required.height ≤ (object members).size

variable {field : DefinedField}

/-- A field without constraints is written as its type. -/
theorem fieldWritten_bare (unconstrained : field.constraints = [])
    (written : Written reg field.type.required members) :
    FieldWritten reg field members := by
  constructor
  case shaped => simp [unconstrained, written.shaped]
  case readable => simp [unconstrained, written.reads]
  case reads =>
    intro schema read
    rw [written.reads] at read
    cases read
    exact .bare unconstrained
  case height => exact written.height

/-- A field with constraints is written as its type, wrapped if it is a reference, and its
constraints. -/
theorem fieldWritten_constrained {base : Members}
    (finite : ∀ constraint ∈ field.constraints, constraint.Finite)
    (written : Written reg field.type.required base)
    (added : Constrained field.type.required.isArray field.constraints (wrapReference base)
      members) (grows : membersSize (wrapReference base) ≤ membersSize members) :
    FieldWritten reg field members := by
  obtain ⟨baseRead, baseBare⟩ := wrapReference_reads written.reads
  have reading : ofJson .draft7 (.object members) = (keywordsOf .draft7 members).map .keywords := by
    rw [Schema.ofJson, Schema.ofMembers, if_pos referenceAlone_draft7, added.bare baseBare]
  constructor
  case shaped => exact added.shaped finite (wrapReference_shaped written.shaped)
  case readable =>
    rw [reading, exists_map_ok_iff, added.readable finite baseRead]
    constructor
    · intro all text stated
      exact constraintKeyword_readable_iff.mp (all _ stated) text rfl
    · intro known constraint stated
      refine constraintKeyword_readable_iff.mpr ?_
      rintro text rfl
      exact known text stated
  case reads =>
    intro schema read
    rw [reading] at read
    obtain ⟨keywords, isRead, rfl⟩ := map_ok_iff.mp read
    exact .constrained ((added.readable finite baseRead).mp ⟨keywords, isRead⟩) fun keyword =>
      added.mem_keywords finite baseRead isRead
  case height =>
    have typeHeight := written.height
    have wrapped := size_le_wrapReference base
    simp only [size] at typeHeight ⊢
    omega

/-- What is written for a field. -/
theorem ofField_written (proper : reg.Proper) {owner : Definition}
    (typed : field.type.Proper) (finite : ∀ constraint ∈ field.constraints, constraint.Finite)
    (emitted : ofField reg owner field = .ok members) :
    FieldWritten reg field members := by
  obtain ⟨base, found, rest⟩ := bind_ok_iff.mp emitted
  have written := ofType_written proper typed.required found
  split at rest
  · rename_i unconstrained
    cases rest
    exact fieldWritten_bare (isEmpty_iff.mp unconstrained) written
  · obtain ⟨added, grows⟩ := addConstraints_ok rest
    exact fieldWritten_constrained finite written added grows

/-! ## References -/

variable {text : String} {keywords : List Keyword}

theorem mem_referencesOfKeywords :
    text ∈ referencesOfKeywords keywords ↔ ∃ keyword ∈ keywords, text ∈ keyword.references := by
  induction keywords with
  | nil => simp [referencesOfKeywords]
  | cons keyword keywords ih =>
    rw [referencesOfKeywords, mem_append, ih, exists_mem_cons_iff]

theorem mem_referencesOfMembers {members : List (String × Schema)} :
    text ∈ referencesOfMembers members ↔ ∃ member ∈ members, text ∈ member.2.references := by
  induction members with
  | nil => simp [referencesOfMembers]
  | cons member members ih =>
    obtain ⟨name, schema⟩ := member
    rw [referencesOfMembers, mem_append, ih, exists_mem_cons_iff]

/-- The parts of a schema have its references. -/
theorem mem_references_parts :
    (∃ keyword ∈ schema.parts, text ∈ keyword.references) ↔ text ∈ schema.references := by
  cases schema with
  | keywords conditions =>
    rw [references, mem_referencesOfKeywords]
    rfl
  | _ => simp [parts, Keyword.references, referencesOfAll]

/-- The references of a field's schema are those of its type. -/
theorem FieldSchema.references {field : DefinedField}
    (isSchema : FieldSchema reg field schema) {text : String} :
    text ∈ schema.references ↔ ∃ id ∈ field.type.references, text = referenceText reg id := by
  have ofType : text ∈ (typeSchema reg field.type.required).references ↔
      ∃ id ∈ field.type.references, text = referenceText reg id := by
    rw [typeSchema_references, FieldType.required_references, mem_map]
    simp only [eq_comm]
  cases isSchema with
  | bare _ => exact ofType
  | constrained readable conditions =>
    rw [← ofType, references, mem_referencesOfKeywords, ← mem_references_parts]
    simp only [conditions]
    constructor
    · rintro ⟨keyword, ofPart | ⟨constraint, _, read⟩, refers⟩
      · exact ⟨keyword, ofPart, refers⟩
      · rw [(constraintKeyword_plain read).1] at refers
        cases refers
    · rintro ⟨keyword, ofPart, refers⟩
      exact ⟨keyword, .inl ofPart, refers⟩

/-! ## Definitions -/

/-- The names of the fields that must be present. -/
def requiredNames (content : RecordBody) : List String :=
  (content.fields.filter (isRequired content)).map DefinedField.name

/-- The member for the fields that must be present, if there are any. -/
def requiredMembers (names : List String) : Members :=
  if names.isEmpty then [] else [("required", .array (names.map .string))]

/-- The condition that fields must be present, if there are any. -/
def requiredKeywords (names : List String) : List Keyword :=
  if names.isEmpty then [] else [.required names]

/-- The conditions of a record whose fields have the given schemas. -/
def recordKeywords (content : RecordBody) (schemas : List (String × Schema)) : List Keyword :=
  .type [.object] :: .properties schemas ::
    (requiredKeywords (requiredNames content) ++ [.additionalProperties .never])

/-- The conditions of an enumeration. -/
def enumerationKeywords (members : List String) : List Keyword :=
  [.type [.string], .enum (members.map .string)]

/-- The conditions that a definition is read as. -/
inductive DefinitionSchema (registry : Registry) (definition : Definition) :
    List Keyword → Prop where
  | enumeration {members : List String} (body : definition.body = .enumeration members) :
      DefinitionSchema registry definition (enumerationKeywords members)
  | record {content : RecordBody} {schemas : List (String × Schema)}
      (body : definition.body = .record content)
      (fieldwise : Forall₂ (fun field schema =>
          schema.1 = field.name ∧ FieldSchema registry field schema.2) content.fields schemas) :
      DefinitionSchema registry definition (recordKeywords content schemas)

/-- The references of a definition's schema are those of the types of its fields. -/
theorem DefinitionSchema.references {defn : Definition}
    (isSchema : DefinitionSchema reg defn keywords) {text : String} :
    text ∈ (Schema.keywords keywords).references ↔ ∃ field ∈ defn.fields,
      ∃ id ∈ field.type.references, text = referenceText reg id := by
  cases isSchema with
  | enumeration body =>
    rw [fields, body]
    simp [enumerationKeywords, references, referencesOfKeywords, Keyword.references]
  | @record content schemas body fieldwise =>
    have others : text ∈ referencesOfKeywords (requiredKeywords (requiredNames content) ++
        [.additionalProperties .never]) ↔ False := by
      unfold requiredKeywords
      split <;> simp [referencesOfKeywords, Keyword.references, references]
    simp only [fields, body, references, recordKeywords, referencesOfKeywords, mem_append, others,
      or_false, Keyword.references, mem_referencesOfMembers, not_mem_nil, false_or]
    constructor
    · rintro ⟨schema, member, refers⟩
      obtain ⟨field, isField, _, ofField⟩ := exists_left fieldwise member
      exact ⟨field, isField, ofField.references.mp refers⟩
    · rintro ⟨field, isField, refers⟩
      obtain ⟨schema, member, _, ofField⟩ := exists_right fieldwise isField
      exact ⟨schema, member, ofField.references.mpr refers⟩

/-- What is known of the members that are written for a definition. -/
structure DefinitionWritten (registry : Registry) (definition : Definition) (members : Members) :
    Prop where
  bare : members.lookup "$ref" = none
  apart : members.lookup "definitions" = none
  shaped : checkMembers .draft7 members = .ok () ↔ ∀ text, Registry.Stated definition text →
    ∃ chars, Pattern.schemaText text.toList = .ok chars
  readable : (∃ keywords, keywordsOf .draft7 members = .ok keywords) ↔
    ∀ text, Registry.Stated definition text →
      ∃ pattern, Pattern.SchemaPattern.read text = .ok pattern
  reads : ∀ keywords, keywordsOf .draft7 members = .ok keywords →
    DefinitionSchema registry definition keywords
  height : ∀ field ∈ definition.fields, field.type.required.height ≤ membersSize members

variable {defn : Definition}

theorem definitionWritten_enumeration {members : List String}
    (body : defn.body = .enumeration members) :
    DefinitionWritten reg defn
      [("type", .string "string"), ("enum", .array (members.map .string))] := by
  have noFields : defn.fields = [] := by rw [fields, body]
  have noPatterns : ∀ text, ¬ Registry.Stated defn text := by
    simp [Registry.Stated, noFields]
  constructor
  case bare => rfl
  case apart => rfl
  case shaped => exact ⟨fun _ text stated => absurd stated (noPatterns text), fun _ => rfl⟩
  case readable =>
    exact ⟨fun _ text stated => absurd stated (noPatterns text), fun _ => ⟨_, rfl⟩⟩
  case reads =>
    intro keywords read
    cases read
    exact .enumeration body
  case height => simp [noFields]

/-- A list of texts is read as such. -/
theorem textsValue_strings (keyword : String) (names : List String) :
    textsValue keyword (.array (names.map .string)) = .ok names := by
  refine mapM_ok_iff.mpr ?_
  rw [forall₂_map_left_iff]
  exact forall₂_same.mpr fun name _ => rfl

/-- A list of different texts has the shape of one. -/
theorem isDistinctTexts_strings {names : List String} (distinct : names.Nodup) :
    isDistinctTexts (.array (names.map .string)) = true := by
  have texts : texts? (.array (names.map .string)) = some names := by
    simp only [texts?]
    induction names with
    | nil => rfl
    | cons name names ih =>
      rw [map_cons, mapM_cons, ih (nodup_cons.mp distinct).2]
      rfl
  simp [isDistinctTexts, texts, Distinct.eraseDups_of_nodup distinct]

theorem requiredMembers_reads (names : List String) :
    keywordsOf .draft7 (requiredMembers names) = .ok (requiredKeywords names) := by
  unfold requiredMembers requiredKeywords
  split
  · rfl
  · have required : keywordOf .draft7 "required" (.array (names.map .string)) =
        (do return [.required (← textsValue "required" (.array (names.map .string)))]) := rfl
    rw [textsValue_strings] at required
    exact keywordsOf_cons_ok_iff.mpr ⟨_, _, required, rfl, rfl⟩

theorem requiredMembers_shaped {names : List String} (distinct : names.Nodup) :
    ∀ member ∈ requiredMembers names, checkMember .draft7 member.1 member.2 = .ok () := by
  unfold requiredMembers
  split
  · simp
  · rw [forall_mem_singleton]
    show checkKeyword "required" (isDistinctTexts (.array (names.map .string))) = .ok ()
    rw [isDistinctTexts_strings distinct]
    rfl

/-- Schemas under names are read one by one. -/
theorem schemasNamed_eq_mapM (members : Members) :
    schemasNamed .draft7 members = members.mapM fun member => do
      return (member.1, ← ofJson .draft7 member.2) := by
  induction members with
  | nil => rfl
  | cons member members ih =>
    obtain ⟨name, value⟩ := member
    rw [schemasNamed, ih, mapM_cons]
    cases ofJson .draft7 value <;> rfl

/-- The properties that are written for fields. -/
def Properties (registry : Registry) (fields : List DefinedField) (properties : Members) : Prop :=
  Forall₂ (fun field property => property.1 = field.name ∧
    ∃ members, property.2 = .object members ∧ FieldWritten registry field members)
    fields properties

namespace Properties

variable {fields : List DefinedField} {properties : Members}

variable (written : Properties reg fields properties)
include written

/-- Properties have the right shape unless a pattern has another spelling. -/
theorem shaped :
    checkNamed .draft7 properties = .ok () ↔ ∀ field ∈ fields, ∀ text,
      Constraint.pattern text ∈ field.constraints →
        ∃ chars, Pattern.schemaText text.toList = .ok chars := by
  rw [checkNamed_ok_iff]
  constructor
  · intro all field isField
    obtain ⟨property, isProperty, _, members, value, fieldWritten⟩ := exists_right written isField
    exact fieldWritten.shaped.mp (value ▸ all property isProperty)
  · intro spelled property isProperty
    obtain ⟨field, isField, _, members, value, fieldWritten⟩ := exists_left written isProperty
    rw [value]
    exact fieldWritten.shaped.mpr (spelled field isField)

/-- Properties can be read unless a pattern cannot. -/
theorem readable :
    (∃ schemas, schemasNamed .draft7 properties = .ok schemas) ↔ ∀ field ∈ fields, ∀ text,
      Constraint.pattern text ∈ field.constraints →
        ∃ pattern, Pattern.SchemaPattern.read text = .ok pattern := by
  rw [schemasNamed_eq_mapM]
  constructor
  · rintro ⟨schemas, read⟩ field isField
    obtain ⟨property, isProperty, _, members, value, fieldWritten⟩ := exists_right written isField
    obtain ⟨schema, _, done⟩ := exists_right (mapM_ok_iff.mp read) isProperty
    obtain ⟨inner, found, _⟩ := bind_ok_iff.mp done
    exact fieldWritten.readable.mp ⟨inner, value ▸ found⟩
  · intro known
    refine mapM_ok_of_forall fun property isProperty => ?_
    obtain ⟨field, isField, _, members, value, fieldWritten⟩ := exists_left written isProperty
    obtain ⟨schema, found⟩ := fieldWritten.readable.mpr (known field isField)
    exact ⟨(property.1, schema), bind_ok_iff.mpr ⟨schema, value ▸ found, rfl⟩⟩

/-- Properties are read as the schemas of their fields. -/
theorem reads {schemas : List (String × Schema)}
    (read : schemasNamed .draft7 properties = .ok schemas) :
    Forall₂ (fun field schema =>
      schema.1 = field.name ∧ FieldSchema reg field schema.2) fields schemas := by
  rw [schemasNamed_eq_mapM, mapM_ok_iff] at read
  induction written generalizing schemas with
  | nil =>
    cases read
    exact .nil
  | cons here _ ih =>
    cases read with
    | cons first others =>
      obtain ⟨named, members, value, fieldWritten⟩ := here
      obtain ⟨schema, found, same⟩ := bind_ok_iff.mp first
      cases same
      rw [value] at found
      exact .cons ⟨named, fieldWritten.reads schema found⟩ (ih others)

/-- Properties take at least as many values as checking a field takes steps. -/
theorem height {field : DefinedField} (isField : field ∈ fields) :
    field.type.required.height ≤ membersSize properties := by
  obtain ⟨property, isProperty, _, members, value, fieldWritten⟩ := exists_right written isField
  have inside : property.2.size ≤ membersSize properties := size_le_membersSize isProperty
  rw [value] at inside
  exact fieldWritten.height.trans inside

end Properties

/-- The members of a record whose fields have the given properties. -/
def recordMembers (content : RecordBody) (properties : Members) : Members :=
  ("type", .string "object") :: ("properties", .object properties) ::
    (requiredMembers (requiredNames content) ++ [("additionalProperties", .bool false)])

/-- A property is the name of its field with what is written for it. -/
def WrittenFor (registry : Registry) (owner : Definition) (field : DefinedField)
    (property : String × Json) : Prop :=
  ∃ members, ofField registry owner field = .ok members ∧
    property = (field.name, .object members)

variable {content : RecordBody}

/-- The members of a record are written from its fields. -/
theorem ofRecord_members (proper : reg.Proper)
    (isDefinition : defn ∈ reg.definitions) (body : defn.body = .record content)
    (emitted : ofRecord reg defn content = .ok members) :
    ∃ properties, Forall₂ (WrittenFor reg defn) content.fields properties ∧
      members = recordMembers content properties := by
  obtain ⟨properties, mapped, same⟩ := bind_ok_iff.mp emitted
  have written : Forall₂ (WrittenFor reg defn) content.fields properties := by
    refine forall₂_imp (mapM_ok_iff.mp mapped) ?_
    intro field _ property done
    obtain ⟨fieldMembers, found, made⟩ := bind_ok_iff.mp done
    cases made
    exact ⟨fieldMembers, found, rfl⟩
  have names : content.fields.map DefinedField.name = properties.map Prod.fst := by
    refine map_eq_of_forall₂ written ?_
    rintro field _ ⟨fieldMembers, _, rfl⟩
    rfl
  have distinct : (properties.map Prod.fst).Nodup := by
    have all := proper.fieldNames defn isDefinition
    rw [fields, body] at all
    exact names ▸ all
  refine ⟨properties, written, ?_⟩
  cases same
  rw [ofMembers_of_nodup distinct]
  rfl

/-- What is written for a record. -/
theorem ofRecord_ok (proper : reg.Proper) (isDefinition : defn ∈ reg.definitions)
    (body : defn.body = .record content)
    (emitted : ofRecord reg defn content = .ok members) :
    ∃ properties, Properties reg content.fields properties ∧
      members = recordMembers content properties := by
  obtain ⟨properties, written, same⟩ := ofRecord_members proper isDefinition body emitted
  refine ⟨properties, forall₂_imp written ?_, same⟩
  rintro field isField _ ⟨fieldMembers, found, rfl⟩
  have isOwn : field ∈ defn.fields := by
    rw [fields, body]
    exact isField
  exact ⟨rfl, fieldMembers, rfl, ofField_written proper
    (proper.typed defn isDefinition field isOwn)
    (proper.finite defn isDefinition field isOwn) found⟩

variable {properties : Members}

/-- The members of a record are read as the conditions of a record. -/
theorem recordMembers_reads :
    keywordsOf .draft7 (recordMembers content properties) = .ok keywords ↔
      ∃ schemas, schemasNamed .draft7 properties = .ok schemas ∧
        keywords = recordKeywords content schemas := by
  have type : keywordOf .draft7 "type" (.string "object") = .ok [.type [.object]] := rfl
  have fields : keywordOf .draft7 "properties" (.object properties) =
      (do return [.properties (← schemasNamed .draft7 properties)]) := rfl
  have closed : keywordsOf .draft7 [("additionalProperties", .bool false)] =
      .ok [.additionalProperties .never] := rfl
  simp only [recordMembers, keywordsOf_cons_ok_iff, keywordsOf_append_ok_iff, type, closed,
    requiredMembers_reads, fields, bind_ok_iff, Except.ok.injEq]
  constructor
  · rintro ⟨_, _, rfl, ⟨_, _, ⟨schemas, read, same⟩, ⟨_, _, rfl, rfl, rfl⟩, rfl⟩, rfl⟩
    cases same
    exact ⟨schemas, read, rfl⟩
  · rintro ⟨schemas, read, rfl⟩
    exact ⟨_, _, rfl, ⟨_, _, ⟨schemas, read, rfl⟩, ⟨_, _, rfl, rfl, rfl⟩, rfl⟩, rfl⟩

/-- The members of a record have the right shape if those of its fields do. -/
theorem recordMembers_shaped (distinct : (requiredNames content).Nodup) :
    checkMembers .draft7 (recordMembers content properties) = .ok () ↔
      checkNamed .draft7 properties = .ok () := by
  rw [checkMembers_ok_iff, recordMembers, forall_mem_cons, forall_mem_cons,
    forall_mem_append, forall_mem_singleton]
  constructor
  · rintro ⟨_, named, _⟩
    exact named
  · intro named
    exact ⟨rfl, named, requiredMembers_shaped distinct, rfl⟩

theorem definitionWritten_record (proper : reg.Proper)
    (isDefinition : defn ∈ reg.definitions) (body : defn.body = .record content)
    (written : Properties reg content.fields properties) :
    DefinitionWritten reg defn (recordMembers content properties) := by
  have fields : defn.fields = content.fields := by rw [fields, body]
  have distinct : (requiredNames content).Nodup := by
    have all := proper.fieldNames defn isDefinition
    rw [fields] at all
    exact all.sublist (filter_sublist.map DefinedField.name)
  have stated : ∀ {known : String → Prop},
      (∀ text, Registry.Stated defn text → known text) ↔
        ∀ field ∈ content.fields, ∀ text, Constraint.pattern text ∈ field.constraints →
          known text := by
    intro known
    rw [← fields]
    constructor
    · exact fun all field isField text isStated => all text ⟨field, isField, isStated⟩
    · rintro all text ⟨field, isField, isStated⟩
      exact all field isField text isStated
  constructor
  case bare =>
    unfold recordMembers requiredMembers
    split <;> rfl
  case apart =>
    unfold recordMembers requiredMembers
    split <;> rfl
  case shaped => rw [recordMembers_shaped distinct, written.shaped, stated]
  case readable =>
    rw [stated, ← written.readable]
    simp only [recordMembers_reads]
    constructor
    · rintro ⟨_, schemas, read, _⟩
      exact ⟨schemas, read⟩
    · rintro ⟨schemas, read⟩
      exact ⟨_, schemas, read, rfl⟩
  case reads =>
    intro keywords read
    obtain ⟨schemas, found, rfl⟩ := recordMembers_reads.mp read
    exact .record body (written.reads found)
  case height =>
    intro field isField
    rw [fields] at isField
    have bounded := written.height isField
    simp only [recordMembers, membersSize, size]
    omega

/-- What is written for a definition. -/
theorem ofDefinition_written (proper : reg.Proper)
    (isDefinition : defn ∈ reg.definitions)
    (emitted : ofDefinition reg defn = .ok members) :
    DefinitionWritten reg defn members := by
  unfold ofDefinition at emitted
  split at emitted
  · rename_i names body
    cases emitted
    exact definitionWritten_enumeration body
  · rename_i content body
    obtain ⟨properties, written, rfl⟩ := ofRecord_ok proper isDefinition body emitted
    exact definitionWritten_record proper isDefinition body written

end SchemaLang.JsonSchema
