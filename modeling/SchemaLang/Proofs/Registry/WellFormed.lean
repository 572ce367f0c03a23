import SchemaLang.Proofs.Declaration.Proper
import SchemaLang.Proofs.Registry.Linking

/-!
# Well-formed registries

A registry that was built from proper declarations can be relied on: names are plain and
different, also those of the fields of a record, references lead to definitions, choices have
arms, and all numbers are finite.
-/

namespace SchemaLang

open Outcome List Definition

namespace FieldType

variable {ρ σ ε : Type}

/-- Linking keeps a type proper. -/
theorem link_proper {replace : ρ → Except ε σ} {type : FieldType ρ} {linked : FieldType σ}
    (done : type.link replace = .ok linked) (proper : type.Proper) : linked.Proper := by
  induction type generalizing linked with
  | primitive kind =>
    cases done
    trivial
  | reference target =>
    obtain ⟨id, found, rfl⟩ := map_ok_iff.mp done
    trivial
  | array item ih | optional item ih =>
    obtain ⟨inner, found, rfl⟩ := map_ok_iff.mp done
    simp only [Proper] at proper ⊢
    exact ih found proper
  | union arms each =>
    obtain ⟨types, pairwise, rfl⟩ := link_union_ok done
    obtain ⟨isThere, armsProper⟩ := proper
    constructor
    · rintro rfl
      cases pairwise
      exact isThere rfl
    · refine allProper_iff.mpr fun type member => ?_
      obtain ⟨arm, isArm, found⟩ := exists_left pairwise member
      exact each arm isArm found (allProper_iff.mp armsProper arm isArm)
  | range kind least greatest =>
    cases done
    exact proper

end FieldType

/-- The numbers of a listed value are finite. -/
def Literal.Finite (literal : Literal) : Prop :=
  ∀ value, literal = .number value → value.isFinite = true

/-- The numbers of a constraint are finite. -/
def Constraint.Finite : Constraint → Prop
  | .minimum bound => bound.isFinite = true
  | .maximum bound => bound.isFinite = true
  | .exclusiveMinimum bound => bound.isFinite = true
  | .exclusiveMaximum bound => bound.isFinite = true
  | .oneOf values => ∀ literal ∈ values, literal.Finite
  | _ => True

namespace Call

variable {call : Call}

/-- A number that a call gives is finite. -/
theorem number_finite (finite : call.Finite) {value : Double} (done : call.number = .ok value) :
    value.isFinite = true := by
  unfold number at done
  split at done
  · rename_i only arguments
    cases done
    exact finite (.number value) (by rw [arguments]; simp) value rfl
  · cases done

/-- The listed values that a call gives are finite. -/
theorem literals_finite (finite : call.Finite) {values : List Literal}
    (done : call.literals = .ok values) : ∀ literal ∈ values, literal.Finite := by
  unfold literals at done
  split at done
  · cases done
  · cases done
    intro literal member value isNumber
    obtain ⟨argument, given, rfl⟩ := mem_map.mp member
    cases argument with
    | number number =>
      cases isNumber
      exact finite _ given _ rfl
    | text _ | word _ => cases isNumber

/-- The constraint that a call puts on a field is finite. -/
theorem onField_finite (finite : call.Finite) {constraint : Constraint}
    (done : call.onField = .ok constraint) : constraint.Finite := by
  obtain ⟨function, _, rest⟩ := bind_ok_iff.mp done
  cases function with
  | required => cases rest
  | pattern =>
    obtain ⟨text, _, same⟩ := bind_ok_iff.mp rest
    cases same
    trivial
  | minLength | maxLength =>
    obtain ⟨length, _, same⟩ := bind_ok_iff.mp rest
    cases same
    trivial
  | oneOf =>
    obtain ⟨values, found, same⟩ := bind_ok_iff.mp rest
    cases same
    exact literals_finite finite found
  | _ =>
    obtain ⟨bound, found, same⟩ := bind_ok_iff.mp rest
    cases same
    exact number_finite finite found

end Call

/-- All constraints of a definition are finite. -/
def Definition.Finite (definition : Definition) : Prop :=
  ∀ field ∈ definition.fields, ∀ constraint ∈ field.constraints, constraint.Finite

/-- What a registry can be relied on for. -/
structure Registry.Proper (registry : Registry) : Prop where
  distinct : (registry.definitions.map name).Nodup
  plain : ∀ definition ∈ registry.definitions, PlainName definition.name
  fieldNames : ∀ definition ∈ registry.definitions,
    (definition.fields.map DefinedField.name).Nodup
  plainFields : ∀ definition ∈ registry.definitions, ∀ field ∈ definition.fields,
    PlainName field.name
  typed : ∀ definition ∈ registry.definitions, ∀ field ∈ definition.fields, field.type.Proper
  linked : ∀ definition ∈ registry.definitions, ∀ field ∈ definition.fields,
    ∀ id ∈ field.type.references, id < registry.size
  finite : ∀ definition ∈ registry.definitions, definition.Finite
  entry : ∀ id, registry.entry? = some id → id < registry.size

variable {definition defn : Definition} {decls : List ScopedDeclaration} {reg : Registry}

namespace Registry

/-- A field after constraining one is a field from before, or the field at the position with
the new constraints. -/
theorem mem_constrainField {position : Nat} {constraints : List Constraint}
    {fields : List DefinedField} {field : DefinedField}
    (member : field ∈ constrainField position constraints fields) :
    field ∈ fields ∨ ∃ original, fields[position]? = some original ∧
      field = { original with constraints := original.constraints ++ constraints } := by
  induction fields generalizing position with
  | nil => simp [constrainField] at member
  | cons first rest ih =>
    cases position with
    | zero =>
      simp only [constrainField, modify_zero_cons, mem_cons] at member
      rcases member with rfl | later
      · exact .inr ⟨first, rfl, rfl⟩
      · exact .inl (mem_cons_of_mem _ later)
    | succ position =>
      simp only [constrainField, modify_succ_cons, mem_cons] at member
      rcases member with rfl | later
      · exact .inl mem_cons_self
      · exact (ih later).imp (mem_cons_of_mem _) id

/-- Where a constraint comes from after a rule: it was there before, on a field of that name, or a
call of the rule is linked to it and the rule is about fields of that name. -/
theorem applyRule_constraint {changed : Definition} {rule : Rule}
    (applied : applyRule defn rule = .ok changed) {field : DefinedField}
    (isField : field ∈ changed.fields) {constraint : Constraint}
    (stated : constraint ∈ field.constraints) :
    (∃ original ∈ defn.fields, original.name = field.name ∧ constraint ∈ original.constraints) ∨
      rule.key ≠ "self" ∧ field.name = rule.key ∧
        ∃ call ∈ rule.calls, call.onField = .ok constraint := by
  obtain ⟨_, required, _, rfl⟩ | ⟨notSelf, position, constraints, found, called, rfl⟩ :=
    applyRule_ok applied
  · rw [fields_require] at isField
    exact .inl ⟨field, isField, rfl, stated⟩
  · rw [fields_constrain] at isField
    obtain old | ⟨original, isThere, rfl⟩ := mem_constrainField isField
    · exact .inl ⟨field, old, rfl, stated⟩
    · rcases mem_append.mp stated with old | new
      · exact .inl ⟨original, mem_of_getElem? isThere, rfl, old⟩
      · obtain ⟨bound, named, _⟩ := findIdx?_eq_some_iff_getElem.mp found
        rw [getElem?_eq_getElem bound] at isThere
        cases isThere
        obtain ⟨call, isCall, done⟩ := exists_left (mapM_ok_iff.mp called) new
        exact .inr ⟨notSelf, by simpa using named, call, isCall, done⟩

/-- A rule of finite calls keeps a definition finite. -/
theorem applyRule_finite {changed : Definition} {rule : Rule} (finite : defn.Finite)
    (calls : ∀ call ∈ rule.calls, call.Finite)
    (applied : applyRule defn rule = .ok changed) : changed.Finite := by
  intro field isField constraint stated
  obtain ⟨original, isOriginal, _, old⟩ | ⟨_, _, call, isCall, done⟩ :=
    applyRule_constraint applied isField stated
  · exact finite original isOriginal constraint old
  · exact Call.onField_finite (calls call isCall) done

/-- Linking a field keeps its type proper. -/
theorem linkField_proper {names : Registry} {outline : Outline} {field : Field}
    {linked : DefinedField} (proper : field.type.Proper)
    (done : linkField names outline field = .ok linked) : linked.type.Proper := by
  unfold linkField at done
  obtain ⟨type, found, same⟩ := bind_ok_iff.mp done
  cases same
  exact FieldType.link_proper found proper

/-- A definition without constraints is finite. -/
theorem finite_of_skeleton (bare : defn.skeleton = defn) : defn.Finite := by
  intro field member constraint stated
  rw [← bare, skeleton_fields] at member
  obtain ⟨original, _, rfl⟩ := mem_map.mp member
  cases stated

/-- A registry that was built from proper declarations is finite. -/
theorem build_finite (proper : ∀ stmt ∈ decls, stmt.declaration.Proper)
    (built : build decls = .ok reg) :
    ∀ defn ∈ reg.definitions, defn.Finite := by
  refine build_keeps (fun _ => finite_of_skeleton) ?_ built
  intro stmt member rule stated defn next applied finite
  refine applyRule_finite finite ?_ applied
  have holds := proper stmt member
  cases decl : stmt.declaration with
  | validation content =>
    rw [decl] at holds stated
    exact holds rule stated
  | _ =>
    rw [decl] at stated
    cases stated

/-- Every definition of a built registry comes from a declaration, and its fields from the
fields of that declaration. -/
theorem build_origin (built : build decls = .ok reg)
    (member : defn ∈ reg.definitions) :
    ∃ outline, outline.statement ∈ decls ∧
      outline.statement.qualifiedName? = some defn.name ∧
      Forall₂ (fun field linked =>
          linkField (ofOutlines (Outline.all decls)) outline field = .ok linked)
        outline.statement.declaration.fields (defn.fields.map DefinedField.skeleton) := by
  obtain ⟨outline, outlined, linked⟩ := exists_left (build_ok built).2.1 member
  obtain ⟨fields, same, fieldwise⟩ := linkOutline_ok linked
  obtain ⟨stmt, stated, made⟩ := mem_filterMap.mp outlined
  obtain ⟨name, named, rfl⟩ := Option.map_eq_some_iff.mp made
  refine ⟨⟨name, stmt⟩, stated, ?_, ?_⟩
  · rw [← skeleton_name, same, withFields_name]
    exact named
  · rw [← skeleton_fields, same, withFields_fields fieldwise]
    exact fieldwise

end Registry

variable {decl : Declaration}

/-- The name that a proper declaration introduces is plain. -/
theorem Declaration.Proper.name_plain (proper : decl.Proper) {name : String}
    (named : decl.name? = some name) : PlainName name := by
  cases decl with
  | enumeration content =>
    cases named
    exact proper
  | record _ | entry _ =>
    cases named
    exact RecordDeclaration.Proper.named proper
  | moduleImport _ | validation _ => cases named

/-- The fields of a proper declaration are proper and have different names. -/
theorem Declaration.Proper.fields (proper : decl.Proper) :
    (decl.fields.map Field.name).Nodup ∧
      ∀ field ∈ decl.fields, field.Proper := by
  cases decl with
  | record _ | entry _ =>
    exact ⟨RecordDeclaration.Proper.distinct proper, RecordDeclaration.Proper.fields proper⟩
  | enumeration _ | moduleImport _ | validation _ => simp [Declaration.fields]

namespace Registry

/-- The references of all fields lead to definitions. -/
def Linked (registry : Registry) : Prop :=
  ∀ definition ∈ registry.definitions, ∀ field ∈ definition.fields,
    ∀ id ∈ field.type.references, id < registry.size

/-- The references of a built registry lead to its definitions. -/
theorem build_linked (built : build decls = .ok reg) : reg.Linked := by
  intro defn member field isField id refers
  obtain ⟨outline, _, _, links⟩ := build_origin built member
  obtain ⟨written, _, done⟩ := exists_left links (mem_map_of_mem isField)
  obtain ⟨name, _, means⟩ := exists_left (linkField_ok done).2.2 refers
  rw [build_lookupIn? built] at means
  exact lookupIn?_lt means

/-- A registry that was built from proper declarations in plain scopes is proper. -/
theorem build_proper (proper : ∀ stmt ∈ decls, stmt.declaration.Proper ∧
      ∀ scope, stmt.scope? = some scope → PlainName scope)
    (built : build decls = .ok reg) : reg.Proper := by
  have fieldwise : ∀ defn ∈ reg.definitions, ∀ field ∈ defn.fields,
      PlainName field.name ∧ field.type.Proper := by
    intro defn member field fieldMember
    obtain ⟨outline, stated, _, links⟩ := build_origin built member
    obtain ⟨written, isWritten, done⟩ := exists_left links (mem_map_of_mem fieldMember)
    have writtenProper := (proper _ stated).1.fields.2 written isWritten
    have sameName : field.name = written.name := (linkField_ok done).1
    have typed : field.skeleton.type.Proper := linkField_proper writtenProper.typed done
    rw [sameName]
    exact ⟨writtenProper.named, typed⟩
  constructor
  case distinct => exact build_distinct built
  case plain =>
    intro defn member
    obtain ⟨outline, stated, named, _⟩ := build_origin built member
    obtain ⟨name, own, full⟩ := Option.map_eq_some_iff.mp named
    rw [← full]
    exact PlainName.qualify (proper _ stated).2 ((proper _ stated).1.name_plain own)
  case fieldNames =>
    intro defn member
    obtain ⟨outline, stated, _, links⟩ := build_origin built member
    have names : outline.statement.declaration.fields.map Field.name =
        (defn.fields.map DefinedField.skeleton).map DefinedField.name :=
      map_eq_of_forall₂ links fun field linked done => (linkField_ok done).1.symm
    have sameNames : (defn.fields.map DefinedField.skeleton).map DefinedField.name =
        defn.fields.map DefinedField.name := by
      rw [map_map]
      rfl
    rw [← sameNames, ← names]
    exact (proper _ stated).1.fields.1
  case plainFields =>
    exact fun defn member field stated => (fieldwise defn member field stated).1
  case typed =>
    exact fun defn member field stated => (fieldwise defn member field stated).2
  case linked => exact build_linked built
  case finite => exact build_finite (fun stmt member => (proper stmt member).1) built
  case entry =>
    intro id isEntry
    obtain ⟨_, pairwise, entry⟩ := build_ok built
    rw [entry, findIdx?_eq_some_iff_getElem] at isEntry
    rw [Registry.size, ← pairwise.length_eq]
    exact isEntry.1

end Registry

end SchemaLang
