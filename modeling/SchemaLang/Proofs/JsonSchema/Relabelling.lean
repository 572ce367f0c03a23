import SchemaLang.JsonSchema.Document
import SchemaLang.Proofs.Registry.Relabelling

/-!
# Schemas do not depend on locations and numbers

A reference in a schema goes by name, so the schema of a definition is the same in renumbered
registries. Locations go into errors only. The document as a whole follows the order of the
definitions; where the numbers are kept, it is the same as well.
-/

namespace SchemaLang

open Relabelling FieldType

variable {ρ : Relabelling}

namespace FieldType

theorem map_required (change : Nat → Nat) (type : FieldType Nat) :
    (type.map change).required = type.required.map change := by
  cases type <;> rfl

theorem map_isArray (change : Nat → Nat) (type : FieldType Nat) :
    (type.map change).isArray = type.isArray := by
  cases type <;> rfl

theorem map_isOptional (change : Nat → Nat) (type : FieldType Nat) :
    (type.map change).isOptional = type.isOptional := by
  cases type <;> rfl

end FieldType

namespace JsonSchema

variable {reg other : Registry}

section

variable (renumbered : Registry.Renumbered ρ reg other)
include renumbered

theorem pointer_relabel (id : Nat) (defn : Definition) :
    pointer other (ρ.number id) (defn.relabel ρ) = pointer reg id defn := by
  unfold pointer
  by_cases isEntry : reg.entry? = some id
  · rw [if_pos isEntry, if_pos (renumbered.entry_iff.mpr isEntry)]
  · rw [if_neg isEntry, if_neg (mt renumbered.entry_iff.mp isEntry)]
    rfl

theorem ofType_relabel (type : FieldType Nat) :
    ofType other (type.map ρ.number) = ρ.outcome id (ofType reg type) := by
  induction type with
  | primitive _ | range _ _ _ => rfl
  | reference id =>
    rw [map, ofType, ofType, renumbered.definition]
    cases reg.get? id with
    | none => rfl
    | some defn =>
      dsimp only [Option.map_some]
      rw [pointer_relabel renumbered]
      rfl
  | array item ih =>
    rw [map, ofType, ofType, ih]
    exact outcome_map fun _ => rfl
  | optional inner ih =>
    rw [map, ofType, ofType, ih]
  | union arms each =>
    rw [map, ofType, ofType, mapAll_eq_map, ofArms_eq_mapM, ofArms_eq_mapM,
      outcome_mapM_values fun arm isArm => by
        rw [each arm isArm]
        exact outcome_map fun _ => rfl]
    exact outcome_map fun _ => rfl

omit renumbered in
theorem addConstraint_relabel (owner : Definition) (field : DefinedField) (members : Members)
    (constraint : Constraint) :
    addConstraint (owner.relabel ρ) (field.relabel ρ) members constraint =
      ρ.outcome id (addConstraint owner field members constraint) := by
  have sameShape : (field.relabel ρ).type.required.isArray = field.type.required.isArray := by
    show (field.type.map ρ.number).required.isArray = _
    rw [map_required, map_isArray]
  unfold addConstraint
  rw [sameShape]
  dsimp only
  split
  · split <;> rfl
  · rfl

theorem ofField_relabel (owner : Definition) (field : DefinedField) :
    ofField other (owner.relabel ρ) (field.relabel ρ) = ρ.outcome id (ofField reg owner field) := by
  have sameType : (field.relabel ρ).type.required = field.type.required.map ρ.number :=
    map_required ρ.number field.type
  have constrained (members : Members) :
      (field.constraints.map id).foldlM (addConstraint (owner.relabel ρ) (field.relabel ρ))
          members =
        ρ.outcome id
          (field.constraints.foldlM (addConstraint owner field) members) :=
    outcome_foldlM
      (fun members constraint _ => addConstraint_relabel owner field members constraint) members
  unfold ofField
  rw [sameType, ofType_relabel renumbered]
  refine outcome_bind fun members => ?_
  rw [List.map_id] at constrained
  show (if field.constraints.isEmpty then _ else _) = _
  split
  · rfl
  · exact constrained (wrapReference members)

theorem ofRecord_relabel (owner : Definition) (content : RecordBody) :
    ofRecord other (owner.relabel ρ) (content.relabel ρ) =
      ρ.outcome id (ofRecord reg owner content) := by
  have properties : ((content.relabel ρ).fields.mapM fun field => do
        return (field.name, Json.object (← ofField other (owner.relabel ρ) field))) =
      ρ.outcome id (content.fields.mapM fun field => do
        return (field.name, Json.object (← ofField reg owner field))) := by
    refine outcome_mapM_values fun field _ => ?_
    rw [ofField_relabel renumbered]
    exact outcome_bind fun _ => rfl
  have required : (((content.relabel ρ).fields.filter (isRequired (content.relabel ρ))).map
      DefinedField.name) = (content.fields.filter (isRequired content)).map DefinedField.name := by
    have sameRule (field : DefinedField) :
        isRequired (content.relabel ρ) (field.relabel ρ) = isRequired content field := by
      show (!(field.type.map ρ.number).isOptional || _) = (!field.type.isOptional || _)
      rw [map_isOptional]
      rfl
    show ((content.fields.map (DefinedField.relabel ρ)).filter _).map DefinedField.name = _
    rw [List.filter_map, List.map_map]
    simp only [Function.comp_def, sameRule]
    rfl
  unfold ofRecord
  rw [properties, required]
  exact outcome_bind fun _ => rfl

/-- The schema of a definition is the same in renumbered registries. -/
theorem ofDefinition_relabel (defn : Definition) :
    ofDefinition other (defn.relabel ρ) = ρ.outcome id (ofDefinition reg defn) := by
  obtain ⟨name, scope?, location, body⟩ := defn
  cases body with
  | enumeration members => rfl
  | record content => exact ofRecord_relabel renumbered _ content

theorem rootMembers_relabel : rootMembers other = ρ.outcome id (rootMembers reg) := by
  unfold rootMembers
  rw [renumbered.entry]
  cases reg.entry? with
  | none => rfl
  | some id =>
    dsimp only [Option.map_some]
    rw [renumbered.definition]
    cases reg.get? id with
    | none => rfl
    | some defn =>
      dsimp only [Option.map_some]
      rw [ofDefinition_relabel renumbered]
      exact outcome_bind fun _ => rfl

end

/-- The definitions that stand under `definitions`. -/
def others (registry : Registry) : List (Nat × Definition) :=
  registry.numbered.filter fun (id, _) => registry.entry? ≠ some id

/-- A definition as a member of `definitions`. -/
def writeMember (registry : Registry) (numbered : Nat × Definition) :
    Except Error (String × Json) := do
  return (numbered.2.name, Json.object (← ofDefinition registry numbered.2))

theorem ofRegistry_eq (reg : Registry) : ofRegistry reg = do
    let root ← rootMembers reg
    let defns ← (others reg).mapM (writeMember reg)
    return .object ([("$schema", .string dialect)] ++ root ++
      [("definitions", Json.ofMembers defns)]) := rfl

/-- A definition with its new number. -/
def moved (ρ : Relabelling) : Nat × Definition → Nat × Definition :=
  Prod.map ρ.number (Definition.relabel ρ)

theorem writeMember_moved (renumbered : Registry.Renumbered ρ reg other)
    (numbered : Nat × Definition) :
    writeMember other (moved ρ numbered) = ρ.outcome id (writeMember reg numbered) := by
  unfold writeMember
  rw [show (moved ρ numbered).2 = numbered.2.relabel ρ from rfl, ofDefinition_relabel renumbered]
  exact outcome_bind fun _ => rfl

theorem filter_moved (renumbered : Registry.Renumbered ρ reg other) :
    ((reg.numbered.map (moved ρ)).filter fun (id, _) => other.entry? ≠ some id) =
      (others reg).map (moved ρ) := by
  rw [List.filter_map, others]
  refine congrArg (List.map (moved ρ)) (List.filter_congr ?_)
  rintro ⟨id, defn⟩ _
  exact decide_eq_decide.mpr (not_congr renumbered.entry_iff)

theorem others_relabel (fixed : ρ.number = id) (reg : Registry) :
    others (reg.relabel ρ) = (others reg).map (moved ρ) := by
  have inPlace : (reg.relabel ρ).numbered = reg.numbered.map (moved ρ) := by
    rw [Registry.numbered_relabel, moved, fixed]
  rw [others, inPlace]
  exact filter_moved (Registry.renumbered_relabel fixed reg)

/-- The document of a registry does not depend on its locations. -/
theorem ofRegistry_relabel (fixed : ρ.number = id) (reg : Registry) :
    ofRegistry (reg.relabel ρ) = ρ.outcome id (ofRegistry reg) := by
  have renumbered := Registry.renumbered_relabel fixed reg
  rw [ofRegistry_eq, ofRegistry_eq, rootMembers_relabel renumbered]
  refine outcome_bind fun root => ?_
  rw [others_relabel fixed, outcome_mapM_values fun item _ =>
    writeMember_moved renumbered item]
  exact outcome_bind fun _ => rfl

end JsonSchema

end SchemaLang
