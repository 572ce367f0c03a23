import SchemaLang.Declaration.Grammar
import SchemaLang.Proofs.Bindings.Emission
import SchemaLang.Proofs.JsonSchema.Types
import SchemaLang.Proofs.Registry.Invariant

/-!
# Faults after the registry

Once a registry is built, little can go wrong. Its references lead to definitions, so writing
a type into a document or into bindings finds all it refers to, at any depth. What is left are
the faults of the source text itself: constraints that contradict each other, and names or
unions that a target language cannot express.
-/

namespace SchemaLang

open List FieldType Target Outcome.FailsOnly
open Outcome (exists_map_ok_iff mapM_ok_of_forall)

/-- All references of a type lead to definitions. -/
def Registry.Covers (registry : Registry) (type : FieldType Nat) : Prop :=
  ∀ id ∈ type.references, id < registry.size

namespace Registry

variable {registry reg : Registry}

theorem Covers.item {item : FieldType Nat} (covers : reg.Covers (.array item)) :
    reg.Covers item := by
  intro id refers
  exact covers id (by rwa [references])

theorem Covers.inner {inner : FieldType Nat} (covers : reg.Covers (.optional inner)) :
    reg.Covers inner := by
  intro id refers
  exact covers id (by rwa [references])

theorem Covers.arms {arms : List (FieldType Nat)} (covers : reg.Covers (.union arms)) :
    ∀ arm ∈ arms, reg.Covers arm := by
  intro arm member id refers
  refine covers id ?_
  rw [references]
  exact mem_referencesOfAll.mpr ⟨arm, member, refers⟩

theorem Covers.required {type : FieldType Nat} (covers : reg.Covers type) :
    reg.Covers type.required := by
  intro id refers
  rw [required_references] at refers
  exact covers id refers

/-- What a covered reference leads to. -/
theorem Covers.definition {id : Nat} (covers : reg.Covers (.reference id)) :
    ∃ defn, reg.get? id = some defn := by
  have bound : id < reg.definitions.length := covers id (by simp [references])
  exact ⟨reg.definitions[id], getElem?_eq_getElem bound⟩

end Registry

/-! ## The document -/

namespace JsonSchema

variable {registry reg : Registry}

/-- Constraints on one field contradict each other. -/
def Conflict (fault : Error) : Prop :=
  ∃ owner field keyword location, fault = .conflictingConstraint owner field keyword location

/-- Constraints on a field of a definition contradict each other, and the fault stands there. -/
def ConflictIn (definition : Definition) (fault : Error) : Prop :=
  ∃ field ∈ definition.fields, ∃ keyword,
    fault = .conflictingConstraint definition.name field.name keyword field.location

/-- A covered type has a schema. -/
theorem ofType_ok_of_covers {type : FieldType Nat} (covers : reg.Covers type) :
    ∃ members, ofType reg type = .ok members := by
  induction type with
  | primitive _ | range _ _ _ => exact ⟨_, rfl⟩
  | reference id =>
    obtain ⟨defn, found⟩ := covers.definition
    exact ⟨_, by rw [ofType, found]⟩
  | array item ih =>
    rw [ofType]
    exact exists_map_ok_iff.mpr (ih covers.item)
  | optional inner ih =>
    rw [ofType]
    exact ih covers.inner
  | union arms each =>
    rw [ofType, ofArms_eq_mapM]
    refine exists_map_ok_iff.mpr (mapM_ok_of_forall fun arm isArm => ?_)
    exact exists_map_ok_iff.mpr (each arm isArm (covers.arms arm isArm))

/-- Adding a constraint fails only in a conflict. -/
theorem addConstraint_failsOnly {owner : Definition} {field : DefinedField}
    (isField : field ∈ owner.fields) (members : Members) (constraint : Constraint) :
    Outcome.FailsOnly (ConflictIn owner) (addConstraint owner field members constraint) := by
  unfold addConstraint
  dsimp only
  split
  · split
    · exact .error ⟨field, isField, _, rfl⟩
    · exact .of_ok ⟨_, rfl⟩
  · exact .of_ok ⟨_, rfl⟩

theorem ofField_failsOnly {owner : Definition} {field : DefinedField}
    (isField : field ∈ owner.fields) (covers : reg.Covers field.type) :
    Outcome.FailsOnly (ConflictIn owner) (ofField reg owner field) := by
  refine (of_ok (ofType_ok_of_covers covers.required)).bind fun members _ => ?_
  split
  · exact .of_ok ⟨members, rfl⟩
  · exact .foldlM (fun state constraint _ => addConstraint_failsOnly isField state constraint) _

theorem ofDefinition_failsOnly {defn : Definition}
    (covers : ∀ field ∈ defn.fields, reg.Covers field.type) :
    Outcome.FailsOnly (ConflictIn defn) (ofDefinition reg defn) := by
  unfold ofDefinition
  split
  · exact .of_ok ⟨_, rfl⟩
  · rename_i content body
    have isFields : defn.fields = content.fields := by rw [Definition.fields, body]
    refine bind ?_ fun properties _ => .of_ok ⟨_, rfl⟩
    refine .mapM fun field member => ?_
    rw [← isFields] at member
    exact (ofField_failsOnly member (covers field member)).bind fun members _ => .of_ok ⟨_, rfl⟩

/-- A linked registry whose entry is one of its definitions has a document, unless constraints
on a field of a definition conflict. -/
theorem ofRegistry_failsOnlyIn (linked : reg.Linked)
    (entered : ∀ id, reg.entry? = some id → id < reg.size) :
    Outcome.FailsOnly (fun fault => ∃ defn ∈ reg.definitions, ConflictIn defn fault)
      (ofRegistry reg) := by
  have each : ∀ defn ∈ reg.definitions, Outcome.FailsOnly
      (fun fault => ∃ defn ∈ reg.definitions, ConflictIn defn fault)
      (ofDefinition reg defn) := by
    intro defn member fault failed
    exact ⟨defn, member, ofDefinition_failsOnly (linked defn member) fault failed⟩
  refine bind ?_ fun members _ =>
    bind ?_ fun defns _ => .of_ok ⟨_, rfl⟩
  · unfold rootMembers
    split
    · exact .of_ok ⟨_, rfl⟩
    · rename_i id isEntry
      have bound : id < reg.definitions.length := entered id isEntry
      have found : reg.get? id = some reg.definitions[id] := getElem?_eq_getElem bound
      rw [found]
      exact (each _ (getElem_mem bound)).bind fun members _ => .of_ok ⟨_, rfl⟩
  · refine .mapM fun numbered member => ?_
    have isNumbered := (mem_filter.mp member).1
    obtain ⟨place, bound, same⟩ := mem_mapIdx.mp isNumbered
    rw [← same]
    exact (each _ (getElem_mem bound)).bind fun members _ => .of_ok ⟨_, rfl⟩

/-- A linked registry whose entry is one of its definitions has a document, unless constraints
conflict. -/
theorem ofRegistry_failsOnly (linked : reg.Linked)
    (entered : ∀ id, reg.entry? = some id → id < reg.size) :
    Outcome.FailsOnly Conflict (ofRegistry reg) := by
  intro fault failed
  obtain ⟨defn, _, field, _, keyword, same⟩ := ofRegistry_failsOnlyIn linked entered fault failed
  exact ⟨_, _, _, _, same⟩

end JsonSchema

/-! ## Identifiers -/

namespace Target

/-- The target cannot express a construct. -/
def Unsupported (target : Target) (fault : Error) : Prop :=
  ∃ construct location, fault = .unsupported target construct location

theorem checkFields_failsOnly (target : Target) (defn : Definition)
    (earlier fields : List DefinedField) :
    Outcome.FailsOnly target.Unsupported (checkFields target defn earlier fields) := by
  induction fields generalizing earlier with
  | nil => exact .of_ok ⟨(), rfl⟩
  | cons field fields ih =>
    rw [checkFields]
    split
    · exact .error ⟨_, _, rfl⟩
    · exact ih (earlier ++ [field])

theorem checkDefinitions_failsOnly (target : Target) (earlier defns : List Definition) :
    Outcome.FailsOnly target.Unsupported (checkDefinitions target earlier defns) := by
  induction defns generalizing earlier with
  | nil => exact .of_ok ⟨(), rfl⟩
  | cons defn defns ih =>
    have fieldwise := checkFields_failsOnly target defn [] defn.fields
    rw [checkDefinitions]
    split
    · exact .error ⟨_, _, rfl⟩
    · split
      · rename_i fault failed
        exact .error (fieldwise fault failed)
      · exact ih (earlier ++ [defn])

end Target

/-! ## TypeScript -/

namespace TypeScriptBindings

variable {registry reg : Registry}

/-- A covered type has a form. -/
theorem ofType_ok_of_covers {type : FieldType Nat} (covers : reg.Covers type) :
    ∃ text, ofType reg type = .ok text := by
  induction type with
  | primitive _ | range _ _ _ => exact ⟨_, rfl⟩
  | reference id =>
    obtain ⟨defn, found⟩ := covers.definition
    exact ⟨_, by rw [ofType, found]⟩
  | array item ih =>
    rw [ofType]
    exact exists_map_ok_iff.mpr (ih covers.item)
  | optional inner ih =>
    rw [ofType]
    exact exists_map_ok_iff.mpr (ih covers.inner)
  | union arms each =>
    rw [ofType, ofArms_eq_mapM]
    refine exists_map_ok_iff.mpr (mapM_ok_of_forall fun arm isArm => ?_)
    exact each arm isArm (covers.arms arm isArm)

/-- A linked registry has all its blocks. -/
theorem generate_ok_of_linked (linked : reg.Linked) : ∃ blocks, generate reg = .ok blocks := by
  refine mapM_ok_of_forall fun defn member => ?_
  have covers := linked defn member
  unfold ofDefinition
  split
  · exact ⟨_, rfl⟩
  · rename_i content body
    rw [Definition.fields, body] at covers
    have fieldwise : ∃ lines, content.fields.mapM (ofField reg) = .ok lines := by
      refine mapM_ok_of_forall fun field isField => ?_
      obtain ⟨text, done⟩ := ofType_ok_of_covers (Registry.Covers.required (covers field isField))
      exact ⟨_, by rw [ofField, done]; rfl⟩
    obtain ⟨lines, done⟩ := fieldwise
    exact ⟨_, by rw [done]; rfl⟩

end TypeScriptBindings

/-! ## Rust -/

namespace RustBindings

open Emission

variable {ctx : FieldContext}

theorem unsupported_unsupported (ctx : FieldContext) (construct : Construct) :
    rust.Unsupported (unsupported ctx construct) := ⟨_, _, rfl⟩

theorem definition_ok_of_covers {id : Nat} (covers : ctx.registry.Covers (.reference id)) :
    ∃ defn, ctx.definition id = .ok defn := by
  obtain ⟨defn, found⟩ := covers.definition
  exact ⟨defn, by rw [FieldContext.definition, found]⟩

/-- Naming the variant for an arm fails only for a union inside a union. -/
theorem variantName_failsOnly {arm : FieldType Nat} (covers : ctx.registry.Covers arm) :
    Outcome.FailsOnly rust.Unsupported (variantName ctx arm) := by
  match arm with
  | .primitive _ | .range _ _ _ => exact .of_ok ⟨_, rfl⟩
  | .reference id =>
    obtain ⟨defn, found⟩ := definition_ok_of_covers covers
    exact .of_ok ⟨_, by rw [variantName, found]; rfl⟩
  | .array item =>
    rw [variantName]
    exact (variantName_failsOnly covers.item).bind fun name _ => .of_ok ⟨_, rfl⟩
  | .optional inner =>
    rw [variantName]
    exact variantName_failsOnly covers.inner
  | .union arms => exact .error (unsupported_unsupported ctx .nestedUnion)

theorem freeUnionName_failsOnly (ctx : FieldContext) :
    FailsOnly rust.Unsupported (freeUnionName ctx) := by
  refine FailsOnly.get.bind fun progress => ?_
  split
  · exact .throw (unsupported_unsupported ctx _)
  · split
    · exact .throw (unsupported_unsupported ctx _)
    · exact .pure _

mutual

/-- Writing a covered type fails only in what the target cannot express. -/
theorem ofType_failsOnly {type : FieldType Nat} (covers : ctx.registry.Covers type)
    (insideVector : Bool) :
    FailsOnly rust.Unsupported (ofType ctx insideVector type) := by
  match type with
  | .primitive _ | .range _ _ _ => exact .pure _
  | .reference id =>
    obtain ⟨defn, found⟩ := definition_ok_of_covers covers
    refine .liftExcept (.of_ok ?_)
    rw [ofReference, found]
    exact ⟨_, (apply_ite _ _ _ _).symm⟩
  | .array item =>
    exact (ofType_failsOnly covers.item true).bind fun text => .pure _
  | .optional inner =>
    exact (ofType_failsOnly covers.inner insideVector).bind fun text => .pure _
  | .union arms =>
    refine (freeUnionName_failsOnly ctx).bind fun name => ?_
    refine (ofArms_failsOnly covers.arms insideVector []).bind fun variants => ?_
    exact (FailsOnly.addUnion name variants).bind fun _ => .pure name

/-- Writing covered arms fails only in what the target cannot express. -/
theorem ofArms_failsOnly {arms : List (FieldType Nat)}
    (covers : ∀ arm ∈ arms, ctx.registry.Covers arm) (insideVector : Bool)
    (earlier : List (String × String)) :
    FailsOnly rust.Unsupported (ofArms ctx insideVector earlier arms) := by
  match arms with
  | [] => exact .pure earlier
  | arm :: arms =>
    have coversArm := covers arm mem_cons_self
    refine (FailsOnly.liftExcept (variantName_failsOnly coversArm)).bind fun variant => ?_
    refine (ofType_failsOnly coversArm insideVector).bind fun type => ?_
    split
    · exact .throw (unsupported_unsupported ctx _)
    · exact ofArms_failsOnly (fun other member => covers other (mem_cons_of_mem arm member))
        insideVector _

end

theorem variantLines_failsOnly (defn : Definition) (earlier members : List String) :
    Outcome.FailsOnly rust.Unsupported (variantLines defn earlier members) := by
  induction members generalizing earlier with
  | nil => exact .of_ok ⟨[], rfl⟩
  | cons member members ih =>
    rw [variantLines]
    split
    · exact .error ⟨_, _, rfl⟩
    · exact (ih _).bind fun lines _ => .of_ok ⟨_, rfl⟩

theorem ofDefinition_failsOnly {reg : Registry} {defn : Definition}
    (covers : ∀ field ∈ defn.fields, reg.Covers field.type) (id : Nat) :
    FailsOnly rust.Unsupported (ofDefinition reg id defn) := by
  unfold ofDefinition
  split
  · rename_i members _
    refine .liftExcept ?_
    exact (variantLines_failsOnly defn [] members).bind fun lines _ => .of_ok ⟨_, rfl⟩
  · rename_i content body
    rw [Definition.fields, body] at covers
    refine FailsOnly.bind ?_ fun fields => ?_
    · refine .mapM fun field member => ?_
      have typeOnly : FailsOnly rust.Unsupported
          (ofType ⟨reg, id, defn, field⟩ false field.type) :=
        ofType_failsOnly (covers field member) false
      exact typeOnly.bind fun type => .pure _
    · refine FailsOnly.get.bind fun progress => ?_
      exact (FailsOnly.set _).bind fun _ => .pure _

/-- Writing a linked registry fails only in what the target cannot express. -/
theorem generate_failsOnly {reg : Registry} (linked : reg.Linked) :
    Outcome.FailsOnly rust.Unsupported (generate reg) := by
  refine FailsOnly.mapM (fun numbered member => ?_) {}
  obtain ⟨place, bound, same⟩ := mem_mapIdx.mp member
  rw [← same]
  exact ofDefinition_failsOnly (linked _ (getElem_mem bound)) place

end RustBindings

/-- Bindings of a linked registry fail only in what the target cannot express. -/
theorem Target.generate_failsOnly (target : Target) {reg : Registry}
    (linked : reg.Linked) :
    Outcome.FailsOnly target.Unsupported (target.generate reg) := by
  refine (checkDefinitions_failsOnly target [] reg.definitions).bind fun _ _ => ?_
  refine bind ?_ fun blocks _ => .of_ok ⟨_, rfl⟩
  match target with
  | .rust => exact RustBindings.generate_failsOnly linked
  | .typeScript => exact .of_ok (TypeScriptBindings.generate_ok_of_linked linked)

namespace Registry

/-- The entry of a registry with the invariant is one of its definitions. -/
theorem Invariant.entry_lt {decls : List ScopedDeclaration} {reg : Registry}
    (invariant : reg.Invariant decls) {id : Nat} (isEntry : reg.entry? = some id) :
    id < reg.size := by
  obtain ⟨⟨stmt, _, found, _⟩, _⟩ := (invariant.entry id).mp isEntry
  obtain ⟨bound, _⟩ := List.getElem?_eq_some_iff.mp found
  rw [invariant.rendered.length_eq] at bound
  exact bound

/-- Every registry that is built has the invariant. Hence its document is there unless
constraints on a field conflict, and its bindings for a target are there unless the target
cannot express a construct; nothing else goes wrong. -/
theorem build_leaves_no_internal_fault {declarations : List ScopedDeclaration}
    {registry : Registry} (built : build declarations = .ok registry) :
    registry.Invariant declarations ∧
      ((∃ document, JsonSchema.ofRegistry registry = .ok document) ∨
        ∃ owner field keyword location, JsonSchema.ofRegistry registry =
          .error (.conflictingConstraint owner field keyword location)) ∧
      ∀ target : Target, (∃ text, target.generate registry = .ok text) ∨
        ∃ construct location,
          target.generate registry = .error (.unsupported target construct location) := by
  have invariant := build_invariant built
  refine ⟨invariant, ?_, fun target => ?_⟩
  · have document :=
      JsonSchema.ofRegistry_failsOnly invariant.linked fun _ isEntry => invariant.entry_lt isEntry
    rcases document.ok_or_error with done | ⟨_, failed, owner, field, keyword, location, rfl⟩
    · exact .inl done
    · exact .inr ⟨owner, field, keyword, location, failed⟩
  · rcases (target.generate_failsOnly invariant.linked).ok_or_error with
      done | ⟨_, failed, construct, location, rfl⟩
    · exact .inl done
    · exact .inr ⟨construct, location, failed⟩

/-- Declarations of records that refer to each other, with rules that contradict each other and
a union whose arms fall together. -/
def quarrelling : List ScopedDeclaration :=
  ((parse "jobs" ("enum State \x7b open done \x7d\n" ++
    "type Step \x7b state: State next: Step? \x7d\n" ++
    "entry Job \x7b steps: Step[] limit: integer | number? either: string | date \x7d\n" ++
    "validate Step \x7b self: required(next) \x7d\n" ++
    "validate Job \x7b steps: min_length(1), min_length(2) \x7d")).toOption.getD []).map
      (⟨some "work", 0, ·⟩)

/-- The contradiction is all that keeps these declarations from a document, and the union all
that keeps them from bindings in Rust. -/
theorem build_quarrelling :
    ∃ registry, build quarrelling = .ok registry ∧ registry.size = 3 ∧
      registry.Invariant quarrelling ∧
      (∃ owner field keyword location, JsonSchema.ofRegistry registry =
        .error (.conflictingConstraint owner field keyword location)) ∧
      (∃ construct location,
        Target.rust.generate registry = .error (.unsupported .rust construct location)) ∧
      ∃ text, Target.typeScript.generate registry = .ok text := by
  obtain ⟨registry, built, view⟩ := Outcome.ok_of_view
    (show (build quarrelling).toOption.map (fun registry =>
        (registry.size, (JsonSchema.ofRegistry registry).toOption.isNone,
          (rust.generate registry).toOption.isNone,
          (typeScript.generate registry).toOption.isSome)) =
      some (3, true, true, true) by decide +kernel)
  simp only [Prod.mk.injEq] at view
  obtain ⟨three, noDocument, noRust, hasTypeScript⟩ := view
  obtain ⟨invariant, document, bindings⟩ := build_leaves_no_internal_fault built
  refine ⟨registry, built, three, invariant, ?_, ?_, ?_⟩
  · refine document.resolve_left ?_
    rintro ⟨_, done⟩
    rw [done] at noDocument
    cases noDocument
  · refine (bindings .rust).resolve_left ?_
    rintro ⟨_, done⟩
    rw [done] at noRust
    cases noRust
  · exact Outcome.ok_of_isSome hasTypeScript

end Registry

end SchemaLang
