import SchemaLang.Proofs.Bindings.Emission
import SchemaLang.Proofs.JsonSchema.Relabelling
import SchemaLang.Proofs.Registry.Reachability

/-!
# Bindings do not depend on locations

Bindings are written from names, types and the order of the definitions. A location goes into an
error only, where two identifiers fall together or a union has no form. So a registry whose
locations are changed, and whose numbers are kept, has the same bindings, or fails with the same
error at the changed location.

Writing Rust bindings makes progress also where it fails, and it is the same progress.
-/

namespace SchemaLang

open List Relabelling Definition

variable {ρ : Relabelling}

namespace FieldType

/-- A type whose references are not changed stays as it is. -/
theorem map_id (type : FieldType Nat) : type.map id = type := by
  induction type with
  | primitive _ | reference _ | range _ _ _ => rfl
  | array item ih | optional item ih => rw [map, ih]
  | union arms each => rw [map, mapAll_eq_map, map_congr_left each, map_id']

end FieldType

/-- A type holds no locations, so with its numbers kept it is kept. -/
theorem DefinedField.relabel_type (fixed : ρ.number = id) (field : DefinedField) :
    (field.relabel ρ).type = field.type := by
  rw [DefinedField.relabel, fixed]
  exact FieldType.map_id field.type

/-! ## Reachability -/

namespace Registry

/-- Numbers are places in the list, where the changed definition stands now. -/
theorem get?_relabel (reg : Registry) (id : Nat) :
    (reg.relabel ρ).get? id = (reg.get? id).map (Definition.relabel ρ) :=
  getElem?_map

variable (fixed : ρ.number = id)
include fixed

variable (reg : Registry)

/-- What a definition holds by value is read off the types of its fields, which are kept. -/
theorem heldByValue_relabel : (reg.relabel ρ).heldByValue = reg.heldByValue := by
  funext place
  unfold heldByValue
  rw [get?_relabel]
  cases reg.get? place with
  | none => rfl
  | some defn =>
    dsimp only [Option.map_some]
    rw [relabel_fields, flatMap_map]
    simp only [DefinedField.relabel_type fixed]

/-- So the relation between definitions is kept. -/
theorem holdsByValue_relabel : (reg.relabel ρ).HoldsByValue = reg.HoldsByValue := by
  funext owner held
  rw [← propext mem_heldByValue, ← propext mem_heldByValue, heldByValue_relabel fixed]

/-- Reachability follows this relation, so it is kept as well. The Rust bindings ask for it where
they decide on boxes. -/
theorem reaches_relabel (source target : Nat) :
    (reg.relabel ρ).reaches source target = reg.reaches source target := by
  rw [Bool.eq_iff_iff, reaches_iff, reaches_iff, holdsByValue_relabel fixed]

end Registry

/-! ## Identifiers -/

/-- An identifier is made of the name alone. -/
theorem Definition.relabel_identifier (defn : Definition) :
    (defn.relabel ρ).identifier = defn.identifier := rfl

namespace Target

/-- Fields are compared by their names, so the same two clash, and the error moves along with the
later one. -/
theorem checkFields_relabel (target : Target) (defn : Definition)
    (earlier fields : List DefinedField) :
    target.checkFields (defn.relabel ρ) (earlier.map (DefinedField.relabel ρ))
        (fields.map (DefinedField.relabel ρ)) =
      ρ.outcome id (target.checkFields defn earlier fields) := by
  induction fields generalizing earlier with
  | nil => rfl
  | cons field fields ih =>
    have sameClash : ((earlier.map (DefinedField.relabel ρ)).find? fun other =>
          target.fieldIdentifier other.name = target.fieldIdentifier (field.relabel ρ).name) =
        (earlier.find? fun other =>
          target.fieldIdentifier other.name = target.fieldIdentifier field.name).map
          (DefinedField.relabel ρ) := by
      rw [find?_map]
      rfl
    have grown : earlier.map (DefinedField.relabel ρ) ++ [field.relabel ρ] =
        (earlier ++ [field]).map (DefinedField.relabel ρ) := by
      rw [map_append, map_singleton]
    rw [map_cons, checkFields, checkFields, sameClash, grown, ih]
    cases earlier.find? fun other =>
      target.fieldIdentifier other.name = target.fieldIdentifier field.name <;> rfl

/-- The same holds of definitions, each of which is checked with its fields. The first clash decides
on both sides. -/
theorem checkDefinitions_relabel (target : Target) (earlier defns : List Definition) :
    target.checkDefinitions (earlier.map (relabel ρ))
        (defns.map (relabel ρ)) =
      ρ.outcome id (target.checkDefinitions earlier defns) := by
  induction defns generalizing earlier with
  | nil => rfl
  | cons defn defns ih =>
    have sameClash : ((earlier.map (relabel ρ)).find? fun other =>
          other.identifier = (defn.relabel ρ).identifier) =
        (earlier.find? fun other => other.identifier = defn.identifier).map
          (relabel ρ) := by
      rw [find?_map]
      refine congrArg (fun clashes => (earlier.find? clashes).map _) (funext fun other => ?_)
      rw [Function.comp_apply, decide_eq_decide, relabel_identifier, relabel_identifier]
    have grown : earlier.map (relabel ρ) ++ [defn.relabel ρ] =
        (earlier ++ [defn]).map (relabel ρ) := by
      rw [map_append, map_singleton]
    have fields : target.checkFields (defn.relabel ρ) [] (defn.relabel ρ).fields =
        ρ.outcome id (target.checkFields defn [] defn.fields) := by
      rw [relabel_fields]
      exact checkFields_relabel target defn [] defn.fields
    rw [map_cons, checkDefinitions, checkDefinitions, sameClash, fields, grown, ih]
    cases earlier.find? fun other => other.identifier = defn.identifier with
    | some previous => rfl
    | none => cases target.checkFields defn [] defn.fields <;> rfl

end Target

/-! ## TypeScript -/

namespace TypeScriptBindings

variable (fixed : ρ.number = id)
include fixed

variable (reg : Registry)

/-- A type is written from the names of the definitions that it refers to. -/
theorem ofType_relabel (type : FieldType Nat) :
    ofType (reg.relabel ρ) type = ρ.outcome id (ofType reg type) := by
  induction type with
  | primitive _ | range _ _ _ => rfl
  | reference target =>
    rw [ofType, ofType, Registry.get?_relabel]
    cases reg.get? target with
    | none => simp [outcome, Error.relabel, InternalFault.relabel, fixed]
    | some defn => rfl
  | array item ih | optional item ih =>
    rw [ofType, ofType, ih]
    exact outcome_map fun _ => rfl
  | union arms each =>
    have others : (arms.map id).mapM (ofType (reg.relabel ρ)) = _ := outcome_mapM_values each
    rw [map_id] at others
    rw [ofType, ofType, ofArms_eq_mapM, ofArms_eq_mapM, others]
    exact outcome_map fun _ => rfl

/-- A field is written from its name and its type. -/
theorem ofField_relabel (field : DefinedField) :
    ofField (reg.relabel ρ) (field.relabel ρ) = ρ.outcome id (ofField reg field) := by
  unfold ofField
  rw [DefinedField.isOptional, DefinedField.relabel_type fixed, ofType_relabel fixed]
  exact outcome_bind fun _ => rfl

/-- An interface is written from the lines of its fields, and an enum from its members. -/
theorem ofDefinition_relabel (defn : Definition) :
    ofDefinition (reg.relabel ρ) (defn.relabel ρ) = ρ.outcome id (ofDefinition reg defn) := by
  obtain ⟨name, scope?, location, body⟩ := defn
  cases body with
  | enumeration members => rfl
  | record content =>
    have lines : (content.relabel ρ).fields.mapM (ofField (reg.relabel ρ)) =
        ρ.outcome id (content.fields.mapM (ofField reg)) :=
      outcome_mapM_values fun field _ => ofField_relabel fixed reg field
    show ((content.relabel ρ).fields.mapM (ofField (reg.relabel ρ)) >>= _) =
      ρ.outcome _ (content.fields.mapM (ofField reg) >>= _)
    rw [lines]
    exact outcome_bind fun _ => rfl

/-- All TypeScript definitions are written alike, one by one. -/
theorem generate_relabel : generate (reg.relabel ρ) = ρ.outcome id (generate reg) :=
  outcome_mapM_values fun defn _ => ofDefinition_relabel fixed reg defn

end TypeScriptBindings

/-! ## Rust -/

def FieldContext.relabel (ρ : Relabelling) (context : FieldContext) : FieldContext :=
  ⟨context.registry.relabel ρ, context.ownerId, context.owner.relabel ρ, context.field.relabel ρ⟩

/-- A field finds the changed definition at a number, or the same fault. -/
theorem FieldContext.definition_relabel (fixed : ρ.number = id) (ctx : FieldContext)
    (place : Nat) :
    (ctx.relabel ρ).definition place = ρ.outcome (Definition.relabel ρ) (ctx.definition place) := by
  unfold FieldContext.definition
  rw [show (ctx.relabel ρ).registry = ctx.registry.relabel ρ from rfl, Registry.get?_relabel]
  cases ctx.registry.get? place with
  | none => simp [outcome, Error.relabel, InternalFault.relabel, fixed]
  | some defn => rfl

namespace RustBindings

variable {α β : Type} (ρ) in
/-- Two emissions make the same progress and end in the same value, or in an error and the same
error changed. -/
def Emission.Tracks (emission other : Emission α) : Prop :=
  ∀ progress, other.outcome progress =
    (ρ.outcome id (emission.outcome progress).1, (emission.outcome progress).2)

namespace Emission

/-- Emissions that track each other, one after the other: the second pair starts from the progress
that the first has made. -/
theorem Tracks.bind {emission other : Emission α} {next nextOther : α → Emission β}
    (first : Tracks ρ emission other)
    (continues : ∀ value, Tracks ρ (next value) (nextOther value)) :
    Tracks ρ (emission >>= next) (other >>= nextOther) := by
  intro progress
  rw [outcome_bind, outcome_bind, first progress]
  cases outcome emission progress with
  | mk ended middle =>
    cases ended with
    | error fault => rfl
    | ok value => exact continues value middle

/-- Looking at the progress, which is the same. -/
theorem tracks_get : Tracks ρ (get : Emission Progress) get := fun _ => rfl

/-- Replacing the progress by the same one. -/
theorem tracks_set (made : Progress) : Tracks ρ (set made : Emission PUnit) (set made) :=
  fun _ => rfl

/-- A value without a location is kept. -/
theorem tracks_pure (value : α) : Tracks ρ (pure value) (pure value) := fun _ => rfl

/-- An error is thrown with its locations changed. -/
theorem tracks_throw (fault : Error) :
    Tracks ρ (throw fault : Emission α) (throw (fault.relabel ρ)) := fun _ => rfl

/-- A step that makes no progress tracks if its outcome commutes with the change. -/
theorem tracks_liftExcept {ended other : Except Error α}
    (commutes : other = ρ.outcome id ended) :
    Tracks ρ (liftExcept ended) (liftExcept other) := by
  intro progress
  rw [outcome_liftExcept, outcome_liftExcept, commutes]

/-- Emissions over a list track if they do at every item, since each starts where the one before has
ended. -/
theorem Tracks.mapM {γ : Type} {change : α → γ} {step : α → Emission β} {other : γ → Emission β}
    {items : List α} (each : ∀ item ∈ items, Tracks ρ (step item) (other (change item))) :
    Tracks ρ (items.mapM step) ((items.map change).mapM other) := by
  induction items with
  | nil => exact tracks_pure []
  | cons item rest ih =>
    rw [map_cons, mapM_cons, mapM_cons]
    refine (each item mem_cons_self).bind fun result => ?_
    refine (ih fun later member => ?_).bind fun results => tracks_pure _
    exact each later (mem_cons_of_mem item member)

end Emission

open Emission

variable (fixed : ρ.number = id)
include fixed

/-- A reference is written from a name, and boxed by reachability. -/
theorem ofReference_relabel (ctx : FieldContext) (insideVector : Bool) (place : Nat) :
    ofReference (ctx.relabel ρ) insideVector place =
      ρ.outcome id (ofReference ctx insideVector place) := by
  unfold ofReference
  rw [FieldContext.definition_relabel fixed,
    show (ctx.relabel ρ).registry.reaches place (ctx.relabel ρ).ownerId =
      ctx.registry.reaches place ctx.ownerId from
        Registry.reaches_relabel fixed ctx.registry place ctx.ownerId]
  refine outcome_bind fun defn => ?_
  split <;> rfl

/-- A variant is called after the type of its arm. -/
theorem variantName_relabel (ctx : FieldContext) (type : FieldType Nat) :
    variantName (ctx.relabel ρ) type = ρ.outcome id (variantName ctx type) := by
  match type with
  | .primitive _ | .range _ _ _ | .union _ => rfl
  | .reference target =>
    rw [variantName, variantName, FieldContext.definition_relabel fixed]
    exact outcome_map fun _ => rfl
  | .array item =>
    rw [variantName, variantName, variantName_relabel ctx item]
    exact outcome_map fun _ => rfl
  | .optional inner => rw [variantName, variantName, variantName_relabel ctx inner]

omit fixed in
/-- The name of a union is compared with identifiers only; the errors say where its field stands. -/
theorem freeUnionName_relabel (ctx : FieldContext) :
    Tracks ρ (freeUnionName ctx) (freeUnionName (ctx.relabel ρ)) := by
  have sameName : unionName (ctx.relabel ρ) = unionName ctx := rfl
  have sameNames : ((ctx.relabel ρ).registry.definitions.any fun other =>
        other.identifier = unionName (ctx.relabel ρ)) =
      ctx.registry.definitions.any fun other => other.identifier = unionName ctx := by
    show (ctx.registry.definitions.map (relabel ρ)).any _ = _
    rw [any_map, sameName]
    refine congrArg ctx.registry.definitions.any (funext fun other => ?_)
    rw [Function.comp_apply, decide_eq_decide, relabel_identifier]
  unfold freeUnionName
  dsimp only
  rw [sameNames]
  refine tracks_get.bind fun progress => ?_
  rw [sameName]
  split_ifs
  · exact tracks_throw _
  · exact tracks_throw _
  · exact tracks_pure _

mutual

/-- A type is written alike at every depth. Its unions are added to the progress in the same order.
-/
theorem ofType_relabel (ctx : FieldContext) (insideVector : Bool) (type : FieldType Nat) :
    Tracks ρ (ofType ctx insideVector type) (ofType (ctx.relabel ρ) insideVector type) := by
  cases type with
  | primitive _ | range _ _ _ => exact tracks_pure _
  | reference target =>
    exact tracks_liftExcept (ofReference_relabel fixed ctx insideVector target)
  | array item =>
    unfold ofType
    exact (ofType_relabel ctx true item).bind fun text => tracks_pure _
  | optional inner =>
    unfold ofType
    exact (ofType_relabel ctx insideVector inner).bind fun text => tracks_pure _
  | union arms =>
    unfold ofType
    refine (freeUnionName_relabel ctx).bind fun name => ?_
    refine (ofArms_relabel ctx insideVector [] arms).bind fun variants => ?_
    have adds : Tracks ρ (addUnion name variants) (addUnion name variants) := fun _ => rfl
    exact adds.bind fun _ => tracks_pure _

/-- The arms of a union, each checked against the names of those before. -/
theorem ofArms_relabel (ctx : FieldContext) (insideVector : Bool)
    (earlier : List (String × String)) (arms : List (FieldType Nat)) :
    Tracks ρ (ofArms ctx insideVector earlier arms)
      (ofArms (ctx.relabel ρ) insideVector earlier arms) := by
  cases arms with
  | nil => exact tracks_pure _
  | cons arm arms =>
    unfold ofArms
    refine (tracks_liftExcept (variantName_relabel fixed ctx arm)).bind fun variant => ?_
    refine (ofType_relabel ctx insideVector arm).bind fun type => ?_
    split
    · exact tracks_throw _
    · exact ofArms_relabel ctx insideVector _ arms

end

/-- A field is written from its name and its type, which is kept. -/
theorem ofField_relabel (ctx : FieldContext) :
    Tracks ρ (ofField ctx) (ofField (ctx.relabel ρ)) := by
  unfold ofField
  rw [show (ctx.relabel ρ).field.type = ctx.field.type from
    DefinedField.relabel_type fixed ctx.field]
  exact (ofType_relabel fixed ctx false _).bind fun type => tracks_pure _

omit fixed in
/-- The members of an enum are compared by their identifiers. -/
theorem variantLines_relabel (defn : Definition) (earlier members : List String) :
    variantLines (defn.relabel ρ) earlier members =
      ρ.outcome id (variantLines defn earlier members) := by
  induction members generalizing earlier with
  | nil => rfl
  | cons member members ih =>
    rw [variantLines, variantLines, ih]
    split
    · rfl
    · exact outcome_map fun _ => rfl

variable (reg : Registry)

/-- A record is written field after field, and then come the unions that its fields have added. -/
theorem ofRecord_relabel (place : Nat) (defn : Definition) (content : RecordBody) :
    Tracks ρ (ofRecord reg place defn content)
      (ofRecord (reg.relabel ρ) place (defn.relabel ρ) (content.relabel ρ)) := by
  unfold ofRecord
  have fields : Tracks ρ
      (content.fields.mapM fun field => ofField ⟨reg, place, defn, field⟩)
      ((content.relabel ρ).fields.mapM fun field =>
        ofField ⟨reg.relabel ρ, place, defn.relabel ρ, field⟩) :=
    .mapM fun field _ => ofField_relabel fixed ⟨reg, place, defn, field⟩
  refine fields.bind fun lines => ?_
  refine tracks_get.bind fun progress => ?_
  exact (tracks_set _).bind fun _ => tracks_pure _

/-- Enums make no progress, and records make that of their fields. -/
theorem ofDefinition_relabel (place : Nat) (defn : Definition) :
    Tracks ρ (ofDefinition reg place defn)
      (ofDefinition (reg.relabel ρ) place (defn.relabel ρ)) := by
  obtain ⟨name, scope?, location, body⟩ := defn
  cases body with
  | enumeration members =>
    refine tracks_liftExcept ?_
    rw [ofEnum, ofEnum, variantLines_relabel]
    exact outcome_bind fun _ => rfl
  | record content => exact ofRecord_relabel fixed reg place _ content

/-- All Rust definitions are written alike: both runs start with nothing written, and the progress
stays the same from one definition to the next. -/
theorem generate_relabel : generate (reg.relabel ρ) = ρ.outcome id (generate reg) := by
  have numbered : (reg.relabel ρ).numbered =
      reg.numbered.map (Prod.map id (relabel ρ)) := reg.numbered_relabel
  have written : Tracks ρ
      (reg.numbered.mapM fun entry => ofDefinition reg entry.1 entry.2)
      ((reg.relabel ρ).numbered.mapM fun entry =>
        ofDefinition (reg.relabel ρ) entry.1 entry.2) := by
    rw [numbered]
    exact .mapM fun entry _ => ofDefinition_relabel fixed reg entry.1 entry.2
  exact congrArg Prod.fst (written {})

end RustBindings

/-! ## Targets -/

namespace Target

/-- Bindings for a target are checked first and then written, and both steps commute with the
change. -/
theorem generate_relabel (fixed : ρ.number = id) (reg : Registry) (target : Target) :
    target.generate (reg.relabel ρ) = ρ.outcome id (target.generate reg) := by
  have checked : target.checkIdentifiers (reg.relabel ρ) =
      ρ.outcome id (target.checkIdentifiers reg) :=
    checkDefinitions_relabel target [] reg.definitions
  have blocks : target.blocks (reg.relabel ρ) =
      ρ.outcome id (target.blocks reg) := by
    cases target with
    | rust => exact RustBindings.generate_relabel fixed reg
    | typeScript => exact TypeScriptBindings.generate_relabel fixed reg
  unfold generate
  rw [checked, blocks]
  exact outcome_bind fun _ => outcome_bind fun _ => rfl

/-- The bindings of a registry do not depend on its locations. -/
theorem generateAll_relabel (fixed : ρ.number = id) (targets : List Target) (reg : Registry) :
    generateAll targets (reg.relabel ρ) = ρ.outcome id (generateAll targets reg) := by
  have each : (targets.map id).mapM (fun target => do
        return (target, ← target.generate (reg.relabel ρ))) =
      ρ.outcome id
        (targets.mapM fun target => do return (target, ← target.generate reg)) := by
    refine outcome_mapM_values fun target _ => ?_
    rw [id, generate_relabel fixed reg target]
    exact outcome_bind fun _ => rfl
  rw [map_id] at each
  exact each

end Target

end SchemaLang
