import SchemaLang.Proofs.Bindings.RustListing
import SchemaLang.Proofs.Compilation.Faults
import SchemaLang.Proofs.Registry.Places

/-!
# Collisions in generated Rust

Names of the source are free of the rules of Rust, so different ones may fall together when they
are written as identifiers. Bindings exist exactly if this happens nowhere: not between
definitions, not between the fields of a record or the members of an enum, not between the choices
on fields and the definitions, and not between the arms of a choice.

The checks before writing and each step of writing decide a part of this. A step may also take a
name, and then the later steps cannot; so the run as a whole decides the sum of all parts.
-/

namespace SchemaLang

open Outcome Distinct List Registry Target Definition

/-- The members of an enum, and none of a record. -/
def Definition.members (definition : Definition) : List String :=
  match definition.body with
  | .enumeration members => members
  | .record _ => []

namespace Target

variable {target : Target}

/-- A target cannot express something of a definition, at a place of the definition. It is not
that unions are nested. -/
def Collides (target : Target) (definition : Definition) (fault : Error) : Prop :=
  ∃ construct location, fault = .unsupported target construct location ∧
    construct ≠ .nestedUnion ∧ location ∈ definition.places

/-! ## Checked identifiers -/

/-- A fault says that two of some fields share an identifier. -/
def FieldsMeet (target : Target) (definition : Definition) (fields : List DefinedField)
    (fault : Error) : Prop :=
  ∃ first second, [first, second] <+ fields ∧
    target.fieldIdentifier first.name = target.fieldIdentifier second.name ∧
    fault = .unsupported target (.fields first.name second.name definition.name
      (target.fieldIdentifier second.name)) second.location

/-- A fault says that two definitions share an identifier, or two fields of one do. -/
def IdentifiersMeet (target : Target) (definitions : List Definition) (fault : Error) : Prop :=
  (∃ first second, [first, second] <+ definitions ∧ first.identifier = second.identifier ∧
    fault = .unsupported target (.declarations first.name second.name second.identifier)
      second.location) ∨
  ∃ definition ∈ definitions, target.FieldsMeet definition definition.fields fault

variable {definitions defns : List Definition}

theorem IdentifiersMeet.collides {fault : Error} (meet : target.IdentifiersMeet defns fault) :
    ∃ defn ∈ defns, target.Collides defn fault := by
  rcases meet with ⟨first, second, inOrder, _, rfl⟩ |
    ⟨defn, member, first, second, inOrder, _, rfl⟩
  · exact ⟨second, inOrder.subset (by simp), _, _, rfl, by simp, mem_cons_self⟩
  · exact ⟨defn, member, _, _, rfl, by simp, defn.places_field (inOrder.subset (by simp))⟩

theorem checkFields_decides (defn : Definition) {earlier fields : List DefinedField}
    (distinct : (earlier.map fun field => target.fieldIdentifier field.name).Nodup) :
    Decides ((earlier ++ fields).map fun field => target.fieldIdentifier field.name).Nodup
      (target.FieldsMeet defn (earlier ++ fields))
      (target.checkFields defn earlier fields) := by
  induction fields generalizing earlier with
  | nil => exact .inl ⟨by rwa [append_nil], (), rfl⟩
  | cons field fields ih =>
    rw [checkFields]
    split
    · rename_i previous found
      exact .inr ⟨not_nodup_of_found found, _, rfl, previous, field, sublist_of_found found,
        by simpa using find?_some found, rfl⟩
    · rename_i isNew
      rw [append_cons]
      exact ih (nodup_map_concat distinct (by simpa using isNew))

theorem checkDefinitions_decides {earlier : List Definition}
    (distinct : (earlier.map identifier).Nodup) :
    Decides
      (((earlier ++ defns).map identifier).Nodup ∧
        ∀ defn ∈ defns,
          (defn.fields.map fun field => target.fieldIdentifier field.name).Nodup)
      (target.IdentifiersMeet (earlier ++ defns))
      (target.checkDefinitions earlier defns) := by
  induction defns generalizing earlier with
  | nil => exact .inl ⟨⟨by rwa [append_nil], by simp⟩, (), rfl⟩
  | cons defn defns ih =>
    rw [checkDefinitions]
    split
    · rename_i previous found
      exact .inr ⟨fun both => not_nodup_of_found found both.1, _, rfl, .inl ⟨previous, defn,
        sublist_of_found found, by simpa using find?_some found, rfl⟩⟩
    · rename_i isNew
      have fieldwise : Decides _ _ (target.checkFields defn [] defn.fields) :=
        checkFields_decides defn nodup_nil
      have later := ih (nodup_map_concat distinct (by simpa using isNew))
      rw [forall_mem_cons]
      rcases fieldwise with ⟨differ, ⟨⟩, checked⟩ | ⟨meet, fault, failed, fieldsMeet⟩
      · rw [checked, append_cons]
        refine later.imp ⟨fun both => ⟨both.1, differ, both.2⟩, fun both => ⟨both.1, both.2.2⟩⟩ ?_
        exact fun _ identifiersMeet => identifiersMeet
      · rw [failed]
        exact .inr ⟨fun both => meet both.2.1, fault, rfl, .inr ⟨defn, by simp, fieldsMeet⟩⟩

/-- The check of a registry decides whether its identifiers differ. -/
theorem checkIdentifiers_decides (target : Target) (reg : Registry) :
    Decides
      ((reg.definitions.map identifier).Nodup ∧
        ∀ defn ∈ reg.definitions,
          (defn.fields.map fun field => target.fieldIdentifier field.name).Nodup)
      (target.IdentifiersMeet reg.definitions) (target.checkIdentifiers reg) := by
  have noneBefore : (([] : List Definition).map identifier).Nodup := nodup_nil
  exact checkDefinitions_decides noneBefore

end Target

variable {arms : List (FieldType Nat)}

namespace RustBindings

open Emission

variable {ctx : FieldContext}

/-! ## Choices -/

/-- The variants of a choice differ in their names, and in what they hold. -/
def DistinctVariants (variants : List (String × String)) : Prop :=
  (variants.map Prod.fst).Nodup ∧ (variants.map Prod.snd).Nodup

instance (variants : List (String × String)) : Decidable (DistinctVariants variants) :=
  inferInstanceAs (Decidable (_ ∧ _))

variable {earlier : List (String × String)} {variant : String × String}

theorem DistinctVariants.concat (distinct : DistinctVariants earlier)
    (isNew : earlier.find? (fun other => other.1 = variant.1 || other.2 = variant.2) = none) :
    DistinctVariants (earlier ++ [variant]) := by
  simp only [find?_eq_none, Bool.or_eq_true, decide_eq_true_eq, not_or] at isNew
  constructor
  · refine nodup_map_concat distinct.1 fun used => ?_
    obtain ⟨other, listed, same⟩ := mem_map.mp used
    exact (isNew other listed).1 same
  · refine nodup_map_concat distinct.2 fun used => ?_
    obtain ⟨other, listed, same⟩ := mem_map.mp used
    exact (isNew other listed).2 same

/-- A variant with the name or the type of an earlier one does not differ from all of them. -/
theorem not_distinct_of_found {rest : List (String × String)} {existing : String × String}
    (found : earlier.find? (fun other => other.1 = variant.1 || other.2 = variant.2) = some
      existing) : ¬ DistinctVariants (earlier ++ variant :: rest) := by
  rintro ⟨names, types⟩
  rw [map_append, map_cons] at names types
  have listed := mem_of_find?_eq_some found
  have same : existing.1 = variant.1 ∨ existing.2 = variant.2 := by
    simpa using find?_some found
  rcases same with sameName | sameType
  · exact (nodup_append.mp names).2.2 _ (mem_map_of_mem listed) _ mem_cons_self
      sameName
  · exact (nodup_append.mp types).2.2 _ (mem_map_of_mem listed) _ mem_cons_self
      sameType

/-- A covered arm has a variant. -/
theorem variantName_of_isArm {arm : FieldType Nat} (isArm : arm.IsArm)
    (covers : ctx.registry.Covers arm) :
    variantName ctx arm = .ok (RustType.variant ctx arm) := by
  have named : ∃ name, variantName ctx arm = .ok name := by
    match arm with
    | .primitive _ | .range _ _ _ => exact ⟨_, rfl⟩
    | .reference id =>
      obtain ⟨defn, found⟩ := definition_ok_of_covers covers
      exact ⟨_, by rw [variantName, found]; rfl⟩
    | .array item =>
      rw [FieldType.IsArm] at isArm
      exact ⟨_, by rw [variantName, variantName_of_isArm isArm covers.item]; rfl⟩
    | .optional _ | .union _ => cases isArm
  obtain ⟨name, done⟩ := named
  rw [RustType.variant, done]
  rfl

/-- A covered arm has a type, and writing it uses nothing. -/
theorem ofType_of_covered {arm : FieldType Nat} (isArm : arm.IsArm)
    (covers : ctx.registry.Covers arm) (insideVector : Bool) (progress : Progress) :
    outcome (ofType ctx insideVector arm) progress =
      (.ok ((RustType.ofFieldType ctx insideVector arm).text ctx), progress) := by
  have written : ∃ text made,
      outcome (ofType ctx insideVector arm) progress = (.ok text, made) := by
    match arm with
    | .primitive _ | .range _ _ _ => exact ⟨_, _, rfl⟩
    | .reference id =>
      obtain ⟨defn, found⟩ := definition_ok_of_covers covers
      have referred : ∃ text, ofReference ctx insideVector id = .ok text := by
        rw [ofReference, found]
        exact ⟨_, (apply_ite _ _ _ _).symm⟩
      obtain ⟨text, done⟩ := referred
      exact ⟨text, progress, by rw [ofType, outcome_liftExcept, done]⟩
    | .array item =>
      rw [FieldType.IsArm] at isArm
      exact ⟨_, _, by rw [ofType, outcome_bind, ofType_of_covered isArm covers.item]; rfl⟩
    | .optional _ | .union _ => cases isArm
  obtain ⟨text, made, done⟩ := written
  have flat := unionCount_of_variantName (variantName_of_isArm isArm covers)
  have unchanged : (outcome (ofType ctx insideVector arm) progress).2 = progress :=
    ofType_of_flat flat insideVector progress
  rw [done] at unchanged
  rw [done, (ofType_ok done).1, show made = progress from unchanged]

/-- What a field needs cannot be had, at the field. -/
theorem unsupported_collides (isField : ctx.field ∈ ctx.owner.fields)
    {construct : Construct} (flat : construct ≠ .nestedUnion) :
    rust.Collides ctx.owner (unsupported ctx construct) :=
  ⟨construct, ctx.field.location, rfl, flat, ctx.owner.places_field isField⟩

/-- Writing the arms of a choice decides whether their variants differ. -/
theorem ofArms_takes (isField : ctx.field ∈ ctx.owner.fields)
    (areArms : ∀ arm ∈ arms, arm.IsArm) (covers : ∀ arm ∈ arms, ctx.registry.Covers arm)
    (distinct : DistinctVariants earlier) :
    Takes (DistinctVariants (earlier ++ variantsOf ctx arms)) []
      (rust.Collides ctx.owner) (ofArms ctx false earlier arms) := by
  induction arms generalizing earlier with
  | nil =>
    refine (Takes.pure earlier).imp ⟨fun _ => ?_, fun _ => trivial⟩ fun _ collides => collides
    rwa [variantsOf, map_nil, append_nil]
  | cons arm arms ih =>
    obtain ⟨isArm, othersAre⟩ := forall_mem_cons.mp areArms
    obtain ⟨coversArm, coversOthers⟩ := forall_mem_cons.mp covers
    intro progress unused
    rw [ofArms, variantName_of_isArm isArm coversArm, outcome_bind, outcome_liftExcept]
    dsimp only
    rw [outcome_bind, ofType_of_covered isArm coversArm]
    dsimp only
    rw [variantsOf, map_cons]
    split
    · rename_i found
      exact .inr ⟨fun both => not_distinct_of_found found both.1, _, _, rfl,
        unsupported_collides isField (by simp)⟩
    · rename_i isNew
      rw [append_cons]
      exact ih othersAre coversOthers (distinct.concat isNew) progress unused

/-- Writing a choice takes its name. -/
theorem union_takes (isField : ctx.field ∈ ctx.owner.fields)
    (areArms : ∀ arm ∈ arms, arm.IsArm) (covers : ∀ arm ∈ arms, ctx.registry.Covers arm) :
    Takes (unionName ctx ∉ ctx.registry.definitions.map identifier ∧
        DistinctVariants (variantsOf ctx arms)) [unionName ctx]
      (rust.Collides ctx.owner) (ofType ctx false (.union arms)) := by
  intro progress unused
  have nothing : DistinctVariants [] := ⟨nodup_nil, nodup_nil⟩
  rw [ofType, outcome_bind]
  rcases freeUnionName_cases ctx progress with
    ⟨isNew, isUndeclared, named⟩ | ⟨isTaken, construct, stopped, flat⟩
  · rw [named]
    dsimp only
    rw [outcome_bind]
    rcases ofArms_takes isField areArms covers nothing progress unused with
      ⟨differ, _, variants, made, written, uses⟩ | ⟨meet, fault, made, stopped, collides⟩
    · rw [written]
      refine .inl ⟨⟨isUndeclared, differ⟩, ?_, _, _, rfl, ?_⟩
      · exact concat_eq_append ▸ unused.concat isNew
      · rw [append_nil] at uses
        show made.unionNames ++ [unionName ctx] = _
        rw [uses]
    · rw [stopped]
      refine .inr ⟨fun both => meet ⟨both.1.2, ?_⟩, fault, made, rfl, collides⟩
      rwa [append_nil]
  · rw [stopped]
    refine .inr ⟨fun both => ?_, _, _, rfl, unsupported_collides isField flat⟩
    rcases isTaken with isUsed | isDeclared
    · exact (nodup_append.mp both.2).2.2 _ isUsed _ mem_cons_self rfl
    · exact both.1.1 isDeclared

/-! ## Fields and definitions -/

/-- The arms of the choice on a field. -/
def armsOf (field : DefinedField) : List (FieldType Nat) :=
  match field.type.required with
  | .union arms => arms
  | _ => []

/-- The name of the choice on a field, if there is one. -/
def choiceName (definition : Definition) (field : DefinedField) : List String :=
  match field.type.required with
  | .union _ => [definition.identifier ++ Text.pascalCase field.name]
  | _ => []

/-- The names of the choices on the fields of a definition. -/
def choiceNames (definition : Definition) : List String :=
  definition.fields.flatMap (choiceName definition)

theorem choice_of_isArm (isArm : ctx.field.type.required.IsArm) :
    choiceName ctx.owner ctx.field = [] ∧ armsOf ctx.field = [] := by
  unfold choiceName armsOf
  cases required : ctx.field.type.required with
  | union arms =>
    rw [required] at isArm
    cases isArm
  | _ => exact ⟨rfl, rfl⟩

/-- The choice on a field has a name that no definition has, and its variants differ. -/
def Fits (context : FieldContext) : Prop :=
  (∀ name ∈ choiceName context.owner context.field,
    name ∉ context.registry.definitions.map identifier) ∧
  DistinctVariants (variantsOf context (armsOf context.field))

/-- Writing a field takes the name of the choice on it. -/
theorem ofField_takes (isField : ctx.field ∈ ctx.owner.fields)
    (isOfField : ctx.field.type.IsOfField)
    (covers : ctx.registry.Covers ctx.field.type) :
    Takes (Fits ctx) (choiceName ctx.owner ctx.field)
      (rust.Collides ctx.owner) (ofField ctx) := by
  have needed : Takes (Fits ctx) (choiceName ctx.owner ctx.field)
      (rust.Collides ctx.owner) (ofType ctx false ctx.field.type.required) := by
    unfold Fits
    rcases isOfField.required with ⟨arms, isUnion, areArms⟩ | isArm
    · have coversArms := covers.required
      rw [isUnion] at coversArms
      rw [choiceName, armsOf, isUnion, forall_mem_singleton]
      exact union_takes isField areArms coversArms.arms
    · obtain ⟨unnamed, noArms⟩ := choice_of_isArm isArm
      rw [unnamed, noArms]
      intro progress unused
      exact .inl ⟨⟨nofun, nodup_nil, nodup_nil⟩, by rwa [append_nil], _, _,
        ofType_of_covered isArm covers.required false progress, (append_nil _).symm⟩
  have typed : Takes (Fits ctx) (choiceName ctx.owner ctx.field)
      (rust.Collides ctx.owner) (ofType ctx false ctx.field.type) := by
    cases isType : ctx.field.type with
    | optional inner =>
      rw [isType] at needed
      exact needed.map fun text => "Option<" ++ text ++ ">"
    | _ => rwa [isType] at needed
  exact typed.map _

/-- Writing the members of an enum decides whether their identifiers differ. -/
theorem variantLines_decides (defn : Definition) {earlier members : List String}
    (distinct : earlier.Nodup) :
    Decides (earlier ++ members.map memberIdentifier).Nodup
      (rust.Collides defn) (variantLines defn earlier members) := by
  induction members generalizing earlier with
  | nil => exact .inl ⟨by simpa using distinct, [], rfl⟩
  | cons member members ih =>
    rw [variantLines, map_cons]
    split
    · rename_i isOld
      refine .inr ⟨fun nodup => ?_, _, rfl, _, _, rfl, by simp, mem_cons_self⟩
      have listed : memberIdentifier member ∈ earlier := by simpa [memberIdentifier] using isOld
      exact (nodup_append.mp nodup).2.2 _ listed _ mem_cons_self rfl
    · rename_i isOld
      have isNew : memberIdentifier member ∉ earlier := by simpa [memberIdentifier] using isOld
      rw [append_cons]
      exact (ih (concat_eq_append ▸ distinct.concat isNew)).map

variable {registry reg : Registry} {definition defn : Definition}

/-- Writing a definition decides whether the members of an enum differ and the choices on the
fields of a record fit, and takes the names of the choices. -/
theorem ofDefinition_takes {id : Nat} (shaped : ∀ field ∈ defn.fields, field.type.IsOfField)
    (covers : ∀ field ∈ defn.fields, reg.Covers field.type) :
    Takes ((defn.members.map memberIdentifier).Nodup ∧
        ∀ field ∈ defn.fields, Fits ⟨reg, id, defn, field⟩)
      (choiceNames defn) (rust.Collides defn)
      (ofDefinition reg id defn) := by
  have fieldwise : Takes (∀ field ∈ defn.fields, Fits ⟨reg, id, defn, field⟩)
      (choiceNames defn) (rust.Collides defn)
      (defn.fields.mapM fun field => ofField ⟨reg, id, defn, field⟩) := by
    refine .mapM fun field isField => ?_
    exact ofField_takes isField (shaped field isField) (covers field isField)
  unfold ofDefinition
  cases body : defn.body with
  | enumeration members =>
    have noFields : defn.fields = [] := by rw [fields, body]
    have isMembers : defn.members = members := by rw [Definition.members, body]
    rw [choiceNames, noFields, isMembers]
    have lined : Decides ([] ++ members.map memberIdentifier).Nodup
        (rust.Collides defn) (variantLines defn [] members) :=
      variantLines_decides defn nodup_nil
    exact (Takes.liftExcept lined.map).imp (by simp) fun _ collides => collides
  | record content =>
    have isFields : defn.fields = content.fields := by rw [fields, body]
    have noMembers : defn.members = [] := by rw [members, body]
    rw [isFields] at fieldwise
    have written : Takes _ _ _ (ofRecord reg id defn content) :=
      fieldwise.bind fun lines progress unused =>
        .inl ⟨trivial, by rwa [append_nil], _, _, rfl, (append_nil _).symm⟩
    rw [append_nil] at written
    rw [noMembers, isFields]
    exact written.imp (by simp) fun _ collides => collides

/-! ## The whole file -/

/-- No names of a registry fall together in Rust. -/
@[mk_iff] structure CollisionFree (registry : Registry) : Prop where
  /-- The definitions have different identifiers. -/
  definitions : (registry.definitions.map identifier).Nodup
  /-- So have the fields of each record, -/
  fields : ∀ definition ∈ registry.definitions,
    (definition.fields.map fun field => avoidKeyword (Text.snakeCase field.name)).Nodup
  /-- and the members of each enum. -/
  members : ∀ definition ∈ registry.definitions,
    (definition.members.map fun member => avoidKeyword (Text.pascalCase member)).Nodup
  /-- The choices on fields have different names, -/
  choices : (registry.definitions.flatMap choiceNames).Nodup
  /-- which no definition has. -/
  undeclared : ∀ name ∈ registry.definitions.flatMap choiceNames,
    name ∉ registry.definitions.map identifier
  /-- The arms of each choice have different variants and different types. -/
  arms : ∀ numbered ∈ registry.numbered, ∀ field ∈ numbered.2.fields,
    DistinctVariants (variantsOf ⟨registry, numbered.1, numbered.2, field⟩ (armsOf field))

instance (registry : Registry) : Decidable (CollisionFree registry) :=
  decidable_of_iff _ (collisionFree_iff registry).symm

/-- The blocks are there exactly if nothing collides inside the definitions and between the
choices. -/
theorem generate_decides (linked : reg.Linked) (shaped : reg.Shaped) :
    Decides
      ((∀ numbered ∈ reg.numbered, (numbered.2.members.map memberIdentifier).Nodup ∧
        ∀ field ∈ numbered.2.fields, Fits ⟨reg, numbered.1, numbered.2, field⟩) ∧
        (reg.definitions.flatMap choiceNames).Nodup)
      (fun fault => ∃ defn ∈ reg.definitions, rust.Collides defn fault)
      (generate reg) := by
  have run : Takes (∀ numbered ∈ reg.numbered,
        (numbered.2.members.map memberIdentifier).Nodup ∧
          ∀ field ∈ numbered.2.fields, Fits ⟨reg, numbered.1, numbered.2, field⟩)
      (reg.numbered.flatMap fun numbered => choiceNames numbered.2)
      (fun fault => ∃ defn ∈ reg.definitions, rust.Collides defn fault)
      (reg.numbered.mapM fun numbered => ofDefinition reg numbered.1 numbered.2) := by
    refine .mapM fun numbered member => ?_
    have isDefined := mem_of_numbered member
    refine (ofDefinition_takes (shaped.types _ isDefined) (linked _ isDefined)).imp Iff.rfl ?_
    exact fun fault collides => ⟨numbered.2, isDefined, collides⟩
  have sameNames : (reg.numbered.flatMap fun numbered => choiceNames numbered.2) =
      reg.definitions.flatMap choiceNames := by
    rw [← numbered_definitions reg, flatMap_map]
  rw [sameNames] at run
  rcases run {} nodup_nil with
    ⟨fits, distinct, blocks, made, written, _⟩ | ⟨meet, fault, made, stopped, collides⟩
  · exact .inl ⟨⟨fits, distinct⟩, blocks, congrArg Prod.fst written⟩
  · exact .inr ⟨meet, fault, congrArg Prod.fst stopped, collides⟩

theorem exists_numbered (member : defn ∈ reg.definitions) : ∃ id, (id, defn) ∈ reg.numbered := by
  obtain ⟨id, found⟩ := getElem?_of_mem member
  exact ⟨id, mem_numbered.mpr found⟩

/-- The conditions of the checks and of the run are those of the registry. -/
theorem conditions_iff (reg : Registry) :
    ((reg.definitions.map identifier).Nodup ∧
      ∀ defn ∈ reg.definitions,
        (defn.fields.map fun field => rust.fieldIdentifier field.name).Nodup) ∧
      (∀ numbered ∈ reg.numbered, (numbered.2.members.map memberIdentifier).Nodup ∧
        ∀ field ∈ numbered.2.fields, Fits ⟨reg, numbered.1, numbered.2, field⟩) ∧
      (reg.definitions.flatMap choiceNames).Nodup ↔ CollisionFree reg := by
  constructor
  · rintro ⟨⟨defns, fields⟩, inside, choices⟩
    refine ⟨defns, fields, ?_, choices, ?_, ?_⟩
    · intro defn member
      obtain ⟨id, numbered⟩ := exists_numbered member
      exact (inside _ numbered).1
    · intro name named
      obtain ⟨defn, member, listed⟩ := mem_flatMap.mp named
      obtain ⟨id, numbered⟩ := exists_numbered member
      obtain ⟨field, isField, isName⟩ := mem_flatMap.mp listed
      exact ((inside _ numbered).2 field isField).1 name isName
    · intro numbered member field isField
      exact ((inside numbered member).2 field isField).2
  · intro free
    refine ⟨⟨free.definitions, free.fields⟩, ?_, free.choices⟩
    intro numbered member
    have isDefined := mem_of_numbered member
    refine ⟨free.members _ isDefined, fun field isField => ⟨?_, free.arms _ member field isField⟩⟩
    intro name isName
    exact free.undeclared name
      (mem_flatMap.mpr ⟨_, isDefined, mem_flatMap.mpr ⟨field, isField, isName⟩⟩)

/-- Bindings are there exactly if nothing collides, and otherwise the fault stands at a place of a
definition. -/
theorem rust_decides (linked : reg.Linked) (shaped : reg.Shaped) :
    Decides (CollisionFree reg)
      (fun fault => ∃ defn ∈ reg.definitions, rust.Collides defn fault)
      (rust.generate reg) := by
  have whole : Decides _ _ (rust.generate reg) :=
    ((rust.checkIdentifiers_decides reg).imp Iff.rfl fun _ meet => meet.collides).bind
      fun _ => (generate_decides linked shaped).map
  exact whole.imp (conditions_iff reg) fun _ collides => collides

/-- Where there are bindings, nothing collides. -/
theorem collisionFree_of_generate (linked : reg.Linked) (shaped : reg.Shaped)
    {text : String} (generated : rust.generate reg = .ok text) :
    CollisionFree reg := (rust_decides linked shaped).ok_iff.mp ⟨text, generated⟩

/-- Bindings for the registry of an import closure are there if and only if no names fall together
in Rust. The fault otherwise is one that the target cannot express, but never a union inside a
union. -/
theorem rust_generated_iff_collision_free {context : ImportContext} {path : Path}
    {closure : Closure} (collected : context.closureOf path = .ok closure ∨
      ∃ text, context.closureOfText text path = .ok closure)
    (built : Registry.build closure.declarations = .ok registry) :
    ((∃ text, Target.rust.generate registry = .ok text) ↔ CollisionFree registry) ∧
      ∀ fault, Target.rust.generate registry = .error fault →
        ∃ construct location, fault = .unsupported .rust construct location ∧
          construct ≠ .nestedUnion := by
  obtain ⟨proper, shaped⟩ := sound_of_closure collected built
  have decides := rust_decides proper.linked shaped
  refine ⟨decides.ok_iff, fun fault failed => ?_⟩
  obtain ⟨_, _, construct, location, isFault, flat, _⟩ := decides.failsOnly fault failed
  exact ⟨construct, location, isFault, flat⟩

/-- Two choices on fields whose names meet although all others differ, in one of two modules. -/
def meetingNames : ImportContext where
  tree := ⟨[
    (["a.sdl"], .file (.text
      ("import \"./b\"\ntype Ab \x7b cD: string | integer of: Part[] \x7d\n" ++
        "type AbC \x7b d: date | number \x7d"))),
    (["b.sdl"], .file (.text "type Part \x7b either: Part[] | string ? in: boolean \x7d"))], []⟩
  root := ⟨"/"⟩
  entryFileName := "index.sdl"

/-- The imported module alone has bindings, and the module that imports it has none. -/
theorem meetingNames_collide :
    (∃ closure registry text, meetingNames.closureOf ⟨"/b.sdl"⟩ = .ok closure ∧
      Registry.build closure.declarations = .ok registry ∧ CollisionFree registry ∧
      Target.rust.generate registry = .ok text) ∧
    ∃ closure registry construct location, meetingNames.closureOf ⟨"/a.sdl"⟩ = .ok closure ∧
      Registry.build closure.declarations = .ok registry ∧ ¬ CollisionFree registry ∧
      Target.rust.generate registry = .error (.unsupported .rust construct location) ∧
      construct ≠ .nestedUnion := by
  constructor
  · obtain ⟨closure, collected, made⟩ := Outcome.ok_of_view
      (show (meetingNames.closureOf ⟨"/b.sdl"⟩).toOption.map (fun closure =>
          (build closure.declarations).toOption.map fun registry =>
            decide (CollisionFree registry)) = some (some true) by decide +kernel)
    obtain ⟨registry, built, isFree⟩ := Outcome.ok_of_view made
    have free := of_decide_eq_true isFree
    obtain ⟨text, generated⟩ :=
      (rust_generated_iff_collision_free (.inl collected) built).1.mpr free
    exact ⟨closure, registry, text, collected, built, free, generated⟩
  · obtain ⟨closure, collected, made⟩ := Outcome.ok_of_view
      (show (meetingNames.closureOf ⟨"/a.sdl"⟩).toOption.map (fun closure =>
          (build closure.declarations).toOption.map fun registry =>
            decide (CollisionFree registry)) = some (some false) by decide +kernel)
    obtain ⟨registry, built, isCrowded⟩ := Outcome.ok_of_view made
    have crowded := of_decide_eq_false isCrowded
    obtain ⟨exactly, flat⟩ := rust_generated_iff_collision_free (.inl collected) built
    cases generated : rust.generate registry with
    | ok text => exact absurd (exactly.mp ⟨text, generated⟩) crowded
    | error fault =>
      obtain ⟨construct, location, rfl, isFlat⟩ := flat fault generated
      exact ⟨closure, registry, construct, location, collected, built, crowded, generated, isFlat⟩

end RustBindings

end SchemaLang
