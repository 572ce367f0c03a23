import SchemaLang.Proofs.Compilation.Faults
import SchemaLang.Proofs.JsonSchema.Parts

/-!
# Merging constraints

The schema of a field is made of the members for its type and one keyword for each of its
constraints. They are added one after the other, and the first that meets another value under its
keyword ends the run. What comes of it does not depend on the order all the same: the run fails
exactly if some keyword is given two different values, whether by the type or by constraints, and
otherwise every keyword has the one value it was given. So constraints may be put in another order
or be stated again, and only the order of the members can change.

A reference is wrapped before anything is added to it. A field without constraints has nothing to
add, and its reference stays as it is.
-/

namespace SchemaLang

open Outcome List Json

/-! ## Values of constraints -/

theorem JsonNumber.identical_self_ofDouble {bound : Double} (isFinite : bound.isFinite = true) :
    (ofDouble bound).identical (ofDouble bound) = true := by
  unfold ofDouble
  split
  · simp [identical]
  · cases bound with
    | finite negative units => simp [identical, Double.same]
    | infinite _ | nan => cases isFinite

namespace Json

theorem identical_self_ofDouble (bound : Double) :
    (ofDouble bound).identical (.ofDouble bound) = true := by
  unfold ofDouble
  split
  · rename_i isFinite
    simpa [identical, agrees] using JsonNumber.identical_self_ofDouble isFinite
  · rfl

theorem identical_self_array {items : List Json}
    (each : ∀ item ∈ items, item.identical item = true) :
    (array items).identical (.array items) = true := by
  show agrees JsonNumber.identical (.array items) (.array items) = true
  rw [agrees]
  induction items with
  | nil => rfl
  | cons item items ih =>
    obtain ⟨here, there⟩ := forall_mem_cons.mp each
    rw [itemsAgree, ih there, Bool.and_true]
    exact here

end Json

variable {members : Members}

namespace JsonSchema

variable {registry reg : Registry} {owner : Definition} {field : DefinedField}

theorem ofConstraint_identical_self (isArray : Bool) (constraint : Constraint) :
    (ofConstraint isArray constraint).2.identical (ofConstraint isArray constraint).2 = true := by
  cases constraint with
  | pattern text => simp [ofConstraint, identical, agrees]
  | minLength _ | maxLength _ =>
    simp [ofConstraint, ofNat, identical, agrees, JsonNumber.identical]
  | oneOf values =>
    refine identical_self_array fun item member => ?_
    obtain ⟨literal, _, rfl⟩ := mem_map.mp member
    cases literal with
    | text value => simp [ofLiteral, identical, agrees]
    | number value => exact identical_self_ofDouble value
  | _ => exact identical_self_ofDouble _

/-! ## Adding one constraint after the other -/

/-- The members of a base and the keywords of constraints, one for each constraint. -/
def given (isArray : Bool) (constraints : List Constraint) (base : Members) : Members :=
  base ++ constraints.map (ofConstraint isArray)

/-- A keyword is given two different values. -/
def Contested (members : Members) (keyword : String) : Prop :=
  ∃ first second, (keyword, first) ∈ members ∧ (keyword, second) ∈ members ∧ first ≠ second

/-- Members with different names contest nothing. -/
theorem not_contested_of_distinct (distinct : (members.map Prod.fst).Nodup)
    (keyword : String) : ¬ Contested members keyword := by
  rintro ⟨first, second, isFirst, isSecond, differ⟩
  have found := lookup_of_mem distinct isFirst
  rw [lookup_of_mem distinct isSecond] at found
  exact differ (Option.some.inj found).symm

theorem Contested.of_mem_iff {others : Members} {keyword : String}
    (same : ∀ member, member ∈ members ↔ member ∈ others) (contested : Contested members keyword) :
    Contested others keyword := by
  obtain ⟨first, second, isFirst, isSecond, differ⟩ := contested
  exact ⟨first, second, (same _).mp isFirst, (same _).mp isSecond, differ⟩

/-- The fault that a keyword of a field is given another value than it has. -/
def conflict (owner : Definition) (field : DefinedField) (keyword : String) : Error :=
  .conflictingConstraint owner.name field.name keyword field.location

/-- Adding a constraint gives its keyword, or finds another value under it. -/
theorem addConstraint_cases (distinct : (members.map Prod.fst).Nodup) (constraint : Constraint) :
    (∃ changed, addConstraint owner field members constraint = .ok changed ∧
      (changed.map Prod.fst).Nodup ∧ ∀ member, member ∈ changed ↔
        member ∈ members ∨ member = ofConstraint field.type.required.isArray constraint) ∨
    ∃ keyword existing value,
      ofConstraint field.type.required.isArray constraint = (keyword, value) ∧
      (keyword, existing) ∈ members ∧ existing ≠ value ∧
      addConstraint owner field members constraint = .error (conflict owner field keyword) := by
  have rigid : Json.Rigid (ofConstraint field.type.required.isArray constraint).2 :=
    ofConstraint_rigid
  have itself := ofConstraint_identical_self field.type.required.isArray constraint
  unfold addConstraint
  generalize ofConstraint field.type.required.isArray constraint = member at rigid itself
  obtain ⟨keyword, value⟩ := member
  dsimp only at rigid itself ⊢
  cases found : members.lookup keyword with
  | none =>
    refine .inl ⟨members ++ [(keyword, value)], ?_, ?_, fun member => ?_⟩
    · rw [insertMember_new found]
      rfl
    · rw [← insertMember_new found]
      exact insertMember_distinct distinct
    · rw [mem_append, mem_singleton]
  | some existing =>
    by_cases same : existing = value
    · subst same
      refine .inl ⟨members, ?_, distinct, fun member => ?_⟩
      · simp only [itself, insertMember_same found]
        rfl
      · rw [iff_self_or]
        rintro rfl
        exact mem_of_lookup found
    · have differs : existing.identical value = false :=
        Bool.eq_false_iff.mpr fun identical => same (rigid existing identical)
      refine .inr ⟨keyword, existing, value, rfl, mem_of_lookup found, same, ?_⟩
      simp only [differs]
      rfl

/-- Adding constraints ends in the members that are given, each under a name of its own, or at a
keyword that is contested. -/
theorem addConstraints_cases (owner : Definition) (field : DefinedField)
    (distinct : (members.map Prod.fst).Nodup) (constraints : List Constraint) :
    (∃ final, constraints.foldlM (addConstraint owner field) members = .ok final ∧
      (final.map Prod.fst).Nodup ∧ ∀ member, member ∈ final ↔
        member ∈ given field.type.required.isArray constraints members) ∨
    ∃ keyword, Contested (given field.type.required.isArray constraints members) keyword ∧
      constraints.foldlM (addConstraint owner field) members =
        .error (conflict owner field keyword) := by
  induction constraints generalizing members with
  | nil => exact .inl ⟨members, rfl, distinct, by simp [given]⟩
  | cons constraint constraints ih =>
    rw [foldlM_cons]
    rcases addConstraint_cases distinct constraint with
      ⟨changed, done, changedDistinct, added⟩ |
      ⟨keyword, existing, value, isGiven, isMember, differ, stopped⟩
    · rw [done]
      have same : ∀ member, member ∈ given field.type.required.isArray constraints changed ↔
          member ∈ given field.type.required.isArray (constraint :: constraints) members := by
        simp only [given, map_cons, mem_append, mem_cons, added, or_assoc, implies_true]
      rcases ih changedDistinct with
        ⟨final, ended, finalDistinct, isFinal⟩ | ⟨keyword, contested, ended⟩
      · exact .inl ⟨final, ended, finalDistinct, fun member => (isFinal member).trans (same member)⟩
      · exact .inr ⟨keyword, contested.of_mem_iff same, ended⟩
    · rw [stopped]
      refine .inr ⟨keyword, ⟨existing, value, ?_, ?_, differ⟩, rfl⟩
      · exact mem_append_left _ isMember
      · rw [← isGiven]
        exact mem_append_right _ mem_cons_self

/-! ## The schema of a field -/

/-- The members of a type to which constraints are added. There has to be one, or else a reference
is not wrapped. -/
def baseFor (constraints : List Constraint) (members : Members) : Members :=
  if constraints.isEmpty then members else wrapReference members

/-- What comes of merging constraints into a base: a fault exactly if a keyword is contested, and
otherwise the members that are given. -/
structure Merges (owner : Definition) (field : DefinedField) (base : Members)
    (outcome : Except Error Members) : Prop where
  fails : (∃ keyword, outcome = .error (conflict owner field keyword)) ↔
    ∃ keyword, Contested (given field.type.required.isArray field.constraints base) keyword
  /-- There is no other fault, and the keyword that it names is contested. -/
  faults : ∀ fault, outcome = .error fault → ∃ keyword, fault = conflict owner field keyword ∧
    Contested (given field.type.required.isArray field.constraints base) keyword
  succeeds : (¬ ∃ keyword,
      Contested (given field.type.required.isArray field.constraints base) keyword) →
    ∃ members, outcome = .ok members ∧ (members.map Prod.fst).Nodup ∧
      ∀ keyword value, members.lookup keyword = some value ↔
        (keyword, value) ∈ given field.type.required.isArray field.constraints base

/-- Adding the constraints of a field to a base merges them into it. -/
theorem addConstraints_merges (owner : Definition) (field : DefinedField) {base : Members}
    (distinct : (base.map Prod.fst).Nodup) :
    Merges owner field base (field.constraints.foldlM (addConstraint owner field) base) := by
  rcases addConstraints_cases owner field distinct field.constraints with
    ⟨final, ended, finalDistinct, isFinal⟩ | ⟨keyword, contested, ended⟩
  · have undisputed : ¬ ∃ keyword,
        Contested (given field.type.required.isArray field.constraints base) keyword := by
      rintro ⟨keyword, contested⟩
      exact not_contested_of_distinct finalDistinct keyword
        (contested.of_mem_iff fun member => (isFinal member).symm)
    rw [ended]
    refine ⟨⟨?_, fun contested => absurd contested undisputed⟩, ?_, fun _ => ?_⟩
    · rintro ⟨keyword, ⟨⟩⟩
    · rintro fault ⟨⟩
    · refine ⟨final, rfl, finalDistinct, fun keyword value => ?_⟩
      rw [← isFinal]
      exact ⟨mem_of_lookup, lookup_of_mem finalDistinct⟩
  · rw [ended]
    refine ⟨⟨fun _ => ⟨keyword, contested⟩, fun _ => ⟨keyword, rfl⟩⟩, ?_, ?_⟩
    · rintro _ ⟨⟩
      exact ⟨keyword, rfl, contested⟩
    · exact fun undisputed => absurd ⟨keyword, contested⟩ undisputed

namespace Merges

variable {base : Members} {outcome : Except Error Members}

variable (merges : Merges owner field base outcome)
include merges

/-- A merge succeeds exactly if no keyword is contested. -/
theorem ok_iff :
    (∃ members, outcome = .ok members) ↔ ¬ ∃ keyword,
      Contested (given field.type.required.isArray field.constraints base) keyword := by
  constructor
  · rintro ⟨members, done⟩ contested
    obtain ⟨keyword, failed⟩ := merges.fails.mpr contested
    rw [done] at failed
    cases failed
  · intro undisputed
    obtain ⟨members, done, _⟩ := merges.succeeds undisputed
    exact ⟨members, done⟩

/-- The members of a merge are those given, each once. -/
theorem mem_iff (done : outcome = .ok members) : members.Nodup ∧ ∀ member, member ∈ members ↔
      member ∈ given field.type.required.isArray field.constraints base := by
  obtain ⟨found, same, distinct, isFound⟩ := merges.succeeds (merges.ok_iff.mp ⟨members, done⟩)
  obtain rfl : members = found := Except.ok.inj (done.symm.trans same)
  refine ⟨.of_map Prod.fst distinct, ?_⟩
  rintro ⟨keyword, value⟩
  rw [← isFound]
  exact ⟨lookup_of_mem distinct, mem_of_lookup⟩

/-- Two merges that are given the same agree, up to the order of members. -/
theorem agree {other : DefinedField} {otherOutcome : Except Error Members}
    (alsoMerges : Merges owner other base otherOutcome)
    (same : ∀ member, member ∈ given field.type.required.isArray field.constraints base ↔ member
      ∈ given other.type.required.isArray other.constraints base) :
    ((∃ members, outcome = .ok members) ↔ ∃ members, otherOutcome = .ok members) ∧
      ∀ members others, outcome = .ok members → otherOutcome = .ok others →
        members.Perm others := by
  constructor
  · rw [merges.ok_iff, alsoMerges.ok_iff]
    refine not_congr (exists_congr fun keyword => ?_)
    exact ⟨.of_mem_iff same, .of_mem_iff fun member => (same member).symm⟩
  · intro members others done otherDone
    obtain ⟨distinct, isMember⟩ := merges.mem_iff done
    obtain ⟨otherDistinct, isOther⟩ := alsoMerges.mem_iff otherDone
    refine (perm_ext_iff_of_nodup distinct otherDistinct).mpr fun member => ?_
    rw [isMember, same, isOther]

end Merges

theorem baseFor_distinct (distinct : (members.map Prod.fst).Nodup)
    (constraints : List Constraint) : ((baseFor constraints members).map Prod.fst).Nodup := by
  unfold baseFor wrapReference
  split
  · exact distinct
  · split
    · exact nodup_singleton _
    · exact distinct

/-- The mark that makes a type optional does not show in its schema. -/
theorem ofType_required (type : FieldType Nat) : ofType reg type.required = ofType reg type := by
  cases type with
  | optional inner => rw [ofType, FieldType.required]
  | _ => rfl

/-- The schema of a field merges its constraints into the members of its type. -/
theorem ofField_merges (typed : ofType reg field.type = .ok members) :
    Merges owner field (baseFor field.constraints members) (ofField reg owner field) := by
  have distinct := baseFor_distinct (ofType_distinct typed) field.constraints
  have merges := addConstraints_merges owner field distinct
  have same : ofField reg owner field =
      field.constraints.foldlM (addConstraint owner field) (baseFor field.constraints members) := by
    rw [ofField, ofType_required, typed, baseFor]
    cases field.constraints with
    | nil | cons _ _ => rfl
  rwa [same]

/-- The schema of a field of a built registry merges its constraints into the members of its type:
it fails exactly if a keyword is given two different values, and otherwise every keyword that is
given has its one value, and there is no other. So the same constraints in another order, or some
of them repeated, succeed on the same fields and give the same members in some order. -/
theorem constraints_merge_in_any_order {declarations : List ScopedDeclaration}
    (built : Registry.build declarations = .ok registry) (isOwner : owner ∈ registry.definitions)
    (isField : field ∈ owner.fields) :
    ∃ members, ofType registry field.type = .ok members ∧
      Merges owner field (baseFor field.constraints members) (ofField registry owner field) ∧
      ∀ others : List Constraint,
        (∀ constraint, constraint ∈ others ↔ constraint ∈ field.constraints) →
        ((∃ schema, ofField registry owner field = .ok schema) ↔
          ∃ schema, ofField registry owner { field with constraints := others } = .ok schema) ∧
        ∀ schema changed, ofField registry owner field = .ok schema →
          ofField registry owner { field with constraints := others } = .ok changed →
          schema.Perm changed := by
  have covers := Registry.build_linked built owner isOwner field isField
  obtain ⟨members, typed⟩ := ofType_ok_of_covers covers
  have merges : Merges owner field _ _ := ofField_merges typed
  refine ⟨members, typed, merges, fun others same => ?_⟩
  have sameBase : baseFor others members = baseFor field.constraints members := by
    have sameEmpty : others.isEmpty = field.constraints.isEmpty := by
      rw [Bool.eq_iff_iff, List.isEmpty_iff, List.isEmpty_iff, List.eq_nil_iff_forall_not_mem,
        List.eq_nil_iff_forall_not_mem]
      exact forall_congr' fun constraint => not_congr (same constraint)
    rw [baseFor, baseFor, sameEmpty]
  have changed : Merges owner { field with constraints := others } (baseFor others members)
      (ofField registry owner { field with constraints := others }) := ofField_merges typed
  rw [sameBase] at changed
  refine merges.agree changed fun member => ?_
  simp only [given, List.mem_append, List.mem_map, same]

/-- A record with bounds that are stated again, and a constraint on a reference. -/
def boundedReading : List ScopedDeclaration :=
  ((parse "reading" ("enum Level \x7b low high \x7d\n" ++
    "entry Reading \x7b level: Level value: integer(0..10) \x7d\n" ++
    "validate \x7b value: max(10), min(0), max(10) level: one_of(low) \x7d")).toOption.getD
      []).map (⟨none, 0, ·⟩)

/-- The constraints on both fields can be merged, in the order they have and in the other. -/
theorem boundedReading_merges :
    ∃ registry owner, Registry.build boundedReading = .ok registry ∧
      owner ∈ registry.definitions ∧ owner.fields.length = 2 ∧ ∀ field ∈ owner.fields,
        (∃ schema, ofField registry owner field = .ok schema) ∧
        ∃ schema, ofField registry owner
          { field with constraints := field.constraints.reverse } = .ok schema := by
  obtain ⟨registry, built, view⟩ := Outcome.ok_of_view
    (show (Registry.build boundedReading).toOption.map (fun registry =>
        registry.definitions[1]?.map fun owner =>
          (owner.fields.length, owner.fields.all fun field =>
            (ofField registry owner field).toOption.isSome)) =
      some (some (2, true)) by decide +kernel)
  obtain ⟨owner, found, seen⟩ := Option.map_eq_some_iff.mp view
  obtain ⟨two, all⟩ := Prod.mk.inj seen
  have isOwner := List.mem_of_getElem? found
  refine ⟨registry, owner, built, isOwner, two, fun field isField => ?_⟩
  have done := Outcome.ok_of_isSome (List.all_eq_true.mp all field isField)
  obtain ⟨_, _, _, anyOrder⟩ := constraints_merge_in_any_order built isOwner isField
  have reversed := anyOrder field.constraints.reverse fun _ => List.mem_reverse
  exact ⟨done, reversed.1.mp done⟩

/-- A record that refers to another and says no more about it. -/
def bareReference : List ScopedDeclaration :=
  ((parse "whole" ("type Part \x7b x: string \x7d\n" ++
    "entry Whole \x7b part: Part \x7d")).toOption.getD []).map (⟨none, 0, ·⟩)

/-- Where nothing is added to a reference, the schema of the field is not that of the wrapped
reference. -/
theorem bareReference_not_wrapped :
    ∃ registry owner field members, Registry.build bareReference = .ok registry ∧
      owner ∈ registry.definitions ∧ field ∈ owner.fields ∧ field.constraints = [] ∧
      ofType registry field.type = .ok members ∧
      ¬ Merges owner field (wrapReference members) (ofField registry owner field) := by
  obtain ⟨registry, built, view⟩ := Outcome.ok_of_view
    (show (Registry.build bareReference).toOption.map (fun registry =>
        registry.definitions[1]?.bind fun owner => owner.fields[0]?.bind fun field =>
          (ofType registry field.type).toOption.map fun members =>
            (field.constraints.isEmpty, members.map Prod.fst)) =
      some (some (true, ["$ref"])) by decide +kernel)
  obtain ⟨owner, ownerFound, ownerSeen⟩ := Option.bind_eq_some_iff.mp view
  obtain ⟨field, fieldFound, fieldSeen⟩ := Option.bind_eq_some_iff.mp ownerSeen
  obtain ⟨members, typed, seen⟩ := Outcome.ok_of_view fieldSeen
  obtain ⟨isEmpty, keywords⟩ := Prod.mk.inj seen
  have unconstrained : field.constraints = [] := List.isEmpty_iff.mp isEmpty
  refine ⟨registry, owner, field, members, built, List.mem_of_getElem? ownerFound,
    List.mem_of_getElem? fieldFound, unconstrained, typed, fun merges => ?_⟩
  have written : ofField registry owner field = .ok members := by
    rw [ofField, ofType_required, typed, unconstrained]
    rfl
  have isReference : (members.lookup "$ref").isSome = true := by
    rw [Option.isSome_iff_ne_none, ne_eq, lookup_eq_none_iff, keywords]
    simp
  have wrapped : ("allOf", array [.object members]) ∈
      given field.type.required.isArray field.constraints (wrapReference members) := by
    rw [given, wrapReference, if_pos isReference]
    exact List.mem_append_left _ (List.mem_singleton_self _)
  have isMember := ((merges.mem_iff written).2 _).mpr wrapped
  have named : "allOf" ∈ members.map Prod.fst := List.mem_map_of_mem isMember
  rw [keywords] at named
  simp at named

end JsonSchema

end SchemaLang
