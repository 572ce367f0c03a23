import SchemaLang.Proofs.Json.Members
import SchemaLang.Proofs.JsonSchema.Members
import SchemaLang.Proofs.Registry.Conformance
import SchemaLang.Proofs.Registry.WellFormed

/-!
# The keywords of constraints

A constraint is written as one keyword, and the keyword finds no failure exactly in the
values that the constraint allows. The one constraint that need not be a keyword is a
pattern: schemas know fewer patterns than constraints do, and ask for another spelling.

Constraints are added to the members of a type one after the other. A keyword that is there
already is there with the same value, so the members in the end are those of the type and
those of the constraints.
-/

namespace SchemaLang.JsonSchema

open List Json

/-- The keyword that a constraint is read as. -/
def constraintKeyword (isArray : Bool) : Constraint → Except Fault Keyword
  | .pattern text => patternValue (.string text)
  | .minLength length => .ok (.limit (if isArray then .minItems else .minLength) length)
  | .maxLength length => .ok (.limit (if isArray then .maxItems else .maxLength) length)
  | .minimum bound => .ok (.bound .minimum (.ofDouble bound))
  | .maximum bound => .ok (.bound .maximum (.ofDouble bound))
  | .exclusiveMinimum bound => .ok (.bound .exclusiveMinimum (.ofDouble bound))
  | .exclusiveMaximum bound => .ok (.bound .exclusiveMaximum (.ofDouble bound))
  | .oneOf values => .ok (.enum (values.map ofLiteral))

variable {isArray : Bool} {constraint : Constraint}

/-- Reading what is written for a constraint. -/
theorem keywordOf_ofConstraint (finite : constraint.Finite) :
    keywordOf .draft7 (ofConstraint isArray constraint).1 (ofConstraint isArray constraint).2 =
      (constraintKeyword isArray constraint).map fun keyword => [keyword] := by
  cases constraint with
  | pattern text =>
    show (do return [← patternValue (.string text)]) = _
    rw [constraintKeyword]
    cases patternValue (.string text) <;> rfl
  | minLength _ | maxLength _ => cases isArray <;> rfl
  | oneOf values => rfl
  | _ =>
    simp only [Constraint.Finite] at finite
    simp only [ofConstraint, ofDouble, finite, if_true]
    rfl

variable {keyword : Keyword}

/-- A pattern is read as a keyword exactly when schemas know it. -/
theorem constraintKeyword_pattern {text : String} :
    constraintKeyword isArray (.pattern text) = .ok keyword ↔
      ∃ pattern, Pattern.SchemaPattern.read text = .ok pattern ∧ keyword = .pattern pattern := by
  rw [constraintKeyword, patternValue, textValue]
  cases known : Pattern.SchemaPattern.read text with
  | ok pattern => simp [bind, Except.bind, pure, Except.pure, known, eq_comm]
  | error fault => simp [bind, Except.bind, known]

/-- A constraint can be read unless it is a pattern that schemas do not know. -/
theorem constraintKeyword_readable_iff :
    (∃ keyword, constraintKeyword isArray constraint = .ok keyword) ↔
      ∀ text, constraint = .pattern text →
        ∃ pattern, Pattern.SchemaPattern.read text = .ok pattern := by
  cases constraint with
  | pattern text =>
    simp only [constraintKeyword_pattern, Constraint.pattern.injEq, forall_eq']
    constructor
    · rintro ⟨_, pattern, known, _⟩
      exact ⟨pattern, known⟩
    · rintro ⟨pattern, known⟩
      exact ⟨_, pattern, known, rfl⟩
  | _ => simp [constraintKeyword]

/-- What is written for a constraint has the right shape unless it is a pattern with another
spelling. -/
theorem checkMember_ofConstraint (finite : constraint.Finite) :
    checkMember .draft7 (ofConstraint isArray constraint).1 (ofConstraint isArray constraint).2 =
        .ok () ↔
      ∀ text, constraint = .pattern text →
        ∃ chars, Pattern.schemaText text.toList = .ok chars := by
  cases constraint with
  | pattern text =>
    simp only [Constraint.pattern.injEq, forall_eq']
    show checkPattern .draft7 (.string text) = .ok () ↔ _
    rw [checkPattern]
    cases Pattern.schemaText text.toList with
    | ok _ | error _ => simp [Draft.checksFormats]
  | minLength _ | maxLength _ =>
    simp only [reduceCtorEq, false_implies, implies_true, iff_true]
    cases isArray <;> rfl
  | oneOf values =>
    simp only [reduceCtorEq, false_implies, implies_true, iff_true]
    rfl
  | _ =>
    simp only [Constraint.Finite] at finite
    simp only [reduceCtorEq, false_implies, implies_true, iff_true, ofConstraint, ofDouble,
      finite, if_true]
    rfl

/-! ## What the keyword of a constraint says -/

/-- A condition on the whole value does not fail exactly when it holds. -/
theorem failureIf_eq_nil {failed : Bool} {location path : Pointer} {value : Json} :
    failureIf failed location path value = [] ↔ failed = false := by
  cases failed <;> simp [failureIf]

/-- A value equals a listed one exactly when it is denoted by it. -/
theorem equalValue_ofLiteral {literal : Literal} (finite : literal.Finite) (value : Json) :
    (ofLiteral literal).equalValue value = true ↔ literal.Denotes value := by
  cases literal with
  | text listed =>
    cases value with
    | string text =>
      simp only [ofLiteral, equalValue, Literal.Denotes, beq_iff_eq, string.injEq]
      exact eq_comm
    | _ => simp [ofLiteral, equalValue, Literal.Denotes]
  | number bound =>
    have isFinite := finite bound rfl
    rw [ofLiteral, ofDouble, if_pos isFinite]
    cases value with
    | number number =>
      simp only [Json.equalValue, Literal.Denotes, Json.number.injEq, exists_eq_left',
        decide_eq_true_eq]
      rw [← JsonNumber.order_ofDouble isFinite]
      exact ⟨JsonNumber.order_eq_comm, JsonNumber.order_eq_comm⟩
    | _ => simp [equalValue, Literal.Denotes]

/-- The keyword of a constraint finds no failure exactly in the values that the constraint
allows. -/
theorem constraintKeyword_meaning (finite : constraint.Finite)
    (read : constraintKeyword isArray constraint = .ok keyword) (check : SchemaCheck)
    (declared? : Option (List String)) (location path : Pointer) (value : Json) :
    keyword.failures check declared? location path value = [] ↔
      constraint.Allows isArray value := by
  cases constraint with
  | pattern text =>
    obtain ⟨pattern, known, rfl⟩ := constraintKeyword_pattern.mp read
    cases value <;>
      simp [Keyword.failures, Constraint.Allows, failureIf_eq_nil, known]
  | minLength _ | maxLength _ =>
    cases read
    cases isArray <;> cases value <;>
      simp [Keyword.failures, Constraint.Allows, failureIf_eq_nil, Limit.holds]
  | oneOf values =>
    cases read
    simp only [Keyword.failures, failureIf_eq_nil, Bool.not_eq_eq_eq_not, Bool.not_false,
      any_map, any_eq_true, Function.comp_apply, Constraint.Allows]
    constructor
    · rintro ⟨literal, listed, equal⟩
      exact ⟨literal, listed, (equalValue_ofLiteral (finite literal listed) value).mp equal⟩
    · rintro ⟨literal, listed, denotes⟩
      exact ⟨literal, listed, (equalValue_ofLiteral (finite literal listed) value).mpr denotes⟩
  | _ =>
    cases read
    simp only [Constraint.Finite] at finite
    cases value <;>
      simp [Keyword.failures, Constraint.Allows, failureIf_eq_nil, Bound.holds,
        JsonNumber.order_ofDouble finite, JsonNumber.AtLeast, JsonNumber.AtMost,
        or_iff_not_imp_left]

/-- The keyword of a constraint looks at no other schema. -/
theorem constraintKeyword_plain (read : constraintKeyword isArray constraint = .ok keyword) :
    keyword.references = [] ∧ ∀ schema, keyword ≠ .additionalProperties schema := by
  cases constraint with
  | pattern text =>
    obtain ⟨pattern, _, rfl⟩ := constraintKeyword_pattern.mp read
    exact ⟨rfl, by simp⟩
  | _ =>
    cases read
    exact ⟨rfl, by simp⟩

/-! ## Adding constraints -/

theorem ofConstraint_rigid : Json.Rigid (ofConstraint isArray constraint).2 := by
  cases constraint with
  | pattern text => exact rigid_string text
  | minLength length | maxLength length => exact rigid_integer length
  | oneOf values =>
    refine rigid_array fun item member => ?_
    obtain ⟨literal, _, rfl⟩ := mem_map.mp member
    cases literal with
    | text listed => exact rigid_string listed
    | number bound => exact rigid_ofDouble bound
  | _ => exact rigid_ofDouble _

theorem ofConstraint_ne_reference : (ofConstraint isArray constraint).1 ≠ "$ref" := by
  cases constraint <;> cases isArray <;> simp [ofConstraint]

variable {owner : Definition} {field : DefinedField}

/-- A constraint whose keyword is there changes nothing; otherwise its keyword comes last. -/
theorem addConstraint_ok {members changed : Members}
    (added : addConstraint owner field members constraint = .ok changed) :
    (changed = members ∧ ofConstraint field.type.required.isArray constraint ∈ members) ∨
      changed = members ++ [ofConstraint field.type.required.isArray constraint] := by
  unfold addConstraint at added
  dsimp only at added
  cases found : members.lookup (ofConstraint field.type.required.isArray constraint).1 with
  | none =>
    rw [found] at added
    cases added
    exact .inr (insertMember_new found)
  | some existing =>
    -- No conflict means an identical value, and values of constraints are identical only to
    -- themselves.
    rw [found] at added
    dsimp only at added
    split at added
    · cases added
    · rename_i agrees
      cases added
      have same : existing = (ofConstraint field.type.required.isArray constraint).2 :=
        ofConstraint_rigid existing (by simpa using agrees)
      rw [same] at found
      exact .inl ⟨insertMember_same found, mem_of_lookup found⟩

/-- Members that consist of those of a base and those of constraints. -/
def Constrained (isArray : Bool) (constraints : List Constraint) (base members : Members) : Prop :=
  ∀ member, member ∈ members ↔ member ∈ base ∨
    ∃ constraint ∈ constraints, member = ofConstraint isArray constraint

/-- After adding constraints there are the members from before and those of the
constraints. -/
theorem addConstraints_ok {constraints : List Constraint} {members final : Members}
    (added : constraints.foldlM (addConstraint owner field) members = .ok final) :
    Constrained field.type.required.isArray constraints members final ∧
      membersSize members ≤ membersSize final := by
  induction constraints generalizing members with
  | nil =>
    cases added
    simp [Constrained]
  | cons constraint constraints ih =>
    rw [foldlM_cons] at added
    obtain ⟨changed, first, rest⟩ := Outcome.bind_ok_iff.mp added
    obtain ⟨others, grows⟩ := ih rest
    rcases addConstraint_ok first with ⟨rfl, present⟩ | rfl
    · refine ⟨fun member => ?_, grows⟩
      simp only [others member, exists_mem_cons_iff]
      constructor
      · rintro (old | new)
        · exact .inl old
        · exact .inr (.inr new)
      · rintro (old | rfl | new)
        · exact .inl old
        · exact .inl present
        · exact .inr new
    · rw [membersSize_append] at grows
      refine ⟨fun member => ?_, by omega⟩
      simp only [others member, mem_append, mem_singleton, exists_mem_cons_iff, or_assoc]

namespace Constrained

variable {constraints : List Constraint} {base members : Members}
  (added : Constrained isArray constraints base members)
include added

/-- A property of all members is one of the members of the base and of those of the
constraints. -/
theorem forall_iff {holds : String × Json → Prop} :
    (∀ member ∈ members, holds member) ↔ (∀ member ∈ base, holds member) ∧
      ∀ constraint ∈ constraints, holds (ofConstraint isArray constraint) := by
  constructor
  · intro all
    exact ⟨fun member old => all member ((added member).mpr (.inl old)),
      fun constraint stated => all _ ((added _).mpr (.inr ⟨constraint, stated, rfl⟩))⟩
  · rintro ⟨old, new⟩ member present
    rcases (added member).mp present with isOld | ⟨constraint, stated, rfl⟩
    · exact old member isOld
    · exact new constraint stated

/-- Constraints add no reference. -/
theorem bare (baseBare : base.lookup "$ref" = none) : members.lookup "$ref" = none := by
  rw [lookup_eq_none_iff] at baseBare ⊢
  intro named
  obtain ⟨member, present, isReference⟩ := mem_map.mp named
  rcases (added member).mp present with old | ⟨constraint, _, rfl⟩
  · exact baseBare (isReference ▸ mem_map_of_mem old)
  · exact ofConstraint_ne_reference isReference

variable (finite : ∀ constraint ∈ constraints, constraint.Finite)
include finite

/-- Constraints keep the shape unless a pattern has another spelling. -/
theorem shaped (baseShaped : checkMembers .draft7 base = .ok ()) :
    checkMembers .draft7 members = .ok () ↔ ∀ text, Constraint.pattern text ∈ constraints →
      ∃ chars, Pattern.schemaText text.toList = .ok chars := by
  rw [checkMembers_ok_iff, added.forall_iff]
  constructor
  · rintro ⟨_, all⟩ text stated
    exact (checkMember_ofConstraint (finite _ stated)).mp (all _ stated) text rfl
  · intro spelled
    refine ⟨checkMembers_ok_iff.mp baseShaped, fun constraint stated =>
      (checkMember_ofConstraint (finite constraint stated)).mpr ?_⟩
    rintro text rfl
    exact spelled text stated

variable {conditions : List Keyword} (baseRead : keywordsOf .draft7 base = .ok conditions)
include baseRead

/-- Members can be read if those of the base and the constraints can. -/
theorem readable :
    (∃ keywords, keywordsOf .draft7 members = .ok keywords) ↔ ∀ constraint ∈ constraints,
      ∃ keyword, constraintKeyword isArray constraint = .ok keyword := by
  have constraintwise : ∀ constraint ∈ constraints,
      ((∃ keywords, keywordOf .draft7 (ofConstraint isArray constraint).1
        (ofConstraint isArray constraint).2 = .ok keywords) ↔
      ∃ keyword, constraintKeyword isArray constraint = .ok keyword) := by
    intro constraint stated
    rw [keywordOf_ofConstraint (finite constraint stated), Outcome.exists_map_ok_iff]
  rw [keywordsOf_readable_iff, added.forall_iff]
  constructor
  · rintro ⟨_, all⟩ constraint stated
    exact (constraintwise constraint stated).mp (all constraint stated)
  · intro all
    exact ⟨keywordsOf_readable_iff.mp ⟨conditions, baseRead⟩, fun constraint stated =>
      (constraintwise constraint stated).mpr (all constraint stated)⟩

/-- What is read are the conditions of the base and those of the constraints. -/
theorem mem_keywords {keywords : List Keyword}
    (read : keywordsOf .draft7 members = .ok keywords) :
    keyword ∈ keywords ↔ keyword ∈ conditions ∨ ∃ constraint ∈ constraints,
      constraintKeyword isArray constraint = .ok keyword := by
  rw [mem_keywordsOf read, mem_keywordsOf baseRead]
  constructor
  · rintro ⟨member, present, own, ownRead, isOwn⟩
    rcases (added member).mp present with old | ⟨constraint, stated, rfl⟩
    · exact .inl ⟨member, old, own, ownRead, isOwn⟩
    · rw [keywordOf_ofConstraint (finite constraint stated)] at ownRead
      obtain ⟨only, found, rfl⟩ := Outcome.map_ok_iff.mp ownRead
      rw [mem_singleton.mp isOwn]
      exact .inr ⟨constraint, stated, found⟩
  · rintro (⟨member, old, own, ownRead, isOwn⟩ | ⟨constraint, stated, found⟩)
    · exact ⟨member, (added member).mpr (.inl old), own, ownRead, isOwn⟩
    · refine ⟨_, (added _).mpr (.inr ⟨constraint, stated, rfl⟩), [keyword], ?_,
        mem_singleton_self keyword⟩
      rw [keywordOf_ofConstraint (finite constraint stated), found]
      rfl

end Constrained

end SchemaLang.JsonSchema
