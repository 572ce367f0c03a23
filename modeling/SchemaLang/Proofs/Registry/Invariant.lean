import SchemaLang.Proofs.Registry.WellFormed

/-!
# The invariant of registries

What can be relied on after a registry was built, whatever the declarations were: they need
not come from a text. Three passes establish it. Collecting names gives every declaration with
a name its number, and keeps names apart and entries single; linking fills in the fields with
numbers that exist; validation blocks add constraints, each where it may stand.

Where a constraint may stand is decided when its call is read: a list of required fields has a
place on the record only, and every other constraint on a field only.
-/

namespace SchemaLang

open Outcome List Outline Definition ScopedDeclaration

/-- Whether a declaration introduces a name. -/
def ScopedDeclaration.introducesName (statement : ScopedDeclaration) : Bool :=
  statement.declaration.name?.isSome

/-- A definition says what a declaration says: the members of an enumeration, or the fields of
a record, which is the entry or not. -/
inductive DefinitionBody.Renders : Declaration → DefinitionBody → Prop where
  | enumeration {content : EnumDeclaration} :
      Renders (.enumeration content) (.enumeration content.members)
  | record {content : RecordDeclaration} {body : RecordBody}
      (fields : body.fields.map DefinedField.name = content.fields.map Field.name)
      (plain : body.isEntry = false) : Renders (.record content) (.record body)
  | entry {content : RecordDeclaration} {body : RecordBody}
      (fields : body.fields.map DefinedField.name = content.fields.map Field.name)
      (isEntry : body.isEntry = true) : Renders (.entry content) (.record body)

/-- A definition is that of a declaration. -/
structure Definition.Renders (statement : ScopedDeclaration) (definition : Definition) :
    Prop where
  named : statement.qualifiedName? = some definition.name
  scope : definition.scope? = statement.scope?
  location : definition.location = statement.declaration.location
  body : definition.body.Renders statement.declaration

variable {decls : List ScopedDeclaration}

namespace Outline

/-- No two declarations are entries. -/
def SingleEntry (outlines : List Outline) : Prop :=
  outlines.Pairwise fun first second => first.isEntry = true → second.isEntry = false

/-- Collecting the names of declarations lets one entry pass at most. -/
theorem collect_singleEntry {start outlines : List Outline} (single : SingleEntry start)
    (done : decls.foldlM add start = .ok outlines) : SingleEntry outlines := by
  refine foldlM_keeps SingleEntry done single ?_
  intro earlier stmt later _ added holds
  obtain ⟨_, rfl⟩ | ⟨outline, _, _, _, _, alone, rfl⟩ := add_cases added
  · exact holds
  · refine pairwise_append.mpr ⟨holds, pairwise_singleton _ _, ?_⟩
    intro other member last isLast otherEntry
    obtain rfl := mem_singleton.mp isLast
    by_contra lastEntry
    have noEntry := alone (by simpa using lastEntry) other member
    rw [noEntry] at otherEntry
    cases otherEntry

/-- The declarations with names are those that introduce one. -/
theorem all_statements (decls : List ScopedDeclaration) :
    (all decls).map statement = decls.filter introducesName := by
  unfold all
  induction decls with
  | nil => rfl
  | cons stmt rest ih =>
    cases named : stmt.declaration.name? with
    | none | some _ =>
      simp [ofStatement?, qualifiedName?, introducesName, named, ih]

end Outline

variable {definition defn : Definition}

namespace Definition

/-- A definition whose fields were linked is that of its declaration. -/
theorem renders_of_withFields {outline : Outline} {fields : List DefinedField}
    (named : outline.statement.qualifiedName? = some outline.name)
    (names : fields.map DefinedField.name = outline.statement.declaration.fields.map Field.name)
    (same : defn.skeleton = outline.withFields fields) :
    Renders outline.statement defn := by
  obtain ⟨name, stmt⟩ := outline
  obtain ⟨ownName, scope?, location, body⟩ := defn
  have ownNames : ∀ content : RecordBody,
      (content.fields.map DefinedField.skeleton).map DefinedField.name =
        content.fields.map DefinedField.name := by
    intro content
    rw [map_map]
    rfl
  cases decl : stmt.declaration with
  | moduleImport _ | validation _ =>
    simp [qualifiedName?, decl, Declaration.name?] at named
  | enumeration content =>
    cases body with
    | record own =>
      simp [skeleton, withFields, definition, decl] at same
    | enumeration members =>
      simp only [skeleton, withFields, definition, decl,
        mk.injEq, DefinitionBody.enumeration.injEq, Outline.location] at same
      obtain ⟨rfl, rfl, rfl, rfl⟩ := same
      exact ⟨named, rfl, by rw [decl], by rw [decl]; exact .enumeration⟩
  | record content | entry content =>
    cases body with
    | enumeration members =>
      simp [skeleton, withFields, definition, decl] at same
    | record own =>
      simp only [skeleton, withFields, definition, decl, mk.injEq, DefinitionBody.record.injEq,
        RecordBody.mk.injEq, Outline.location, Outline.isEntry] at same
      obtain ⟨rfl, rfl, rfl, rfl, _, isEntry⟩ := same
      rw [ownNames, decl] at names
      exact ⟨named, rfl, by rw [decl], by rw [decl]; constructor <;> assumption⟩

end Definition

/-! ## Constraints -/

namespace Call

variable {call : Call}

/-- Only `required` asks for fields, and it names fields of the record, one at least. -/
theorem onSelf_ok {owner : Definition} {names : List String}
    (done : call.onSelf owner = .ok names) :
    call.function = .ok .required ∧ names ≠ [] ∧
      ∀ name ∈ names, name ∈ owner.fields.map DefinedField.name := by
  obtain ⟨function, called, rest⟩ := bind_ok_iff.mp done
  cases function with
  | required =>
    dsimp only at rest
    split at rest
    · cases rest
    · rename_i nonempty
      have named := mapM_ok_iff.mp rest
      refine ⟨called, ?_, fun name member => ?_⟩
      · rintro rfl
        cases arguments : call.arguments with
        | nil => exact nonempty (by rw [arguments]; rfl)
        | cons first others =>
          rw [arguments] at named
          cases named
      · obtain ⟨argument, _, checked⟩ := exists_left named member
        have known : ∀ written, (if owner.fields.any fun field => field.name = written then
            Except.ok written else .error (call.invalid (.noSuchField owner.name written))) =
              .ok name → name ∈ owner.fields.map DefinedField.name := by
          intro written outcome
          split at outcome
          · rename_i found
            cases outcome
            simpa using found
          · cases outcome
        cases argument with
        | word written | text written => exact known written checked
        | number value => cases checked
  | _ => cases rest

end Call

/-- A rule of the declarations calls a constraint under a key. -/
def Calls (declarations : List ScopedDeclaration) (key : String) (call : Call) : Prop :=
  ∃ statement ∈ declarations, ∃ rule ∈ statement.declaration.rules,
    rule.key = key ∧ call ∈ rule.calls

/-- The constraints of a definition stand where they may. Those of a field come from calls
under its name, and never from `required`; the lists of required fields come from calls of
`required` under the word for the record itself, and name fields that the record has. -/
structure Definition.Constrained (declarations : List ScopedDeclaration)
    (definition : Definition) : Prop where
  onFields : ∀ field ∈ definition.fields, ∀ constraint ∈ field.constraints,
    ∃ call, Calls declarations field.name call ∧ call.function ≠ .ok .required ∧
      call.onField = .ok constraint
  onSelf : ∀ content, definition.body = .record content → ∀ names ∈ content.required,
    (∃ call, Calls declarations "self" call ∧ call.function = .ok .required) ∧
      names ≠ [] ∧ ∀ name ∈ names, name ∈ content.fields.map DefinedField.name

variable {reg : Registry}

namespace Registry

/-- Constraining a field changes no name. -/
theorem constrainField_names (position : Nat) (constraints : List Constraint)
    (fields : List DefinedField) :
    (constrainField position constraints fields).map DefinedField.name =
      fields.map DefinedField.name := by
  have names := congrArg (map DefinedField.name)
    (constrainField_skeleton position constraints fields)
  simpa [map_map, Function.comp_def, DefinedField.skeleton] using names

/-- A definition without constraints has none at a wrong place. -/
theorem constrained_of_skeleton (bare : defn.skeleton = defn) : defn.Constrained decls := by
  constructor
  case onFields =>
    intro field member constraint stated
    rw [← bare, skeleton_fields] at member
    obtain ⟨original, _, rfl⟩ := mem_map.mp member
    cases stated
  case onSelf =>
    intro content body names stated
    have sameBody : defn.skeleton.body = .record content := by rw [bare, body]
    rw [skeleton, body] at sameBody
    have noneRequired : [] = content.required :=
      congrArg RecordBody.required (DefinitionBody.record.inj sameBody)
    rw [← noneRequired] at stated
    cases stated

/-- A rule of the declarations adds constraints where they may stand. -/
theorem applyRule_constrained {rule : Rule}
    (calls : ∀ call ∈ rule.calls, Calls decls rule.key call) {changed : Definition}
    (applied : applyRule defn rule = .ok changed)
    (constrained : defn.Constrained decls) : changed.Constrained decls := by
  constructor
  case onFields =>
    intro field isField constraint stated
    obtain ⟨original, isOriginal, sameName, old⟩ | ⟨_, isKey, call, isCall, done⟩ :=
      applyRule_constraint applied isField stated
    · rw [← sameName]
      exact constrained.onFields original isOriginal constraint old
    · refine ⟨call, isKey ▸ calls call isCall, fun isRequired => ?_, done⟩
      rw [Call.onField, isRequired] at done
      cases done
  case onSelf =>
    intro content body names stated
    obtain ⟨name, scope?, location, before⟩ := defn
    cases before with
    | enumeration members =>
      obtain ⟨_, _, _, rfl⟩ | ⟨_, _, _, _, _, rfl⟩ := applyRule_ok applied <;> cases body
    | record original =>
      have onSelf := constrained.onSelf original rfl names
      obtain ⟨isSelf, required, mapped, rfl⟩ | ⟨_, position, constraints, _, _, rfl⟩ :=
        applyRule_ok applied
      · cases body
        rcases mem_append.mp stated with old | new
        · exact onSelf old
        · obtain ⟨call, isCall, done⟩ := exists_left (mapM_ok_iff.mp mapped) new
          obtain ⟨isRequired, nonempty, named⟩ := Call.onSelf_ok done
          exact ⟨⟨call, isSelf ▸ calls call isCall, isRequired⟩, nonempty, named⟩
      · cases body
        dsimp only
        rw [constrainField_names]
        exact onSelf stated

/-- The declaration of a number is an entry. -/
def EntryAt (declarations : List ScopedDeclaration) (id : Nat) : Prop :=
  ∃ statement content, (declarations.filter introducesName)[id]? =
    some statement ∧ statement.declaration = .entry content

/-- What holds of every registry that was built. -/
structure Invariant (declarations : List ScopedDeclaration) (registry : Registry) : Prop where
  /-- There is one definition for each declaration with a name, in their order. -/
  rendered : Forall₂ Definition.Renders
    (declarations.filter introducesName) registry.definitions
  distinct : (registry.definitions.map Definition.name).Nodup
  unreserved : ∀ definition ∈ registry.definitions, Primitive.ofKeyword? definition.name = none
  lookup : ∀ name id, registry.lookup? name = some id ↔
    (registry.get? id).map Definition.name = some name
  /-- The entry is the one definition whose declaration is an entry. -/
  entry : ∀ id, registry.entry? = some id ↔
    EntryAt declarations id ∧ ∀ other, EntryAt declarations other → other = id
  linked : registry.Linked
  constrained : ∀ definition ∈ registry.definitions, definition.Constrained declarations

/-- The declaration of a number is an entry exactly when its outline is. -/
theorem entryAt_iff {id : Nat} :
    EntryAt decls id ↔
      ∃ outline, (Outline.all decls)[id]? = some outline ∧ outline.isEntry = true := by
  unfold EntryAt
  rw [← all_statements]
  simp only [getElem?_map, Option.map_eq_some_iff]
  constructor
  · rintro ⟨_, content, ⟨outline, found, rfl⟩, declared⟩
    exact ⟨outline, found, by rw [Outline.isEntry, declared]⟩
  · rintro ⟨outline, found, isEntry⟩
    unfold Outline.isEntry at isEntry
    split at isEntry
    · rename_i content declared
      exact ⟨outline.statement, content, ⟨outline, found, rfl⟩, declared⟩
    · cases isEntry

variable (built : build decls = .ok reg)
include built

/-- The outlines of a registry that was built have one entry at most. -/
theorem build_singleEntry : Outline.SingleEntry (all decls) := by
  obtain ⟨linked, linkedOk, _⟩ := bind_ok_iff.mp built
  obtain ⟨outlines, collected, _⟩ := bind_ok_iff.mp linkedOk
  have isAll := (collect_ok collected ⟨by simp, by simp⟩).1
  rw [nil_append] at isAll
  rw [← isAll]
  exact collect_singleEntry .nil collected

omit built in
/-- Two numbers whose declarations are entries are the same. -/
theorem EntryAt.unique (single : Outline.SingleEntry (all decls))
    {first second : Nat} (isFirst : EntryAt decls first)
    (isSecond : EntryAt decls second) : first = second := by
  obtain ⟨one, oneFound, oneEntry⟩ := entryAt_iff.mp isFirst
  obtain ⟨two, twoFound, twoEntry⟩ := entryAt_iff.mp isSecond
  obtain ⟨oneBound, rfl⟩ := List.getElem?_eq_some_iff.mp oneFound
  obtain ⟨twoBound, rfl⟩ := List.getElem?_eq_some_iff.mp twoFound
  rcases Nat.lt_trichotomy first second with before | same | after
  · have apart := pairwise_iff_getElem.mp single first second oneBound twoBound before oneEntry
    rw [apart] at twoEntry
    cases twoEntry
  · exact same
  · have apart := pairwise_iff_getElem.mp single second first twoBound oneBound after twoEntry
    rw [apart] at oneEntry
    cases oneEntry

/-- Every definition of a built registry is that of its declaration. -/
theorem build_renders :
    Forall₂ Definition.Renders
      (decls.filter introducesName) reg.definitions := by
  rw [← all_statements, forall₂_map_left_iff]
  refine forall₂_imp (build_ok built).2.1 fun outline outlined defn linked => ?_
  obtain ⟨fields, same, fieldwise⟩ := linkOutline_ok linked
  obtain ⟨stmt, _, made⟩ := mem_filterMap.mp outlined
  obtain ⟨name, named, rfl⟩ := Option.map_eq_some_iff.mp made
  refine renders_of_withFields named ?_ same
  exact (map_eq_of_forall₂ fieldwise fun field linked done =>
    (linkField_ok done).1.symm).symm

/-- A registry that was built has the invariant. -/
theorem build_invariant : reg.Invariant decls := by
  obtain ⟨apart, pairwise, isEntry⟩ := build_ok built
  constructor
  case rendered => exact build_renders built
  case distinct => exact build_distinct built
  case unreserved =>
    intro defn member
    have named : defn.name ∈ (Outline.all decls).map Outline.name :=
      build_names built ▸ mem_map_of_mem member
    obtain ⟨outline, outlined, same⟩ := mem_map.mp named
    rw [← same]
    exact apart.unreserved outline outlined
  case lookup =>
    intro name id
    rw [lookup?_eq_some_iff (build_distinct built), getElem?_map]
    rfl
  case entry =>
    intro id
    have single := build_singleEntry built
    rw [isEntry, findIdx?_eq_some_iff_getElem]
    constructor
    · rintro ⟨bound, holds, _⟩
      have isId : EntryAt decls id := entryAt_iff.mpr ⟨_, getElem?_eq_getElem bound, holds⟩
      exact ⟨isId, fun other isOther => isOther.unique single isId⟩
    · rintro ⟨isId, _⟩
      obtain ⟨outline, found, holds⟩ := entryAt_iff.mp isId
      obtain ⟨bound, rfl⟩ := List.getElem?_eq_some_iff.mp found
      refine ⟨bound, holds, fun earlier before isEarlier => ?_⟩
      have isOther : EntryAt decls earlier :=
        entryAt_iff.mpr ⟨_, getElem?_eq_getElem (by omega), isEarlier⟩
      have same := isOther.unique single isId
      omega
  case linked => exact build_linked built
  case constrained =>
    refine build_keeps (fun _ => constrained_of_skeleton) ?_ built
    intro stmt member rule stated defn next applied
    exact applyRule_constrained
      (fun call called => ⟨stmt, member, rule, stated, rfl, called⟩) applied

end Registry

end SchemaLang
