import SchemaLang.Proofs.Declaration.Places
import SchemaLang.Proofs.Registry.Invariant

/-!
# Where faults of building stand

Building a registry stops at the first thing that is wrong: a name that is taken, a second entry,
a reference that leads nowhere, a validation block that does not fit. Each of these faults stands
at a place of a declaration. Where a name is taken, the fault also says by what, which is a
built-in type or an earlier declaration.

Numbers of definitions that do not exist never come up, since a validation block is only attached
to a definition that was found or counted.
-/

namespace SchemaLang

open Outcome List Outline FailsOnly

variable {defn : Definition}

namespace Definition

/-- Where a definition stands, and where its fields do. -/
def places (definition : Definition) : List Location :=
  definition.location :: definition.fields.map DefinedField.location

theorem places_field {field : DefinedField} (isField : field ∈ defn.fields) :
    field.location ∈ defn.places :=
  mem_cons_of_mem _ (mem_map_of_mem isField)

end Definition

/-! ## Constraints -/

namespace Call

/-- A constraint is not known or not valid, at the place where it is called. -/
inductive Fault (call : Call) : Error → Prop where
  | unknown : Fault call (.unknownConstraint call.name call.location)
  | invalid (cause : ConstraintFault) : Fault call (.invalidConstraint cause call.location)

variable (call : Call)

theorem function_failsOnly : FailsOnly call.Fault call.function := by
  unfold function
  split
  · exact .of_ok ⟨_, rfl⟩
  · exact .error .unknown

theorem number_failsOnly : FailsOnly call.Fault call.number := by
  unfold number
  split
  · exact .of_ok ⟨_, rfl⟩
  · exact .error (.invalid _)

theorem length_failsOnly : FailsOnly call.Fault call.length := by
  unfold length
  split
  · split
    · exact .of_ok ⟨_, rfl⟩
    · exact .error (.invalid _)
  · exact .error (.invalid _)

theorem pattern_failsOnly : FailsOnly call.Fault call.pattern := by
  unfold pattern
  split
  · split
    · exact .of_ok ⟨_, rfl⟩
    · exact .error (.invalid _)
  · exact .error (.invalid _)

theorem literals_failsOnly : FailsOnly call.Fault call.literals := by
  unfold literals
  split
  · exact .error (.invalid _)
  · exact .of_ok ⟨_, rfl⟩

theorem onField_failsOnly : FailsOnly call.Fault call.onField := by
  refine call.function_failsOnly.bind fun function _ => ?_
  cases function with
  | pattern => exact call.pattern_failsOnly.bind fun _ _ => .of_ok ⟨_, rfl⟩
  | minLength | maxLength => exact call.length_failsOnly.bind fun _ _ => .of_ok ⟨_, rfl⟩
  | minimum | maximum | exclusiveMinimum | exclusiveMaximum =>
    exact call.number_failsOnly.bind fun _ _ => .of_ok ⟨_, rfl⟩
  | oneOf => exact call.literals_failsOnly.bind fun _ _ => .of_ok ⟨_, rfl⟩
  | required => exact .error (.invalid _)

theorem fieldName_failsOnly (owner : Definition) (argument : Argument) :
    FailsOnly call.Fault (call.fieldName owner argument) := by
  have checked : ∀ name, FailsOnly call.Fault
      (if owner.fields.any fun field => field.name = name then .ok name
        else .error (call.invalid (.noSuchField owner.name name))) := by
    intro name
    split
    · exact .of_ok ⟨_, rfl⟩
    · exact .error (.invalid _)
  cases argument with
  | text name | word name => exact checked name
  | number value => exact .error (.invalid _)

theorem onSelf_failsOnly (owner : Definition) : FailsOnly call.Fault (call.onSelf owner) := by
  refine call.function_failsOnly.bind fun function _ => ?_
  split
  · split
    · exact .error (.invalid _)
    · exact .mapM fun argument _ => call.fieldName_failsOnly owner argument
  · exact .error (.invalid _)

end Call

/-- A validation block does not fit, at the place of a rule or of one of its constraints. -/
inductive Rule.Fault (rule : Rule) : Error → Prop where
  | call {call : Call} {fault : Error} (isCall : call ∈ rule.calls) (faulty : call.Fault fault) :
      Fault rule fault
  | noSuchField (owner : String) :
      Fault rule (.invalidConstraint (.noSuchField owner rule.key) rule.location)

theorem Registry.applyRule_failsOnly (defn : Definition) (rule : Rule) :
    FailsOnly rule.Fault (applyRule defn rule) := by
  unfold applyRule
  split
  · refine bind ?_ fun _ _ => .of_ok ⟨_, rfl⟩
    exact .mapM fun call isCall fault failed =>
      .call isCall (call.onSelf_failsOnly defn fault failed)
  · split
    · exact .error (.noSuchField _)
    · refine bind ?_ fun _ _ => .of_ok ⟨_, rfl⟩
      exact .mapM fun call isCall fault failed =>
        .call isCall (call.onField_failsOnly fault failed)

/-! ## Names -/

namespace Outline

/-- Why a declaration cannot be added to those before it. -/
inductive Refusal (earlier : List Outline) (statement : ScopedDeclaration) : Error → Prop where
  | builtIn {name : String} (named : statement.qualifiedName? = some name)
      (isBuiltIn : (Primitive.ofKeyword? name).isSome = true) :
      Refusal earlier statement
        (.duplicateDeclaration name statement.declaration.location .builtin)
  | repeated {previous : Outline} (isEarlier : previous ∈ earlier)
      (named : statement.qualifiedName? = some previous.name) :
      Refusal earlier statement
        (.duplicateDeclaration previous.name statement.declaration.location previous.location)
  | secondEntry (name previous : String) :
      Refusal earlier statement (.multipleEntries name previous statement.declaration.location)

theorem add_failsOnly (earlier : List Outline) (stmt : ScopedDeclaration) :
    FailsOnly (Refusal earlier stmt) (add earlier stmt) := by
  unfold add
  split
  · exact .of_ok ⟨_, rfl⟩
  · rename_i name named
    dsimp only
    split
    · rename_i isBuiltIn
      exact .error (.builtIn named isBuiltIn)
    · split
      · rename_i previous found
        have sameName : previous.name = name := by simpa using find?_some found
        subst sameName
        exact .error (.repeated (mem_of_find?_eq_some found) named)
      · split
        · exact .error (.secondEntry _ _)
        · exact .of_ok ⟨_, rfl⟩

theorem all_cons (stmt : ScopedDeclaration) (rest : List ScopedDeclaration) :
    all (stmt :: rest) = (ofStatement? stmt).toList ++ all rest := by
  unfold all
  cases named : ofStatement? stmt with
  | none => exact filterMap_cons_none named
  | some outline => exact filterMap_cons_some named

variable {statement stmt : ScopedDeclaration}

/-- Collecting names stops at a declaration that cannot be added to all those before it. -/
theorem collect_failsOnly (decls : List ScopedDeclaration) {start : List Outline}
    (apart : Apart start) :
    FailsOnly (fun fault => ∃ before stmt after,
        decls = before ++ stmt :: after ∧
          Refusal (start ++ all before) stmt fault)
      (decls.foldlM add start) := by
  induction decls generalizing start with
  | nil => exact .of_ok ⟨start, rfl⟩
  | cons stmt rest ih =>
    rw [foldlM_cons]
    refine bind (fun fault refused => ⟨[], stmt, rest, rfl, ?_⟩) ?_
    · rw [all, filterMap_nil, append_nil]
      exact add_failsOnly start stmt fault refused
    · intro later added fault failed
      obtain ⟨rfl, stillApart⟩ := add_ok added apart
      obtain ⟨before, other, after, rfl, refusal⟩ := ih stillApart fault failed
      refine ⟨stmt :: before, other, after, rfl, ?_⟩
      rwa [all_cons, ← append_assoc]

end Outline

/-! ## References -/

namespace FieldType

variable {ρ σ ε : Type} {replace : ρ → Except ε σ} {kind : ε → Prop}

variable (each : ∀ target, FailsOnly kind (replace target))
include each

/-- Linking a type fails only as replacing a reference does. -/
theorem link_failsOnly (type : FieldType ρ) : FailsOnly kind (type.link replace) := by
  induction type with
  | primitive _ | range _ _ _ => exact .of_ok ⟨_, rfl⟩
  | reference target => exact (each target).bind fun _ _ => .of_ok ⟨_, rfl⟩
  | array item ih | optional item ih =>
    rw [link]
    exact ih.bind fun _ _ => .of_ok ⟨_, rfl⟩
  | union arms ofArm =>
    rw [link, linkAll_eq_mapM]
    exact (mapM ofArm).bind fun _ _ => .of_ok ⟨_, rfl⟩

end FieldType

namespace Registry

/-! ## Building -/

/-- What can go wrong when a registry is built. -/
inductive BuildFault (declarations : List ScopedDeclaration) : Error → Prop where
  | refused {before after : List ScopedDeclaration} {statement : ScopedDeclaration} {fault : Error}
      (isThere : declarations = before ++ statement :: after)
      (refusal : Outline.Refusal (all before) statement fault) :
      BuildFault declarations fault
  | unresolved {statement : ScopedDeclaration} {field : Field} (member : statement ∈ declarations)
      (isField : field ∈ statement.declaration.fields) (name owner : String) :
      BuildFault declarations (.unresolvedReference name field.name owner field.location)
  | block {statement : ScopedDeclaration} {content : ValidationBlock}
      (member : statement ∈ declarations) (isBlock : statement.declaration = .validation content)
      (cause : ConstraintFault) :
      BuildFault declarations (.invalidConstraint cause content.location)
  | rule {statement : ScopedDeclaration} {rule : Rule} {fault : Error}
      (member : statement ∈ declarations) (isRule : rule ∈ statement.declaration.rules)
      (faulty : rule.Fault fault) : BuildFault declarations fault

variable {decls : List ScopedDeclaration} {field : Field}

theorem linkField_failsOnly (names : Registry) (outline : Outline)
    (member : outline.statement ∈ decls)
    (isField : field ∈ outline.statement.declaration.fields) :
    FailsOnly (BuildFault decls) (linkField names outline field) := by
  refine bind (FieldType.link_failsOnly (fun name => ?_) field.type) fun _ _ =>
    .of_ok ⟨_, rfl⟩
  split
  · exact .of_ok ⟨_, rfl⟩
  · exact .error (.unresolved member isField _ _)

theorem linkOutline_failsOnly (names : Registry) {outline : Outline}
    (member : outline.statement ∈ decls) :
    FailsOnly (BuildFault decls) (linkOutline names outline) := by
  have fieldwise : ∀ fields : List Field, fields = outline.statement.declaration.fields →
      FailsOnly (BuildFault decls) (fields.mapM (linkField names outline)) := by
    rintro _ rfl
    exact .mapM fun field isField => linkField_failsOnly names outline member isField
  unfold linkOutline
  dsimp only
  cases stated : outline.statement.declaration with
  | record content | entry content =>
    rw [stated] at fieldwise
    exact (fieldwise content.fields rfl).bind fun _ _ => .of_ok ⟨_, rfl⟩
  | _ => exact .of_ok ⟨_, rfl⟩

/-- Linking gives one definition for each declaration with a name. -/
theorem link_failsOnly (decls : List ScopedDeclaration) :
    FailsOnly (BuildFault decls) (link decls) := by
  have nothing : Outline.Apart [] := ⟨by simp, by simp⟩
  refine bind ?_ fun outlines collected => ?_
  · intro fault failed
    obtain ⟨before, stmt, after, isThere, refusal⟩ := collect_failsOnly decls nothing fault failed
    exact .refused isThere refusal
  · obtain ⟨isAll, _⟩ := collect_ok collected nothing
    refine bind (.mapM fun outline listed => ?_) fun _ _ => .of_ok ⟨_, rfl⟩
    rw [isAll, nil_append] at listed
    obtain ⟨stmt, stated, made⟩ := mem_filterMap.mp listed
    obtain ⟨name, _, rfl⟩ := Option.map_eq_some_iff.mp made
    exact linkOutline_failsOnly _ stated

theorem link_size {linked : Registry} (done : link decls = .ok linked) :
    linked.size = (Outline.all decls).length := by
  obtain ⟨outlines, collected, rest⟩ := bind_ok_iff.mp done
  obtain ⟨defns, mapped, same⟩ := bind_ok_iff.mp rest
  obtain rfl := Except.ok.inj same
  obtain ⟨isAll, _⟩ := collect_ok collected ⟨by simp, by simp⟩
  rw [nil_append] at isAll
  rw [← isAll]
  exact (mapM_ok_iff.mp mapped).length_eq.symm

variable {reg : Registry} {statement stmt : ScopedDeclaration} {block : ValidationBlock}
  {preceding? : Option (Nat × Nat)}

/-- The definition that a block is about is not found, at the place of the block. -/
theorem validationTarget_failsOnly :
    FailsOnly (fun fault => ∃ cause, fault = .invalidConstraint cause block.location)
      (reg.validationTarget stmt block preceding?) := by
  unfold validationTarget
  dsimp only
  split
  · split
    · exact .error ⟨_, rfl⟩
    · split
      · exact .error ⟨_, rfl⟩
      · exact .of_ok ⟨_, rfl⟩
  · split
    · split
      · exact .of_ok ⟨_, rfl⟩
      · exact .error ⟨_, rfl⟩
    · exact .error ⟨_, rfl⟩

/-- The definition that a block is about exists. -/
theorem validationTarget_lt {id : Nat}
    (counted : ∀ unit before, preceding? = some (unit, before) → before < reg.size)
    (found : reg.validationTarget stmt block preceding? = .ok id) :
    id < reg.size := by
  unfold validationTarget at found
  dsimp only at found
  split at found
  · split at found
    · cases found
    · rename_i named
      split at found
      · cases found
      · cases found
        exact lookupIn?_lt named
  · split at found
    · rename_i isPreceding
      split at found
      · cases found
        exact counted _ _ rfl
      · cases found
    · cases found

theorem applyBlock_failsOnly {id : Nat} (bound : id < reg.size) :
    FailsOnly (fun fault => ∃ rule ∈ block.rules, rule.Fault fault)
      (reg.applyBlock block id) := by
  have found : reg.get? id = some (reg.definitions.get ⟨id, bound⟩) := getElem?_eq_getElem bound
  rw [applyBlock, found]
  refine bind ?_ fun _ _ => .of_ok ⟨_, rfl⟩
  exact .foldlM (fun defn rule isRule fault failed =>
    ⟨rule, isRule, applyRule_failsOnly defn rule fault failed⟩) _

/-- Attaching validation blocks fails only at a block or at one of its rules. The definitions that
are still to come are counted, so the number of the last record is always one of the registry. -/
theorem applyBlocks_failsOnly {next : Nat} {others : List ScopedDeclaration}
    (among : ∀ stmt ∈ others, stmt ∈ decls)
    (counted : next + (Outline.all others).length = reg.size)
    (earlier : ∀ unit before, preceding? = some (unit, before) → before < next) :
    FailsOnly (BuildFault decls) (applyBlocks next preceding? reg others) := by
  induction others generalizing next preceding? reg with
  | nil => exact .of_ok ⟨_, rfl⟩
  | cons stmt others ih =>
    obtain ⟨member, amongOthers⟩ := forall_mem_cons.mp among
    -- A declaration with a name is counted, and the last record is one of those before.
    have counts : ∀ name, stmt.declaration.name? = some name →
        next + 1 + (Outline.all others).length = reg.size := by
      intro name named
      rw [Outline.all_cons, ofStatement?, ScopedDeclaration.qualifiedName?, named] at counted
      exact (Nat.add_right_comm next 1 _).trans counted
    have skips : stmt.declaration.name? = none →
        next + (Outline.all others).length = reg.size := by
      intro unnamed
      rwa [Outline.all_cons, ofStatement?, ScopedDeclaration.qualifiedName?, unnamed] at counted
    have isLast : ∀ unit before, some (stmt.unit, next) = some (unit, before) →
        before < next + 1 := by
      rintro _ _ ⟨⟩
      exact Nat.lt_succ_self next
    rw [applyBlocks]
    cases stated : stmt.declaration with
    | moduleImport content =>
      exact ih amongOthers (skips (by rw [stated]; rfl)) earlier
    | enumeration content =>
      refine ih amongOthers (counts content.name (by rw [stated]; rfl)) ?_
      exact fun unit before isPreceding => Nat.lt_succ_of_lt (earlier unit before isPreceding)
    | record content | entry content =>
      exact ih amongOthers (counts content.name (by rw [stated]; rfl)) isLast
    | validation block =>
      have bounded : ∀ unit before, preceding? = some (unit, before) → before < reg.size := by
        intro unit before isPreceding
        have := earlier unit before isPreceding
        omega
      dsimp only
      split
      · rename_i fault failed
        obtain ⟨cause, rfl⟩ := validationTarget_failsOnly fault failed
        exact .error (.block member stated cause)
      · rename_i id found
        split
        · rename_i fault failed
          obtain ⟨rule, isRule, faulty⟩ :=
            applyBlock_failsOnly (validationTarget_lt bounded found) fault failed
          refine .error (.rule member ?_ faulty)
          rwa [stated]
        · rename_i changed applied
          refine ih amongOthers ?_ earlier
          have sameLength := congrArg length (applyBlock_skeleton applied).1
          rw [length_map, length_map] at sameLength
          rw [size, sameLength]
          exact skips (by rw [stated]; rfl)

/-- Building a registry fails only in the ways that are listed. -/
theorem build_failsOnly (decls : List ScopedDeclaration) :
    FailsOnly (BuildFault decls) (build decls) := by
  refine (link_failsOnly decls).bind fun linked done => ?_
  apply applyBlocks_failsOnly
  · exact fun _ member => member
  · rw [Nat.zero_add, link_size done]
  · exact nofun

/-! ## Places -/

/-- One of the declarations, or something that belongs to it, stands at a place. -/
def Stands (declarations : List ScopedDeclaration) (place : Location) : Prop :=
  ∃ statement ∈ declarations, place ∈ statement.declaration.places

section

variable (member : stmt ∈ decls)
include member

theorem stands_location : Stands decls stmt.declaration.location :=
  ⟨stmt, member, stmt.declaration.location_mem_places⟩

theorem stands_field (isField : field ∈ stmt.declaration.fields) : Stands decls field.location := by
  refine ⟨stmt, member, ?_⟩
  cases stated : stmt.declaration with
  | record _ | entry _ =>
    rw [stated] at isField
    exact mem_cons_of_mem _ (mem_map_of_mem isField)
  | _ =>
    rw [stated] at isField
    cases isField

theorem stands_rule {rule : Rule} (isRule : rule ∈ stmt.declaration.rules) {place : Location}
    (isPlace : place ∈ rule.places) : Stands decls place := by
  refine ⟨stmt, member, ?_⟩
  cases stated : stmt.declaration with
  | validation content =>
    rw [stated] at isRule
    exact mem_cons_of_mem _ (mem_flatMap.mpr ⟨rule, isRule, isPlace⟩)
  | _ =>
    rw [stated] at isRule
    cases isRule

end

/-- A fault of building stands where a declaration does. -/
theorem BuildFault.stands {fault : Error} (faulty : BuildFault decls fault) :
    ∃ place, fault.location? = some place ∧ Stands decls place := by
  cases faulty with
  | refused isThere refusal =>
    have stands := stands_location (isThere ▸ mem_append_right _ mem_cons_self)
    cases refusal <;> exact ⟨_, rfl, stands⟩
  | unresolved member isField name owner => exact ⟨_, rfl, stands_field member isField⟩
  | block member isBlock cause =>
    have stands := stands_location member
    rw [isBlock] at stands
    exact ⟨_, rfl, stands⟩
  | rule member isRule faulty =>
    cases faulty with
    | call isCall faulty =>
      have stands := stands_rule member isRule
        (mem_cons_of_mem _ (mem_map_of_mem isCall))
      cases faulty <;> exact ⟨_, rfl, stands⟩
    | noSuchField owner => exact ⟨_, rfl, stands_rule member isRule mem_cons_self⟩

/-- The definitions of a built registry and their fields stand where declarations do. -/
theorem build_stands {reg : Registry} (built : build decls = .ok reg)
    {defn : Definition} (member : defn ∈ reg.definitions) {place : Location}
    (isPlace : place ∈ defn.places) : Stands decls place := by
  rcases mem_cons.mp isPlace with rfl | isField
  · obtain ⟨stmt, stated, renders⟩ := exists_left (build_renders built) member
    rw [renders.location]
    exact stands_location (mem_filter.mp stated).1
  · obtain ⟨field, listed, rfl⟩ := mem_map.mp isField
    obtain ⟨outline, stated, _, links⟩ := build_origin built member
    obtain ⟨origin, isOrigin, done⟩ := exists_left links (mem_map_of_mem listed)
    obtain ⟨type, _, same⟩ := bind_ok_iff.mp done
    show Stands decls field.skeleton.location
    rw [← Except.ok.inj same]
    exact stands_field stated isOrigin

end Registry

end SchemaLang
