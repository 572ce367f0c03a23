import SchemaLang.Proofs.Registry.Order

/-!
# Declarations under an alias

Declarations outside of any scope can be put into one, as an import with an alias does with those of
a module. Every name is then looked up in another way, first with the alias in front of it. Since a
name with an alias is never that of a built-in type, and different names stay different, what was
found before is found again under the same number. So the registry of the declarations under the
alias is the same registry with the alias in front of every name.

The converse fails: a name that is refused outside of a scope because it is built in may stand in
one.
-/

namespace SchemaLang

open Outcome List

variable {scope : String}

/-- A declaration, put into a scope. -/
def ScopedDeclaration.inScope (scope : String) (statement : ScopedDeclaration) :
    ScopedDeclaration :=
  { statement with scope? := some scope }

def Outline.inScope (scope : String) (outline : Outline) : Outline :=
  ⟨qualify (some scope) outline.name, outline.statement.inScope scope⟩

/-- A definition under its name in a scope. -/
def Definition.inScope (scope : String) (definition : Definition) : Definition :=
  { definition with name := qualify (some scope) definition.name, scope? := some scope }

/-- A registry with all its definitions in a scope. -/
def Registry.inScope (scope : String) (registry : Registry) : Registry :=
  { registry with definitions := registry.definitions.map (Definition.inScope scope) }

/-! ## Names -/

/-- A name with an alias in front of it is not that of a built-in type. -/
theorem ofKeyword?_qualify (name : String) :
    Primitive.ofKeyword? (qualify (some scope) name) = none := by
  rw [Primitive.ofKeyword?, find?_eq_none]
  intro kind _ named
  have point : '.' ∈ kind.keyword.toList := by
    rw [of_decide_eq_true named]
    simp [qualify]
  revert point
  cases kind <;> decide

variable {decls : List ScopedDeclaration} {stmt : ScopedDeclaration}

namespace Outline

theorem ofStatement?_inScope (unscoped : stmt.scope? = none) :
    ofStatement? (stmt.inScope scope) = (ofStatement? stmt).map (Outline.inScope scope) := by
  unfold ofStatement? ScopedDeclaration.qualifiedName?
  rw [unscoped, Option.map_map, Option.map_map, Option.map_map]
  rfl

/-- The declarations that introduce names are the same in a scope. -/
theorem all_inScope (unscoped : ∀ stmt ∈ decls, stmt.scope? = none) :
    all (decls.map (ScopedDeclaration.inScope scope)) =
      (all decls).map (Outline.inScope scope) := by
  rw [all, all, filterMap_map, map_filterMap]
  exact filterMap_congr fun stmt member =>
    ofStatement?_inScope (unscoped stmt member)

theorem mem_all {outline : Outline} (member : outline ∈ all decls) : outline.statement ∈ decls := by
  obtain ⟨stmt, isStatement, named⟩ := mem_filterMap.mp member
  obtain ⟨name, _, rfl⟩ := Option.map_eq_some_iff.mp named
  exact isStatement

variable {outlines : List Outline}

theorem Apart.inScope (apart : Apart outlines) :
    Apart (outlines.map (Outline.inScope scope)) where
  distinct := by
    have renamed : (outlines.map (Outline.inScope scope)).map Outline.name =
        (outlines.map Outline.name).map (qualify (some scope)) := by
      rw [map_map, map_map]
      rfl
    rw [renamed]
    exact apart.distinct.map fun _ _ => qualify_inj.mp
  unreserved := by
    intro other member
    obtain ⟨outline, _, rfl⟩ := mem_map.mp member
    exact ofKeyword?_qualify outline.name

theorem SingleEntry.inScope (single : SingleEntry outlines) :
    SingleEntry (outlines.map (Outline.inScope scope)) :=
  pairwise_map.mpr single

end Outline

/-! ## Linking -/

variable {find other : String → Except Error Nat}

section

variable (finds : ∀ name id, find name = .ok id → other name = .ok id)
include finds

/-- A type that is linked is linked in the same way wherever its references have the same
meanings. -/
theorem FieldType.link_of_finds {type : FieldType String} {linked : FieldType Nat}
    (done : type.link find = .ok linked) : type.link other = .ok linked := by
  induction type generalizing linked with
  | primitive _ | range _ _ _ => exact done
  | reference target =>
    obtain ⟨id, found, rfl⟩ := map_ok_iff.mp done
    rw [link, finds target id found]
    rfl
  | array item ih | optional item ih =>
    obtain ⟨inner, found, rfl⟩ := map_ok_iff.mp done
    rw [link, ih found]
    rfl
  | union arms each =>
    obtain ⟨types, pairwise, rfl⟩ := link_union_ok done
    have others := mapM_ok_iff.mpr (forall₂_imp pairwise fun arm isArm _ => each arm isArm)
    rw [link, linkAll_eq_mapM, others]
    rfl

end

variable {defn : Definition}

namespace Registry

variable {reg : Registry} {outline : Outline}

theorem get?_inScope (reg : Registry) (id : Nat) :
    (reg.inScope scope).get? id = (reg.get? id).map (Definition.inScope scope) :=
  getElem?_map

/-- A name with the alias means what the name means without it. -/
theorem lookup?_inScope (reg : Registry) (name : String) :
    (reg.inScope scope).lookup? (qualify (some scope) name) = reg.lookup? name := by
  unfold lookup? inScope
  rw [findIdx?_map]
  refine congrArg (findIdx? · reg.definitions) (funext fun defn => ?_)
  exact decide_eq_decide.mpr (@qualify_inj (some scope) defn.name name)

/-- What a name means outside of the scope it means inside. -/
theorem lookupIn?_inScope {name : String} {id : Nat}
    (found : reg.lookupIn? none name = some id) :
    (reg.inScope scope).lookupIn? (some scope) name = some id := by
  rw [lookupIn?, lookup?_inScope, show reg.lookup? name = some id from found]
  rfl

theorem ofOutlines_inScope (outlines : List Outline) :
    ofOutlines (outlines.map (Outline.inScope scope)) = (ofOutlines outlines).inScope scope := by
  unfold ofOutlines inScope
  rw [map_map, map_map, findIdx?_map]
  rfl

theorem linkField_inScope {field : Field} {linked : DefinedField}
    (unscoped : outline.statement.scope? = none)
    (done : linkField reg outline field = .ok linked) :
    linkField (reg.inScope scope) (outline.inScope scope) field = .ok linked := by
  rw [linkField_eq] at done ⊢
  obtain ⟨type, found, same⟩ := bind_ok_iff.mp done
  refine bind_ok_iff.mpr ⟨type, FieldType.link_of_finds ?_ found, same⟩
  intro name id refers
  unfold referred at refers ⊢
  rw [unscoped] at refers
  cases means : reg.lookupIn? none name with
  | none =>
    rw [means] at refers
    cases refers
  | some other =>
    rw [means] at refers
    cases refers
    rw [show (outline.inScope scope).statement.scope? = some scope from rfl,
      lookupIn?_inScope means]

theorem linkOutline_inScope (unscoped : outline.statement.scope? = none)
    (done : linkOutline reg outline = .ok defn) :
    linkOutline (reg.inScope scope) (outline.inScope scope) = .ok (defn.inScope scope) := by
  have fields {content : RecordDeclaration} {linked : List DefinedField}
      (found : content.fields.mapM (linkField reg outline) = .ok linked) :
      content.fields.mapM (linkField (reg.inScope scope) (outline.inScope scope)) =
        .ok linked :=
    mapM_ok_iff.mpr ((mapM_ok_iff.mp found).imp fun _ _ =>
      linkField_inScope unscoped)
  obtain ⟨name, scope?, unit, decl⟩ := outline
  cases decl with
  | record content | entry content =>
    obtain ⟨linked, found, same⟩ := bind_ok_iff.mp done
    cases same
    exact bind_ok_iff.mpr ⟨linked, fields found, rfl⟩
  | moduleImport content | enumeration content | validation content =>
    cases done
    rfl

theorem link_inScope (unscoped : ∀ stmt ∈ decls, stmt.scope? = none)
    (linked : link decls = .ok reg) :
    link (decls.map (ScopedDeclaration.inScope scope)) = .ok (reg.inScope scope) := by
  obtain ⟨apart, single, defns, pairwise, rfl⟩ := link_ok_iff.mp linked
  rw [link_ok_iff, Outline.all_inScope unscoped, ofOutlines_inScope]
  refine ⟨apart.inScope, single.inScope, defns.map (Definition.inScope scope), ?_, ?_⟩
  · rw [forall₂_map_left_iff, forall₂_map_right_iff]
    refine forall₂_imp pairwise fun outline member defn done => ?_
    exact linkOutline_inScope (unscoped outline.statement (Outline.mem_all member)) done
  · rw [findIdx?_map]
    rfl

end Registry

/-! ## Validation blocks -/

namespace Call

theorem fieldName_inScope {call : Call} {owner : Definition} {argument : Argument} {name : String}
    (done : call.fieldName owner argument = .ok name) :
    call.fieldName (owner.inScope scope) argument = .ok name := by
  have checked {word : String}
      (found : (if owner.fields.any fun field => field.name = word then Except.ok word
        else .error (call.invalid (.noSuchField owner.name word))) = .ok name) :
      (if (owner.inScope scope).fields.any fun field => field.name = word then Except.ok word
        else .error (call.invalid (.noSuchField (owner.inScope scope).name word))) = .ok name := by
    rw [show (owner.inScope scope).fields = owner.fields from rfl]
    split at found
    · rename_i isField
      rw [if_pos isField, found]
    · cases found
  cases argument with
  | word _ | text _ => exact checked done
  | number value => cases done

theorem onSelf_inScope {call : Call} {owner : Definition} {names : List String}
    (done : call.onSelf owner = .ok names) : call.onSelf (owner.inScope scope) = .ok names := by
  obtain ⟨function, isFunction, done⟩ := bind_ok_iff.mp done
  refine bind_ok_iff.mpr ⟨function, isFunction, ?_⟩
  cases function with
  | required =>
    dsimp only at done ⊢
    split at done
    · cases done
    · rename_i filled
      rw [if_neg filled, mapM_ok_iff]
      exact (mapM_ok_iff.mp done).imp fun _ _ => fieldName_inScope
  | _ => cases done

end Call

namespace Registry

variable {reg changed : Registry}

/-- A rule changes a definition in a scope as it does outside. -/
theorem applyRule_inScope {changed : Definition} {rule : Rule}
    (applied : applyRule defn rule = .ok changed) :
    applyRule (defn.inScope scope) rule = .ok (changed.inScope scope) := by
  have sameFields : (defn.inScope scope).fields = defn.fields := rfl
  unfold applyRule
  obtain ⟨isSelf, required, called, rfl⟩ | ⟨notSelf, position, constraints, found, called, rfl⟩ :=
    applyRule_ok applied
  · rw [if_pos isSelf]
    refine bind_ok_iff.mpr ⟨required, ?_, rfl⟩
    exact mapM_ok_iff.mpr ((mapM_ok_iff.mp called).imp fun _ _ => Call.onSelf_inScope)
  · rw [if_neg notSelf, sameFields, found]
    exact bind_ok_iff.mpr ⟨constraints, called, rfl⟩

theorem applyRules_inScope {rules : List Rule} {changed : Definition}
    (applied : rules.foldlM applyRule defn = .ok changed) :
    rules.foldlM applyRule (defn.inScope scope) = .ok (changed.inScope scope) := by
  induction rules generalizing defn with
  | nil =>
    cases applied
    rfl
  | cons rule rules ih =>
    rw [foldlM_cons] at applied ⊢
    obtain ⟨next, first, others⟩ := bind_ok_iff.mp applied
    exact bind_ok_iff.mpr ⟨_, applyRule_inScope first, ih others⟩

variable {block : ValidationBlock} {preceding? : Option (Nat × Nat)}

theorem validationTarget_inScope {stmt : ScopedDeclaration} {id : Nat}
    (unscoped : stmt.scope? = none)
    (found : reg.validationTarget stmt block preceding? = .ok id) :
    (reg.inScope scope).validationTarget (stmt.inScope scope) block preceding? = .ok id := by
  unfold validationTarget at found ⊢
  cases named : block.target? with
  | none =>
    rw [named] at found
    exact found
  | some name =>
    rw [named] at found
    dsimp only at found ⊢
    rw [unscoped] at found
    cases means : reg.lookupIn? none name with
    | none =>
      rw [means] at found
      cases found
    | some other =>
      rw [means] at found
      have sameBody : ((reg.inScope scope).get? other).map Definition.body =
          (reg.get? other).map Definition.body := by
        rw [get?_inScope, Option.map_map]
        rfl
      rw [show (stmt.inScope scope).scope? = some scope from rfl, lookupIn?_inScope means]
      dsimp only
      rw [sameBody]
      exact found

theorem applyBlock_inScope {id : Nat} (applied : reg.applyBlock block id = .ok changed) :
    (reg.inScope scope).applyBlock block id = .ok (changed.inScope scope) := by
  unfold applyBlock at applied ⊢
  rw [get?_inScope]
  cases found : reg.get? id with
  | none =>
    rw [found] at applied
    cases applied
  | some defn =>
    rw [found] at applied
    obtain ⟨final, ruled, same⟩ := bind_ok_iff.mp applied
    cases same
    refine bind_ok_iff.mpr ⟨_, applyRules_inScope ruled, congrArg Except.ok ?_⟩
    unfold set inScope
    rw [map_set]

variable (unscoped : ∀ stmt ∈ decls, stmt.scope? = none)
include unscoped

/-- Validation blocks change a registry in a scope as they do outside. -/
theorem applyBlocks_inScope {next : Nat}
    (applied : applyBlocks next preceding? reg decls = .ok changed) :
    applyBlocks next preceding? (reg.inScope scope)
        (decls.map (ScopedDeclaration.inScope scope)) =
      .ok (changed.inScope scope) := by
  induction decls generalizing next preceding? reg with
  | nil =>
    cases applied
    rfl
  | cons stmt others ih =>
    obtain ⟨here, there⟩ := forall_mem_cons.mp unscoped
    obtain ⟨scope?, unit, decl⟩ := stmt
    cases decl with
    | moduleImport _ | enumeration _ | record _ | entry _ => exact ih there applied
    | validation block =>
      rw [applyBlocks_validation rfl] at applied
      rw [map_cons, applyBlocks_validation rfl]
      obtain ⟨middle, attached, rest⟩ := bind_ok_iff.mp applied
      obtain ⟨id, found, blockApplied⟩ := bind_ok_iff.mp attached
      refine bind_ok_iff.mpr ⟨middle.inScope scope, ?_, ih there rest⟩
      exact bind_ok_iff.mpr
        ⟨id, validationTarget_inScope here found, applyBlock_inScope blockApplied⟩

/-- Declarations that make a registry make the same registry in a scope. -/
theorem build_inScope (built : build decls = .ok reg) :
    build (decls.map (ScopedDeclaration.inScope scope)) = .ok (reg.inScope scope) := by
  obtain ⟨linked, linkedOk, applied⟩ := bind_ok_iff.mp built
  exact bind_ok_iff.mpr
    ⟨_, link_inScope unscoped linkedOk, applyBlocks_inScope unscoped applied⟩

end Registry

end SchemaLang
