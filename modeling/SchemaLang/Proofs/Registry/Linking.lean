import SchemaLang.Proofs.FieldTypes
import SchemaLang.Registry.Build

/-!
# What a built registry holds

The passes over the declarations are taken apart here, once for all later results. The
first keeps the declarations with names, in their order, and makes sure that no name occurs
twice. The second turns each of them into the definition of the same number, with every
reference replaced by what its name means there. The third adds constraints and required
fields and nothing else: the definitions without these are the same before and after.
-/

namespace SchemaLang

open Outcome List Outline Definition

namespace FieldType

variable {ρ σ ε : Type}

mutual

/-- All references of a type, in the order of the text. -/
def references : FieldType ρ → List ρ
  | .primitive _ => []
  | .reference target => [target]
  | .array item => item.references
  | .optional inner => inner.references
  | .union arms => referencesOfAll arms
  | .range _ _ _ => []

/-- All references of several types. -/
def referencesOfAll : List (FieldType ρ) → List ρ
  | [] => []
  | type :: types => type.references ++ referencesOfAll types

end

theorem referencesOfAll_eq_flatMap (types : List (FieldType ρ)) :
    referencesOfAll types = types.flatMap references := by
  induction types with
  | nil => rfl
  | cons type types ih => rw [referencesOfAll, ih, flatMap_cons]

theorem mem_referencesOfAll {types : List (FieldType ρ)} {target : ρ} :
    target ∈ referencesOfAll types ↔ ∃ type ∈ types, target ∈ type.references := by
  rw [referencesOfAll_eq_flatMap, mem_flatMap]

/-- Linking replaces the references one by one, each at its place. -/
theorem link_references {replace : ρ → Except ε σ} {type : FieldType ρ} {linked : FieldType σ}
    (done : type.link replace = .ok linked) :
    Forall₂ (fun name id => replace name = .ok id) type.references linked.references := by
  induction type generalizing linked with
  | primitive _ | range _ _ _ =>
    cases done
    exact .nil
  | reference target =>
    obtain ⟨id, found, rfl⟩ := map_ok_iff.mp done
    exact .cons found .nil
  | array item ih | optional item ih =>
    obtain ⟨inner, found, rfl⟩ := map_ok_iff.mp done
    simpa only [references] using ih found
  | union arms each =>
    obtain ⟨types, pairwise, rfl⟩ := link_union_ok done
    rw [references, references, referencesOfAll_eq_flatMap, referencesOfAll_eq_flatMap]
    exact rel_flatMap (forall₂_imp pairwise fun arm isArm _ => each arm isArm) fun _ _ same => same

end FieldType

/-! ## Names -/

variable {scope? : Option String}

/-- Different names stay different in a scope. -/
theorem qualify_inj {first second : String} :
    qualify scope? first = qualify scope? second ↔ first = second := by
  cases scope? with
  | none => exact Iff.rfl
  | some scope => exact String.append_right_inj (scope ++ ".")

variable {decls : List ScopedDeclaration}

namespace Outline

/-- The outline of a declaration, if it introduces a name. -/
def ofStatement? (statement : ScopedDeclaration) : Option Outline :=
  statement.qualifiedName?.map fun name => ⟨name, statement⟩

/-- The declarations that introduce names, with their names. -/
def all (declarations : List ScopedDeclaration) : List Outline :=
  declarations.filterMap ofStatement?

/-- Names that can stand side by side: they are different and none is built in. -/
structure Apart (outlines : List Outline) : Prop where
  distinct : (outlines.map name).Nodup
  unreserved : ∀ outline ∈ outlines, Primitive.ofKeyword? outline.name = none

variable {earlier : List Outline} {stmt : ScopedDeclaration}

/-- A declaration that is added has no name, or has one that is free. -/
theorem add_cases {later : List Outline} (added : add earlier stmt = .ok later) :
    (stmt.qualifiedName? = none ∧ later = earlier) ∨
      ∃ outline : Outline, outline.statement = stmt ∧
        stmt.qualifiedName? = some outline.name ∧
        Primitive.ofKeyword? outline.name = none ∧
        (∀ other ∈ earlier, other.name ≠ outline.name) ∧
        (outline.isEntry = true → ∀ other ∈ earlier, other.isEntry = false) ∧
        later = earlier ++ [outline] := by
  unfold add at added
  split at added
  · rename_i unnamed
    cases added
    exact .inl ⟨unnamed, rfl⟩
  · rename_i name named
    refine .inr ⟨⟨name, stmt⟩, rfl, named, ?_⟩
    split at added
    · cases added
    · rename_i unreserved
      split at added
      · cases added
      · rename_i isNew
        have free : ∀ other ∈ earlier, other.name ≠ name := by
          simpa using find?_eq_none.mp isNew
        dsimp only at added
        split at added
        · cases added
        · rename_i single
          cases added
          refine ⟨by simpa using unreserved, free, fun entry other member => ?_, rfl⟩
          cases first : earlier.find? isEntry with
          | none => simpa using find?_eq_none.mp first other member
          | some previous => exact (single previous first entry).elim

/-- What adding a declaration does when it succeeds. -/
theorem add_ok {later : List Outline} (added : add earlier stmt = .ok later)
    (apart : Apart earlier) : later = earlier ++ (ofStatement? stmt).toList ∧ Apart later := by
  unfold ofStatement?
  obtain ⟨unnamed, rfl⟩ | ⟨outline, rfl, named, unreserved, free, _, rfl⟩ := add_cases added
  · simp [unnamed, apart]
  · refine ⟨by simp [named], ?_, ?_⟩
    · rw [map_append, nodup_append]
      refine ⟨apart.distinct, by simp, ?_⟩
      intro other member last isLast same
      obtain ⟨earlierOutline, found, rfl⟩ := mem_map.mp member
      rw [map_singleton, mem_singleton] at isLast
      exact free earlierOutline found (same.trans isLast)
    · intro other member
      rcases mem_append.mp member with old | new
      · exact apart.unreserved other old
      · rw [mem_singleton.mp new]
        exact unreserved

/-- Collecting the names of declarations keeps those that introduce one. -/
theorem collect_ok {start outlines : List Outline}
    (done : decls.foldlM add start = .ok outlines) (apart : Apart start) :
    outlines = start ++ all decls ∧ Apart outlines := by
  induction decls generalizing start with
  | nil =>
    cases done
    simp [all, apart]
  | cons stmt rest ih =>
    rw [foldlM_cons] at done
    obtain ⟨next, added, remaining⟩ := bind_ok_iff.mp done
    obtain ⟨grown, nextApart⟩ := add_ok added apart
    obtain ⟨same, holds⟩ := ih remaining nextApart
    refine ⟨?_, holds⟩
    rw [same, grown, append_assoc]
    cases named : ofStatement? stmt with
    | none | some _ => simp [all, named]

end Outline

variable {defn : Definition} {name : String} {id : Nat}

namespace Registry

variable {reg : Registry}

theorem mem_numbered : (id, defn) ∈ reg.numbered ↔ reg.get? id = some defn := by
  simp only [Registry.numbered, Registry.get?, mem_mapIdx, Prod.mk.injEq]
  constructor
  · rintro ⟨place, bound, rfl, rfl⟩
    exact getElem?_eq_getElem bound
  · intro found
    obtain ⟨bound, same⟩ := List.getElem?_eq_some_iff.mp found
    exact ⟨id, bound, rfl, same⟩

theorem mem_of_numbered {numbered : Nat × Definition}
    (member : numbered ∈ reg.numbered) : numbered.2 ∈ reg.definitions :=
  mem_of_getElem? (mem_numbered.mp member)

theorem numbered_definitions (reg : Registry) : reg.numbered.map Prod.snd = reg.definitions := by
  refine ext_getElem? fun place => ?_
  simp [Registry.numbered, Function.comp_def]

/-- Looking up a full name only depends on the names of the definitions. -/
theorem lookup?_eq (reg : Registry) (name : String) :
    reg.lookup? name =
      (reg.definitions.map Definition.name).findIdx? fun other => other = name := by
  simp [lookup?, findIdx?_map, Function.comp_def]

/-- Registries with the same names give names the same meaning. -/
theorem lookupIn?_congr {other : Registry}
    (same : reg.definitions.map Definition.name = other.definitions.map Definition.name)
    (scope? : Option String) (name : String) :
    reg.lookupIn? scope? name = other.lookupIn? scope? name := by
  cases scope? with
  | none | some _ => simp only [lookupIn?, lookup?_eq, same]

/-- Where names are different, a name means the definition that has it. -/
theorem lookup?_eq_some_iff (distinct : (reg.definitions.map Definition.name).Nodup) :
    reg.lookup? name = some id ↔ (reg.definitions.map Definition.name)[id]? = some name := by
  rw [lookup?_eq, findIdx?_eq_some_iff_getElem, List.getElem?_eq_some_iff]
  constructor
  · rintro ⟨bound, holds, _⟩
    exact ⟨bound, by simpa using holds⟩
  · rintro ⟨bound, rfl⟩
    refine ⟨bound, by simp, fun earlier before => ?_⟩
    have differs := pairwise_iff_getElem.mp distinct earlier id (by omega) bound before
    simpa using differs

/-- The number that a name means is that of a definition. -/
theorem lookup?_lt (found : reg.lookup? name = some id) : id < reg.size := by
  rw [lookup?, findIdx?_eq_some_iff_getElem] at found
  exact found.1

/-- The number that a name means in a scope is that of a definition. -/
theorem lookupIn?_lt (found : reg.lookupIn? scope? name = some id) : id < reg.size := by
  cases scope? with
  | none => exact lookup?_lt found
  | some scope =>
    simp only [lookupIn?] at found
    cases inScope : reg.lookup? (qualify (some scope) name) with
    | none =>
      rw [inScope] at found
      exact lookup?_lt found
    | some other =>
      rw [inScope] at found
      cases found
      exact lookup?_lt inScope

end Registry

/-! ## Definitions without what validation blocks add -/

/-- A field without its constraints. -/
def DefinedField.skeleton (field : DefinedField) : DefinedField := { field with constraints := [] }

/-- A definition without constraints and required fields. -/
def Definition.skeleton (definition : Definition) : Definition :=
  match definition.body with
  | .enumeration _ => definition
  | .record content =>
    { definition with
      body := .record ⟨content.fields.map DefinedField.skeleton, [], content.isEntry⟩ }

@[simp] theorem Definition.skeleton_name (defn : Definition) : defn.skeleton.name = defn.name := by
  obtain ⟨name, scope?, location, body⟩ := defn
  cases body <;> rfl

@[simp] theorem Definition.skeleton_fields (defn : Definition) :
    defn.skeleton.fields = defn.fields.map DefinedField.skeleton := by
  obtain ⟨name, scope?, location, body⟩ := defn
  cases body <;> rfl

variable {names : Registry} {outline : Outline}

variable {reg : Registry} {block : ValidationBlock} {preceding? : Option (Nat × Nat)}

namespace Registry

/-- Constraining a field does not change the fields otherwise. -/
theorem constrainField_skeleton (position : Nat) (constraints : List Constraint)
    (fields : List DefinedField) :
    (constrainField position constraints fields).map DefinedField.skeleton =
      fields.map DefinedField.skeleton := by
  induction fields generalizing position with
  | nil => simp [constrainField]
  | cons field rest ih =>
    cases position with
    | zero => simp [constrainField, DefinedField.skeleton]
    | succ position => simpa [constrainField] using ih position

/-- Requiring fields does not change them. -/
theorem fields_require (defn : Definition) (required : List (List String)) :
    { defn with body := require required defn.body : Definition }.fields = defn.fields := by
  obtain ⟨name, scope?, location, body⟩ := defn
  cases body <;> rfl

/-- Only the field at the position is constrained, and an enum has none. -/
theorem fields_constrain (defn : Definition) (position : Nat) (constraints : List Constraint) :
    { defn with body := constrain position constraints defn.body : Definition }.fields =
      constrainField position constraints defn.fields := by
  obtain ⟨name, scope?, location, body⟩ := defn
  cases body with
  | enumeration members => simp [fields, constrain, constrainField]
  | record content => rfl

/-- All that a rule can do: under the word for the record it requires fields, and under the name of
a field it constrains the first field of that name. -/
theorem applyRule_ok {changed : Definition} {rule : Rule}
    (applied : applyRule defn rule = .ok changed) :
    (rule.key = "self" ∧ ∃ required,
      (rule.calls.mapM fun call => call.onSelf defn) = .ok required ∧
        changed = { defn with body := require required defn.body }) ∨
    (rule.key ≠ "self" ∧ ∃ position constraints,
      (defn.fields.findIdx? fun field => field.name = rule.key) = some position ∧
        rule.calls.mapM Call.onField = .ok constraints ∧
          changed = { defn with body := constrain position constraints defn.body }) := by
  unfold applyRule at applied
  split at applied
  · rename_i isSelf
    obtain ⟨required, called, same⟩ := bind_ok_iff.mp applied
    exact .inl ⟨isSelf, required, called, (Except.ok.inj same).symm⟩
  · rename_i notSelf
    split at applied
    · cases applied
    · rename_i position found
      obtain ⟨constraints, called, same⟩ := bind_ok_iff.mp applied
      exact .inr ⟨notSelf, position, constraints, found, called, (Except.ok.inj same).symm⟩

/-- A rule adds constraints or required fields only. -/
theorem applyRule_skeleton {changed : Definition} {rule : Rule}
    (applied : applyRule defn rule = .ok changed) :
    changed.skeleton = defn.skeleton := by
  obtain ⟨name, scope?, location, body⟩ := defn
  obtain ⟨_, required, _, rfl⟩ | ⟨_, position, constraints, _, _, rfl⟩ := applyRule_ok applied
  · cases body <;> rfl
  · cases body with
    | enumeration members => rfl
    | record content => simp [skeleton, constrain, constrainField_skeleton]

/-- A validation block changes no definition otherwise. -/
theorem applyBlock_skeleton {changed : Registry} {id : Nat}
    (applied : reg.applyBlock block id = .ok changed) :
    changed.definitions.map skeleton = reg.definitions.map skeleton ∧
      changed.entry? = reg.entry? := by
  unfold applyBlock at applied
  split at applied
  · cases applied
  · rename_i defn found
    obtain ⟨final, rules, same⟩ := bind_ok_iff.mp applied
    cases same
    have kept : final.skeleton = defn.skeleton :=
      foldlM_keeps (fun current => current.skeleton = defn.skeleton) rules rfl
        fun _ _ _ _ stepped holds => (applyRule_skeleton stepped).trans holds
    refine ⟨?_, rfl⟩
    have before : (reg.definitions.map skeleton)[id]? =
        some defn.skeleton := by
      rw [getElem?_map, show reg.definitions[id]? = some defn from found]
      rfl
    obtain ⟨bound, same⟩ := List.getElem?_eq_some_iff.mp before
    rw [set, map_set, kept, ← same]
    exact set_getElem_self bound

/-- All validation blocks together change no definition otherwise. -/
theorem applyBlocks_skeleton {next : Nat} {changed : Registry}
    (applied : applyBlocks next preceding? reg decls = .ok changed) :
    changed.definitions.map skeleton = reg.definitions.map skeleton ∧
      changed.entry? = reg.entry? := by
  induction decls generalizing next preceding? reg with
  | nil =>
    cases applied
    exact ⟨rfl, rfl⟩
  | cons stmt others ih =>
    unfold applyBlocks at applied
    split at applied
    · exact ih applied
    · exact ih applied
    · exact ih applied
    · exact ih applied
    · split at applied
      · cases applied
      · split at applied
        · cases applied
        · rename_i blockApplied
          obtain ⟨sameDefinitions, sameEntry⟩ := ih applied
          obtain ⟨blockDefinitions, blockEntry⟩ := applyBlock_skeleton blockApplied
          exact ⟨sameDefinitions.trans blockDefinitions, sameEntry.trans blockEntry⟩

/-- A linked field is the field with its references looked up in the scope of its
declaration. -/
theorem linkField_ok {field : Field} {linked : DefinedField}
    (done : linkField names outline field = .ok linked) :
    linked.name = field.name ∧ linked.skeleton = linked ∧
      Forall₂ (fun name id => names.lookupIn? outline.statement.scope? name = some id)
        field.type.references linked.type.references := by
  unfold linkField at done
  obtain ⟨type, found, same⟩ := bind_ok_iff.mp done
  cases same
  refine ⟨rfl, rfl, (FieldType.link_references found).imp fun name id linked => ?_⟩
  split at linked
  · rename_i other means
    cases linked
    exact means
  · cases linked

end Registry

/-- The fields that a declaration gives a record. -/
def Declaration.fields : Declaration → List Field
  | .record content => content.fields
  | .entry content => content.fields
  | _ => []

/-- The definition of a declaration with its fields linked. -/
def Outline.withFields (outline : Outline) (fields : List DefinedField) : Definition :=
  match outline.statement.declaration with
  | .record _ => { outline.definition with body := .record ⟨fields, [], outline.isEntry⟩ }
  | .entry _ => { outline.definition with body := .record ⟨fields, [], outline.isEntry⟩ }
  | _ => outline.definition

namespace Registry

/-- A linked definition is that of its declaration with the fields linked one by one. -/
theorem linkOutline_ok (done : linkOutline names outline = .ok defn) :
    ∃ fields, defn = outline.withFields fields ∧
      Forall₂ (fun field linked => linkField names outline field = .ok linked)
        outline.statement.declaration.fields fields := by
  unfold linkOutline at done
  unfold withFields
  cases decl : outline.statement.declaration with
  | record _ | entry _ =>
    simp only [decl] at done
    obtain ⟨fields, found, same⟩ := bind_ok_iff.mp done
    cases same
    exact ⟨fields, rfl, mapM_ok_iff.mp found⟩
  | moduleImport _ | enumeration _ | validation _ =>
    simp only [decl] at done
    cases done
    exact ⟨[], rfl, .nil⟩

/-- The name of a linked definition is that of its declaration. -/
@[simp] theorem withFields_name (outline : Outline) (fields : List DefinedField) :
    (outline.withFields fields).name = outline.name := by
  unfold withFields
  split <;> rfl

/-- The fields of a linked definition are the linked fields. -/
theorem withFields_fields {fields : List DefinedField} {related : Field → DefinedField → Prop}
    (links : Forall₂ related outline.statement.declaration.fields fields) :
    (outline.withFields fields).fields = fields := by
  unfold withFields
  cases decl : outline.statement.declaration with
  | record _ | entry _ => rfl
  | moduleImport _ | enumeration _ | validation _ =>
    rw [decl] at links
    cases links
    simp [fields, definition, decl]

/-- A definition that was just linked has nothing added yet. -/
theorem linkOutline_skeleton
    (done : linkOutline names outline = .ok defn) : defn.skeleton = defn := by
  obtain ⟨fields, rfl, links⟩ := linkOutline_ok done
  have bare : fields.map DefinedField.skeleton = fields := by
    refine (map_congr_left fun linked member => ?_).trans (map_id fields)
    obtain ⟨field, _, done⟩ := exists_left links member
    exact (linkField_ok done).2.1
  unfold withFields
  cases decl : outline.statement.declaration <;>
    simp [skeleton, bare, definition, decl]

/-- The definitions of a registry, number by number, are the linked declarations without
what validation blocks added. -/
theorem build_ok {reg : Registry} (built : build decls = .ok reg) :
    Outline.Apart (all decls) ∧
      Forall₂ (fun outline defn =>
          linkOutline (ofOutlines (all decls)) outline =
            .ok (skeleton defn))
        (all decls) reg.definitions ∧
      reg.entry? = (Outline.all decls).findIdx? Outline.isEntry := by
  obtain ⟨linked, linkedOk, applied⟩ := bind_ok_iff.mp built
  obtain ⟨outlines, collected, rest⟩ := bind_ok_iff.mp linkedOk
  obtain ⟨defns, mapped, same⟩ := bind_ok_iff.mp rest
  cases same
  obtain ⟨isAll, apart⟩ := collect_ok collected ⟨by simp, by simp⟩
  rw [nil_append] at isAll
  subst isAll
  obtain ⟨sameDefinitions, sameEntry⟩ := applyBlocks_skeleton applied
  have pairwise := mapM_ok_iff.mp mapped
  have bare : defns.map skeleton = defns := by
    refine (map_congr_left fun defn member => ?_).trans (map_id defns)
    obtain ⟨outline, _, done⟩ := exists_left pairwise member
    exact linkOutline_skeleton done
  refine ⟨apart, ?_, sameEntry⟩
  rw [← bare, ← sameDefinitions, forall₂_map_right_iff] at pairwise
  exact pairwise

end Registry

/-- The rules that a declaration states, if it is a validation block. -/
def Declaration.rules : Declaration → List Rule
  | .validation content => content.rules
  | _ => []

namespace Registry

section Keeps

variable {kept : Definition → Prop} {reg changed : Registry}

/-- What every rule of a validation block keeps, the block keeps of all definitions. -/
theorem applyBlock_keeps {block : ValidationBlock} {id : Nat}
    (keeps : ∀ rule ∈ block.rules, ∀ defn next, applyRule defn rule = .ok next →
      kept defn → kept next)
    (holds : ∀ defn ∈ reg.definitions, kept defn)
    (applied : reg.applyBlock block id = .ok changed) :
    ∀ defn ∈ changed.definitions, kept defn := by
  unfold applyBlock at applied
  split at applied
  · cases applied
  · rename_i original found
    obtain ⟨final, rules, same⟩ := bind_ok_iff.mp applied
    cases same
    have finalKept : kept final :=
      foldlM_keeps kept rules (holds original (mem_of_getElem? found))
        fun defn rule next member stepped => keeps rule member defn next stepped
    intro defn member
    rcases mem_or_eq_of_mem_set member with old | rfl
    · exact holds defn old
    · exact finalKept

/-- What every rule keeps, all validation blocks together keep of all definitions. -/
theorem applyBlocks_keeps {next : Nat} {preceding? : Option (Nat × Nat)}
    (keeps : ∀ stmt ∈ decls, ∀ rule ∈ stmt.declaration.rules,
      ∀ defn next, applyRule defn rule = .ok next → kept defn → kept next)
    (holds : ∀ defn ∈ reg.definitions, kept defn)
    (applied : applyBlocks next preceding? reg decls = .ok changed) :
    ∀ defn ∈ changed.definitions, kept defn := by
  induction decls generalizing next preceding? reg with
  | nil =>
    cases applied
    exact holds
  | cons stmt others ih =>
    have othersKeep := fun other member => keeps other (mem_cons_of_mem stmt member)
    unfold applyBlocks at applied
    split at applied
    · exact ih othersKeep holds applied
    · exact ih othersKeep holds applied
    · exact ih othersKeep holds applied
    · exact ih othersKeep holds applied
    · rename_i block isBlock
      split at applied
      · cases applied
      · split at applied
        · cases applied
        · rename_i blockApplied
          refine ih othersKeep (applyBlock_keeps ?_ holds blockApplied) applied
          have ownKeeps := keeps stmt mem_cons_self
          rw [isBlock] at ownKeeps
          exact ownKeeps

end Keeps

/-- What holds of definitions without constraints and is kept by every rule holds of all
definitions of a built registry. -/
theorem build_keeps {kept : Definition → Prop} {reg : Registry}
    (bare : ∀ defn : Definition, defn.skeleton = defn →
      kept defn) (keeps : ∀ stmt ∈ decls, ∀ rule ∈ stmt.declaration.rules,
      ∀ defn next, applyRule defn rule = .ok next → kept defn → kept next)
    (built : build decls = .ok reg) :
    ∀ defn ∈ reg.definitions, kept defn := by
  obtain ⟨linked, linkedOk, applied⟩ := bind_ok_iff.mp built
  refine applyBlocks_keeps keeps (fun defn member => ?_) applied
  obtain ⟨outlines, _, rest⟩ := bind_ok_iff.mp linkedOk
  obtain ⟨defns, mapped, same⟩ := bind_ok_iff.mp rest
  cases same
  obtain ⟨outline, _, done⟩ := exists_left (mapM_ok_iff.mp mapped) member
  exact bare defn (linkOutline_skeleton done)

variable {reg : Registry} (built : build decls = .ok reg)
include built

/-- The names of a built registry are those of the declarations. -/
theorem build_names :
    reg.definitions.map Definition.name = (Outline.all decls).map Outline.name := by
  obtain ⟨_, pairwise, _⟩ := build_ok built
  refine (map_eq_of_forall₂ pairwise fun outline defn linked => ?_).symm
  obtain ⟨fields, same, _⟩ := linkOutline_ok linked
  rw [← skeleton_name, same, withFields_name]

/-- The names of a built registry are different. -/
theorem build_distinct : (reg.definitions.map Definition.name).Nodup := by
  rw [build_names built]
  exact (build_ok built).1.distinct

/-- Names mean the same while a registry is built and when it is finished. -/
theorem build_lookupIn? (scope? : Option String) (name : String) :
    (ofOutlines (all decls)).lookupIn? scope? name = reg.lookupIn? scope? name := by
  refine lookupIn?_congr ?_ scope? name
  rw [build_names built, ofOutlines, map_map]
  rfl

end Registry

end SchemaLang
