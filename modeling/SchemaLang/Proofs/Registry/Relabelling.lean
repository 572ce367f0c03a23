import SchemaLang.Proofs.Registry.Linking
import SchemaLang.Proofs.Relabelling

/-!
# Building commutes with changing locations and numbers

Two registries are `Renumbered` when each definition of the first is found in the second under its
new number, with its locations and its references changed. Names then mean the same definitions in
both, so linking and attaching validation blocks lead from renumbered registries to renumbered ones,
or fail alike. The order of the definitions plays no part in this.
-/

namespace SchemaLang

open List Relabelling Outline

variable {ρ : Relabelling}

/-! ## Outlines -/

/-- Names have no locations, so none of them changes. -/
@[simp] theorem ScopedDeclaration.relabel_qualifiedName? (stmt : ScopedDeclaration) :
    (stmt.relabel ρ).qualifiedName? = stmt.qualifiedName? := by
  obtain ⟨scope?, unit, decl⟩ := stmt
  cases decl <;> rfl

namespace Outline

/-- The entry stays the entry. -/
@[simp] theorem relabel_isEntry (outline : Outline) :
    (outline.relabel ρ).isEntry = outline.isEntry := by
  obtain ⟨name, scope?, unit, decl⟩ := outline
  cases decl <;> rfl

/-- An outline stands where its declaration does. -/
theorem relabel_location (outline : Outline) :
    (outline.relabel ρ).location = ρ.place outline.location := by
  obtain ⟨name, scope?, unit, decl⟩ := outline
  cases decl <;> rfl

/-- Nothing is linked yet, so only the location of the definition changes. -/
theorem relabel_definition (outline : Outline) :
    (outline.relabel ρ).definition = outline.definition.relabel ρ := by
  obtain ⟨name, scope?, unit, decl⟩ := outline
  cases decl <;> rfl

/-- Collecting names passes locations on to errors only. -/
theorem add_relabel (earlier : List Outline) (stmt : ScopedDeclaration) :
    add (earlier.map (relabel ρ)) (stmt.relabel ρ) =
      ρ.outcome (map (relabel ρ)) (add earlier stmt) := by
  unfold add
  rw [ScopedDeclaration.relabel_qualifiedName?]
  cases named : stmt.qualifiedName? with
  | none => rfl
  | some name =>
    have whereIt : (mk name (stmt.relabel ρ)).location =
        ρ.place (mk name stmt).location := relabel_location ⟨name, stmt⟩
    have isIt : (mk name (stmt.relabel ρ)).isEntry =
        (mk name stmt).isEntry := relabel_isEntry ⟨name, stmt⟩
    have sameName : (earlier.map (relabel ρ)).find? (fun other => other.name = name) =
        (earlier.find? fun other => other.name = name).map (relabel ρ) := by
      rw [find?_map]
      rfl
    have sameEntry : (earlier.map (relabel ρ)).find? isEntry =
        (earlier.find? isEntry).map (relabel ρ) := by
      rw [find?_map]
      simp only [Function.comp_def, relabel_isEntry]
    dsimp only
    rw [whereIt, isIt, sameName, sameEntry]
    split
    · simp [outcome, Error.relabel, ρ.builtin]
    cases earlier.find? fun other => other.name = name with
    | some previous => simp [outcome, Error.relabel, relabel_location]
    | none =>
      cases earlier.find? isEntry with
      | none => simp [outcome, relabel]
      | some previous =>
        cases (mk name stmt).isEntry with
        | false => simp [outcome, relabel]
        | true => simp [outcome, Error.relabel, relabel]

end Outline

/-! ## Calls and rules -/

/-- The fields of a changed definition, in their order. -/
theorem Definition.relabel_fields (defn : Definition) :
    (defn.relabel ρ).fields = defn.fields.map (DefinedField.relabel ρ) := by
  obtain ⟨name, scope?, location, body⟩ := defn
  cases body <;> rfl

namespace Call

variable (call : Call)

/-- The name of a call decides what it does; only an unknown name shows the location. -/
theorem function_relabel : (call.relabel ρ).function = ρ.outcome id call.function := by
  unfold function
  cases same : ConstraintFunction.ofName? call.name with
  | none => simp [Call.relabel, same, outcome, Error.relabel]
  | some function => simp [Call.relabel, same, outcome]

/-- A bound is read off the arguments, which have no locations. -/
theorem number_relabel : (call.relabel ρ).number = ρ.outcome id call.number := by
  obtain ⟨name, arguments, location⟩ := call
  rcases arguments with _ | ⟨_ | _ | _, _ | ⟨_, _⟩⟩ <;> rfl

/-- So is a length, which has to be a whole number. -/
theorem length_relabel : (call.relabel ρ).length = ρ.outcome id call.length := by
  obtain ⟨name, arguments, location⟩ := call
  rcases arguments with _ | ⟨_ | value | _, _ | ⟨_, _⟩⟩
  case cons.number.nil =>
    dsimp only [length, Call.relabel]
    split <;> rfl
  all_goals rfl

/-- So is a pattern, which has to compile. -/
theorem pattern_relabel : (call.relabel ρ).pattern = ρ.outcome id call.pattern := by
  obtain ⟨name, arguments, location⟩ := call
  rcases arguments with _ | ⟨text | _ | _, _ | ⟨_, _⟩⟩
  case cons.text.nil =>
    dsimp only [pattern, Call.relabel]
    cases Pattern.compilePlain text.toList <;> rfl
  all_goals rfl

/-- So are the literals to choose from. -/
theorem literals_relabel : (call.relabel ρ).literals = ρ.outcome id call.literals := by
  obtain ⟨name, arguments, location⟩ := call
  match arguments with
  | [] | _ :: _ => rfl

/-- Whatever a call says about a field, it says at any place. -/
theorem onField_relabel : (call.relabel ρ).onField = ρ.outcome id call.onField := by
  unfold onField
  rw [function_relabel]
  refine outcome_bind fun function => ?_
  cases function with
  | pattern =>
    dsimp only
    rw [pattern_relabel]
    exact outcome_bind fun _ => rfl
  | minLength | maxLength =>
    dsimp only
    rw [length_relabel]
    exact outcome_bind fun _ => rfl
  | minimum | maximum | exclusiveMinimum | exclusiveMaximum =>
    dsimp only
    rw [number_relabel]
    exact outcome_bind fun _ => rfl
  | oneOf =>
    dsimp only
    rw [literals_relabel]
    exact outcome_bind fun _ => rfl
  | required => rfl

/-- The fields that are looked up keep their names. -/
theorem fieldName_relabel (owner : Definition) (argument : Argument) :
    (call.relabel ρ).fieldName (owner.relabel ρ) argument =
      ρ.outcome id (call.fieldName owner argument) := by
  have checked (name : String) :
      (if (owner.relabel ρ).fields.any fun field => field.name = name then Except.ok name
        else .error ((call.relabel ρ).invalid (.noSuchField owner.name name))) =
      ρ.outcome id
        (if owner.fields.any fun field => field.name = name then Except.ok name
          else .error (call.invalid (.noSuchField owner.name name))) := by
    rw [Definition.relabel_fields, any_map]
    show (if owner.fields.any fun field => field.name = name then _ else _) = _
    split <;> rfl
  cases argument with
  | word name | text name => exact checked name
  | number value => rfl

/-- Whatever a call says about the record, it says at any place. -/
theorem onSelf_relabel (owner : Definition) :
    (call.relabel ρ).onSelf (owner.relabel ρ) = ρ.outcome id (call.onSelf owner) := by
  unfold onSelf
  rw [function_relabel]
  refine outcome_bind fun function => ?_
  cases function with
  | required =>
    have each : (call.arguments.map id).mapM ((call.relabel ρ).fieldName (owner.relabel ρ)) =
        ρ.outcome id (call.arguments.mapM (call.fieldName owner)) :=
      outcome_mapM_values fun argument _ => fieldName_relabel call owner argument
    rw [map_id] at each
    show (if call.arguments.isEmpty then _ else _) = _
    dsimp only
    split
    · rfl
    · exact each
  | _ => rfl

end Call

namespace Registry

/-- Constraints go to a place in the list, which the change keeps. -/
theorem constrainField_relabel (position : Nat) (constraints : List Constraint)
    (fields : List DefinedField) :
    constrainField position constraints (fields.map (DefinedField.relabel ρ)) =
      (constrainField position constraints fields).map (DefinedField.relabel ρ) := by
  unfold constrainField
  induction fields generalizing position with
  | nil => simp
  | cons field rest ih =>
    cases position with
    | zero => simp [DefinedField.relabel]
    | succ position => simpa using ih position

/-- Required fields are names, which stay. -/
theorem require_relabel (required : List (List String)) (body : DefinitionBody) :
    require required (body.relabel ρ) = (require required body).relabel ρ := by
  cases body <;> rfl

/-- Constraining a field and changing the locations do not disturb each other. -/
theorem constrain_relabel (position : Nat) (constraints : List Constraint)
    (body : DefinitionBody) :
    constrain position constraints (body.relabel ρ) =
      (constrain position constraints body).relabel ρ := by
  cases body with
  | enumeration members => rfl
  | record content =>
    rw [constrain, DefinitionBody.relabel, DefinitionBody.relabel, constrain, RecordBody.relabel,
      constrainField_relabel]
    rfl

/-- A rule adds to a changed definition what it adds to the definition. -/
theorem applyRule_relabel (defn : Definition) (rule : Rule) :
    applyRule (defn.relabel ρ) (rule.relabel ρ) =
      ρ.outcome (Definition.relabel ρ) (applyRule defn rule) := by
  unfold applyRule
  have sameKey : (rule.relabel ρ).key = rule.key := rfl
  have sameBody : (defn.relabel ρ).body = defn.body.relabel ρ := rfl
  rw [sameKey, sameBody]
  split
  · have each : ((rule.relabel ρ).calls.mapM fun call => call.onSelf (defn.relabel ρ)) =
        ρ.outcome id (rule.calls.mapM fun call => call.onSelf defn) :=
      outcome_mapM_values fun call _ => Call.onSelf_relabel call defn
    rw [each]
    refine outcome_bind fun required => ?_
    rw [require_relabel]
    rfl
  · have samePosition : ((defn.relabel ρ).fields.findIdx? fun field => field.name = rule.key) =
        defn.fields.findIdx? fun field => field.name = rule.key := by
      rw [Definition.relabel_fields, findIdx?_map]
      rfl
    have each : (rule.relabel ρ).calls.mapM Call.onField =
        ρ.outcome id (rule.calls.mapM Call.onField) :=
      outcome_mapM_values fun call _ => Call.onField_relabel call
    rw [samePosition, each]
    cases defn.fields.findIdx? fun field => field.name = rule.key with
    | none => rfl
    | some position =>
      refine outcome_bind fun constraints => ?_
      rw [constrain_relabel]
      rfl

end Registry

/-! ## Linking -/

variable {find other : String → Except Error Nat}

section

variable (finds : ∀ name, other name = ρ.outcome ρ.number (find name))
include finds

/-- By induction on the type: at a name the two ways of finding it agree. -/
theorem FieldType.link_relabel (type : FieldType String) :
    type.link other = ρ.outcome (FieldType.map ρ.number) (type.link find) := by
  induction type with
  | primitive _ | range _ _ _ => rfl
  | reference target =>
    rw [link, finds target]
    exact outcome_map fun id => rfl
  | array item ih | optional item ih =>
    rw [link, ih]
    exact outcome_map fun linked => rfl
  | union arms each =>
    have others : (arms.map id).mapM (link other) = _ := outcome_mapM each
    rw [map_id] at others
    rw [link, link, linkAll_eq_mapM, linkAll_eq_mapM, others]
    refine outcome_map fun linked => ?_
    rw [FieldType.map, mapAll_eq_map]

end

namespace Registry

/-- The definitions of a registry are those of another one under other numbers, with their
locations and references changed. -/
structure Renumbered (ρ : Relabelling) (registry other : Registry) : Prop where
  definition : ∀ id, other.get? (ρ.number id) = (registry.get? id).map (Definition.relabel ρ)
  entry : other.entry? = registry.entry?.map ρ.number
  lookup : ∀ name, other.lookup? name = (registry.lookup? name).map ρ.number

variable {reg other : Registry}

/-- A name means the same definition in a scope. -/
theorem Renumbered.lookupIn (renumbered : Renumbered ρ reg other) (scope? : Option String)
    (name : String) :
    other.lookupIn? scope? name = (reg.lookupIn? scope? name).map ρ.number := by
  cases scope? with
  | none => exact renumbered.lookup name
  | some scope =>
    unfold lookupIn?
    dsimp only
    rw [renumbered.lookup, renumbered.lookup]
    cases reg.lookup? (qualify (some scope) name) <;> rfl

/-- No other definition gets the number of the entry, since numbers stay distinct. -/
theorem Renumbered.entry_iff (renumbered : Renumbered ρ reg other) {id : Nat} :
    other.entry? = some (ρ.number id) ↔ reg.entry? = some id := by
  rw [renumbered.entry, Option.map_eq_some_iff]
  constructor
  · rintro ⟨entry, isEntry, sameNumber⟩
    rw [isEntry, ρ.injective sameNumber]
  · intro isEntry
    exact ⟨id, isEntry, rfl⟩

/-- What a name on a field of a declaration refers to. -/
def referred (names : Registry) (outline : Outline) (field : Field) (name : String) :
    Except Error Nat :=
  match names.lookupIn? outline.statement.scope? name with
  | some id => .ok id
  | none => .error (.unresolvedReference name field.name outline.name field.location)

/-- Linking a field is linking its type; the rest is copied. -/
theorem linkField_eq (names : Registry) (outline : Outline) (field : Field) :
    linkField names outline field = do
      return ⟨field.name, ← field.type.link (names.referred outline field), [], field.location⟩ :=
  rfl

section

variable (renumbered : Renumbered ρ reg other)
include renumbered

/-- The scope of a declaration stays, so a name is looked up in the same places. -/
theorem referred_relabel (outline : Outline) (field : Field) (name : String) :
    other.referred (outline.relabel ρ) (field.relabel ρ) name =
      ρ.outcome ρ.number (reg.referred outline field name) := by
  unfold referred
  rw [renumbered.lookupIn, show (outline.relabel ρ).statement.scope? = outline.statement.scope?
    from rfl]
  cases reg.lookupIn? outline.statement.scope? name <;> rfl

/-- A field is linked to the same definitions under their new numbers. -/
theorem linkField_relabel (outline : Outline) (field : Field) :
    linkField other (outline.relabel ρ) (field.relabel ρ) =
      ρ.outcome (DefinedField.relabel ρ) (linkField reg outline field) := by
  rw [linkField_eq, linkField_eq, show (field.relabel ρ).type = field.type from rfl,
    FieldType.link_relabel (referred_relabel renumbered outline field)]
  exact outcome_bind fun type => rfl

/-- Records are linked field by field; the other declarations refer to nothing. -/
theorem linkOutline_relabel (outline : Outline) :
    linkOutline other (outline.relabel ρ) =
      ρ.outcome (Definition.relabel ρ) (linkOutline reg outline) := by
  have linked (content : RecordDeclaration) :
      ((content.relabel ρ).fields.mapM (linkField other (outline.relabel ρ)) >>= fun fields =>
        pure { (outline.relabel ρ).definition with
          body := .record ⟨fields, [], (outline.relabel ρ).isEntry⟩ }) =
      ρ.outcome (Definition.relabel ρ)
        (content.fields.mapM (linkField reg outline) >>= fun fields =>
          pure { outline.definition with body := .record ⟨fields, [], outline.isEntry⟩ }) := by
    have each : (content.relabel ρ).fields.mapM (linkField other (outline.relabel ρ)) =
        ρ.outcome (map (DefinedField.relabel ρ))
          (content.fields.mapM (linkField reg outline)) :=
      outcome_mapM fun field _ => linkField_relabel renumbered outline field
    rw [each, relabel_definition, relabel_isEntry]
    exact outcome_bind fun fields => rfl
  obtain ⟨name, scope?, unit, decl⟩ := outline
  cases decl with
  | record content | entry content => exact linked content
  | moduleImport _ | enumeration _ | validation _ => rfl

/-! ## Validation blocks -/

/-- A block that names its record finds it by that name, and one that does not takes the record
before it. -/
theorem validationTarget_relabel (stmt : ScopedDeclaration) (block : ValidationBlock)
    (preceding? : Option (Nat × Nat)) :
    validationTarget other (stmt.relabel ρ) (block.relabel ρ)
        (preceding?.map (Prod.map id ρ.number)) =
      ρ.outcome ρ.number (validationTarget reg stmt block preceding?) := by
  obtain ⟨target?, rules, location⟩ := block
  cases target? with
  | some name =>
    dsimp only [validationTarget, ValidationBlock.relabel, ScopedDeclaration.relabel]
    rw [renumbered.lookupIn]
    cases reg.lookupIn? stmt.scope? name with
    | none => rfl
    | some id =>
      dsimp only [Option.map_some]
      rw [renumbered.definition]
      cases reg.get? id with
      | none => rfl
      | some defn =>
        obtain ⟨name, scope?, location, body⟩ := defn
        cases body <;> rfl
  | none =>
    dsimp only [validationTarget, ValidationBlock.relabel, ScopedDeclaration.relabel]
    cases preceding? with
    | none => rfl
    | some preceding =>
      dsimp only [Option.map_some, Prod.map, id]
      split <;> rfl

end

variable {definition defn changed : Definition}

/-- A definition that keeps its name leaves the names of a registry as they are. -/
theorem set_names {id : Nat} (found : reg.get? id = some defn)
    (sameName : changed.name = defn.name) :
    (reg.set id changed).definitions.map Definition.name = reg.definitions.map Definition.name := by
  have named : (reg.definitions.map Definition.name)[id]? = some defn.name := by
    rw [getElem?_map, show reg.definitions[id]? = some defn from found]
    rfl
  obtain ⟨bound, same⟩ := List.getElem?_eq_some_iff.mp named
  rw [set, map_set, sameName, ← same]
  exact set_getElem_self bound

/-- Replacing a definition is seen under its own number only. -/
theorem get?_set (reg : Registry) (id other : Nat) (defn : Definition) :
    (reg.set id defn).get? other =
      if id = other then (reg.get? id).map fun _ => defn else reg.get? other := by
  unfold set get?
  dsimp only
  rw [getElem?_set]
  by_cases same : id = other
  · subst same
    by_cases bound : id < reg.definitions.length
    · simp [bound]
    · simp [bound]
  · rw [if_neg same, if_neg same]

/-- Replacing a definition and the changed definition keeps registries renumbered. -/
theorem Renumbered.set (renumbered : Renumbered ρ reg other) {id : Nat}
    (found : reg.get? id = some defn) (sameName : changed.name = defn.name) :
    Renumbered ρ (reg.set id changed) (other.set (ρ.number id) (changed.relabel ρ)) := by
  have otherFound : other.get? (ρ.number id) = some (defn.relabel ρ) := by
    rw [renumbered.definition, found]
    rfl
  constructor
  case definition =>
    intro place
    rw [get?_set, get?_set]
    by_cases same : id = place
    · subst same
      rw [if_pos rfl, if_pos rfl, otherFound, found]
      rfl
    · rw [if_neg same, if_neg (fun numbers => same (ρ.injective numbers)), renumbered.definition]
  case entry => exact renumbered.entry
  case lookup =>
    intro name
    have sameRelabelled : (changed.relabel ρ).name = (defn.relabel ρ).name := sameName
    rw [lookup?_eq, lookup?_eq, set_names found sameName, set_names otherFound sameRelabelled,
      ← lookup?_eq, ← lookup?_eq]
    exact renumbered.lookup name

/-- The rules of a block are applied in turn and keep the name, so that lookups stay. -/
theorem applyBlock_relabel (renumbered : Renumbered ρ reg other) (block : ValidationBlock)
    (id : Nat) :
    ρ.Matches (Renumbered ρ) (reg.applyBlock block id)
      (other.applyBlock (block.relabel ρ) (ρ.number id)) := by
  unfold applyBlock
  rw [renumbered.definition]
  cases found : reg.get? id with
  | none => exact .fault
  | some defn =>
    dsimp only [Option.map_some]
    have rules : (block.relabel ρ).rules.foldlM applyRule (defn.relabel ρ) =
        ρ.outcome (Definition.relabel ρ) (block.rules.foldlM applyRule defn) :=
      outcome_foldlM (fun state rule _ => applyRule_relabel state rule) defn
    rw [rules]
    cases applied : block.rules.foldlM applyRule defn with
    | error fault => exact .fault
    | ok changed =>
      have sameName : changed.name = defn.name :=
        Outcome.foldlM_keeps (fun current => current.name = defn.name) applied rfl
          fun _ _ _ _ stepped holds => by
            rwa [← Definition.skeleton_name, applyRule_skeleton stepped, Definition.skeleton_name]
      exact .value (renumbered.set found sameName)

/-- Attach a validation block to the definition it is about. -/
def attach (registry : Registry) (statement : ScopedDeclaration) (block : ValidationBlock)
    (preceding? : Option (Nat × Nat)) : Except Error Registry :=
  registry.validationTarget statement block preceding? >>= registry.applyBlock block

/-- Both steps of attaching commute, and so they do together. -/
theorem attach_relabel (renumbered : Renumbered ρ reg other) (stmt : ScopedDeclaration)
    (block : ValidationBlock) (preceding? : Option (Nat × Nat)) :
    ρ.Matches (Renumbered ρ) (attach reg stmt block preceding?)
      (attach other (stmt.relabel ρ) (block.relabel ρ)
        (preceding?.map (Prod.map id ρ.number))) := by
  unfold attach
  refine (Relabelling.Matches.of_outcome
    (validationTarget_relabel renumbered stmt block preceding?)).bind ?_
  rintro id _ rfl
  exact applyBlock_relabel renumbered block id

/-- A validation block is attached, and then come the others. -/
theorem applyBlocks_validation {stmt : ScopedDeclaration} {block : ValidationBlock}
    (isBlock : stmt.declaration = .validation block) (next : Nat)
    (preceding? : Option (Nat × Nat)) (reg : Registry) (others : List ScopedDeclaration) :
    applyBlocks next preceding? reg (stmt :: others) =
      attach reg stmt block preceding? >>= fun attached =>
        applyBlocks next preceding? attached others := by
  rw [applyBlocks, isBlock, attach]
  dsimp only
  cases reg.validationTarget stmt block preceding? with
  | error fault => rfl
  | ok id =>
    cases attached : reg.applyBlock block id <;> simp [attached, bind, Except.bind]

/-! ## Changes that keep numbers -/

/-- Change the definitions of a registry in their order. -/
def relabel (ρ : Relabelling) (registry : Registry) : Registry :=
  ⟨registry.definitions.map (Definition.relabel ρ), registry.entry?.map ρ.number⟩

/-- Numbers are places in the list. -/
theorem numbered_relabel (reg : Registry) :
    (reg.relabel ρ).numbered = reg.numbered.map (Prod.map id (Definition.relabel ρ)) := by
  refine ext_getElem? fun place => ?_
  simp only [numbered, relabel, getElem?_mapIdx, getElem?_map, Option.map_map]
  rfl

variable (fixed : ρ.number = id)
include fixed

/-- A number that may be missing stays as well. -/
theorem option_map_number (id? : Option Nat) : id?.map ρ.number = id? := by
  rw [fixed, Option.map_id]
  rfl

/-- If numbers stay, changing each definition in its place is a renumbering. -/
theorem renumbered_relabel (reg : Registry) : Renumbered ρ reg (reg.relabel ρ) := by
  constructor
  case definition =>
    intro place
    rw [fixed]
    exact getElem?_map
  case entry => rfl
  case lookup =>
    intro name
    rw [option_map_number fixed, lookup?_eq, lookup?_eq, relabel, map_map]
    rfl

/-- Renumbered registries with the same numbers hold the same definitions in the same order. -/
theorem Renumbered.eq_relabel (renumbered : Renumbered ρ reg other) : other = reg.relabel ρ := by
  obtain ⟨defns, entry?⟩ := other
  have sameDefinitions : defns = reg.definitions.map (Definition.relabel ρ) := by
    refine ext_getElem? fun place => ?_
    have atPlace := renumbered.definition place
    rw [fixed] at atPlace
    rw [getElem?_map]
    exact atPlace
  have sameEntry : entry? = reg.entry?.map ρ.number := renumbered.entry
  rw [sameDefinitions, sameEntry]
  rfl

/-- The registry of names, before anything is linked. -/
theorem ofOutlines_relabel (outlines : List Outline) :
    ofOutlines (outlines.map (Outline.relabel ρ)) = (ofOutlines outlines).relabel ρ := by
  have sameDefinitions : (outlines.map (Outline.relabel ρ)).map Outline.definition =
      (outlines.map definition).map (Definition.relabel ρ) := by
    rw [map_map, map_map]
    exact map_congr_left fun outline _ => outline.relabel_definition
  have sameEntry : (outlines.map (Outline.relabel ρ)).findIdx? Outline.isEntry =
      outlines.findIdx? isEntry := by
    rw [findIdx?_map]
    exact congrArg (findIdx? · outlines) (funext fun outline => outline.relabel_isEntry)
  rw [ofOutlines, sameDefinitions, sameEntry, relabel, option_map_number fixed]
  rfl

variable (decls : List ScopedDeclaration)

/-- Linking changed declarations gives the changed registry. -/
theorem link_relabel :
    link (decls.map (ScopedDeclaration.relabel ρ)) = ρ.outcome (relabel ρ) (link decls) := by
  unfold link
  have collected : (decls.map (ScopedDeclaration.relabel ρ)).foldlM add [] =
      ρ.outcome (List.map (Outline.relabel ρ)) (decls.foldlM Outline.add []) :=
    outcome_foldlM (fun earlier stmt _ => add_relabel earlier stmt) []
  rw [collected]
  refine outcome_bind fun outlines => ?_
  have linked : (outlines.map (Outline.relabel ρ)).mapM
      (linkOutline ((ofOutlines outlines).relabel ρ)) =
      ρ.outcome (map (Definition.relabel ρ))
        (outlines.mapM (linkOutline (ofOutlines outlines))) :=
    outcome_mapM fun outline _ =>
      linkOutline_relabel (renumbered_relabel fixed _) outline
  rw [ofOutlines_relabel fixed]
  dsimp only
  rw [linked]
  exact outcome_bind fun defns => rfl

/-- Attaching changed validation blocks to a changed registry gives the changed registry. -/
theorem applyBlocks_relabel (renumbered : Renumbered ρ reg other)
    (decls : List ScopedDeclaration) (next : Nat) (preceding? : Option (Nat × Nat)) :
    ρ.Matches (Renumbered ρ) (applyBlocks next preceding? reg decls)
      (applyBlocks next preceding? other (decls.map (ScopedDeclaration.relabel ρ))) := by
  have samePreceding (preceding? : Option (Nat × Nat)) :
      preceding?.map (Prod.map id ρ.number) = preceding? := by
    rw [fixed, Prod.map_id, Option.map_id]
    rfl
  induction decls generalizing next preceding? reg other with
  | nil => exact .value renumbered
  | cons stmt others ih =>
    obtain ⟨scope?, unit, decl⟩ := stmt
    cases decl with
    | moduleImport content => exact ih renumbered next preceding?
    | enumeration content => exact ih renumbered (next + 1) preceding?
    | record _ | entry _ => exact ih renumbered (next + 1) (some (unit, next))
    | validation block =>
      have attached := attach_relabel renumbered ⟨scope?, unit, .validation block⟩ block preceding?
      rw [samePreceding] at attached
      rw [map_cons, applyBlocks_validation rfl, applyBlocks_validation rfl]
      exact attached.bind fun one two same => ih same next preceding?

/-- The registry of changed declarations is the changed registry of the declarations. -/
theorem build_relabel :
    build (decls.map (ScopedDeclaration.relabel ρ)) = ρ.outcome (relabel ρ) (build decls) := by
  have built : ρ.Matches (Renumbered ρ) (build decls)
      (build (decls.map (ScopedDeclaration.relabel ρ))) := by
    unfold build
    refine (Relabelling.Matches.of_outcome (link_relabel fixed decls)).bind ?_
    rintro linked _ rfl
    exact applyBlocks_relabel fixed (renumbered_relabel fixed linked) decls 0 none
  generalize build decls = first at built ⊢
  generalize build (decls.map (ScopedDeclaration.relabel ρ)) = second at built ⊢
  cases built with
  | fault => rfl
  | value renumbered => exact congrArg Except.ok (renumbered.eq_relabel fixed)

end Registry

end SchemaLang
