import Mathlib.Data.List.Nodup
import SchemaLang.Proofs.Registry.WellFormed

/-!
# What rules add to a record

A rule of a validation block has a key, which is a field of the record or the word for the record
itself. Every call of the rule adds something under that key: a constraint to the field, or a list
of fields that must be present. A rule adds nothing under another key, and what its calls add does
not depend on what was added before. So what a record holds under a key, after any number of rules,
is what the calls under that key add, in their order.
-/

namespace SchemaLang

open Outcome List Definition

/-- The calls of rules under a key. -/
def callsUnder (key : String) (rules : List Rule) : List Call :=
  (rules.filter fun rule => rule.key = key).flatMap Rule.calls

theorem callsUnder_append (key : String) (rules others : List Rule) :
    callsUnder key (rules ++ others) = callsUnder key rules ++ callsUnder key others := by
  rw [callsUnder, filter_append, flatMap_append]
  rfl

/-- What a call adds to a record: a restriction of one of its fields, or fields that must be
present. -/
inductive Addition where
  | constraint (constraint : Constraint)
  | required (names : List String)
deriving DecidableEq, Repr

/-- What a call adds to a record under a key, which is a field or the record itself. -/
def Call.link (owner : Definition) (key : String) (call : Call) : Except Error Addition :=
  if key = "self" then (call.onSelf owner).map .required else call.onField.map .constraint

namespace Definition

/-- A definition is that of a record. -/
def IsRecord (definition : Definition) : Prop := ∃ content, definition.body = .record content

/-- What a definition holds under a key. -/
def held (definition : Definition) (key : String) : List Addition :=
  match definition.body with
  | .enumeration _ => []
  | .record content =>
    if key = "self" then content.required.map .required
    else
      match content.fields.find? fun field => field.name = key with
      | some field => field.constraints.map .constraint
      | none => []

/-- A field whose name is the word for the record itself has no constraints. -/
def SparesSelf (definition : Definition) : Prop :=
  ∀ field ∈ definition.fields, field.name = "self" → field.constraints = []

/-- A rule can be applied to a record: it is about the record itself or one of its fields, and
each of its calls can be linked there. -/
structure Admits (definition : Definition) (rule : Rule) : Prop where
  key : rule.key = "self" ∨ rule.key ∈ definition.fields.map DefinedField.name
  calls : ∀ call ∈ rule.calls, ∃ addition, call.link definition rule.key = .ok addition

variable {defn : Definition}

theorem isRecord_skeleton : defn.skeleton.IsRecord ↔ defn.IsRecord := by
  obtain ⟨name, scope?, location, body⟩ := defn
  cases body <;> simp [IsRecord, skeleton]

/-- Nothing is held before validation blocks are attached. -/
theorem held_skeleton (defn : Definition) (key : String) : defn.skeleton.held key = [] := by
  obtain ⟨name, scope?, location, body⟩ := defn
  cases body with
  | enumeration members => rfl
  | record content =>
    simp only [skeleton, held, map_nil]
    split
    · rfl
    · split
      · rename_i field found
        obtain ⟨original, _, rfl⟩ := mem_map.mp (mem_of_find?_eq_some found)
        rfl
      · rfl

/-- Where names of fields are different, a field holds what is held under its name. -/
theorem held_field {content : RecordBody}
    (body : defn.body = .record content)
    (distinct : (content.fields.map DefinedField.name).Nodup) {field : DefinedField}
    (isField : field ∈ content.fields) (notSelf : field.name ≠ "self") :
    defn.held field.name = field.constraints.map .constraint := by
  rw [held, body]
  dsimp only
  rw [if_neg notSelf]
  cases found : content.fields.find? fun other => other.name = field.name with
  | none =>
    have differs := find?_eq_none.mp found field isField
    simp at differs
  | some other =>
    have sameName : other.name = field.name := by simpa using find?_some found
    rw [inj_on_of_nodup_map distinct (mem_of_find?_eq_some found) isField sameName]

end Definition

namespace Call

theorem fieldName_skeleton (call : Call) (owner : Definition) (argument : Argument) :
    call.fieldName owner.skeleton argument = call.fieldName owner argument := by
  have sameNames : ∀ name, (owner.skeleton.fields.any fun field => field.name = name) =
      owner.fields.any fun field => field.name = name := by
    intro name
    rw [skeleton_fields, any_map]
    rfl
  cases argument <;> simp only [fieldName, sameNames, skeleton_name]

/-- What a call adds does not depend on what was added before. -/
theorem link_skeleton (owner : Definition) (key : String) :
    link owner.skeleton key = link owner key := by
  funext call
  unfold link onSelf
  simp only [funext (call.fieldName_skeleton owner)]

theorem link_congr {owner other : Definition} (same : owner.skeleton = other.skeleton)
    (key : String) : link owner key = link other key := by
  rw [← link_skeleton, same, link_skeleton]

end Call

namespace Definition

variable {defn : Definition} {rule : Rule}

theorem admits_skeleton : defn.skeleton.Admits rule ↔ defn.Admits rule := by
  have sameNames : defn.skeleton.fields.map DefinedField.name =
      defn.fields.map DefinedField.name := by
    rw [skeleton_fields, map_map]
    rfl
  constructor
  · rintro ⟨key, calls⟩
    simp only [Call.link_skeleton, sameNames] at key calls
    exact ⟨key, calls⟩
  · rintro ⟨key, calls⟩
    constructor <;> simpa only [Call.link_skeleton, sameNames]

end Definition

namespace Registry

variable {defn changed : Definition} {rule : Rule} {rules : List Rule}

/-- Constraining the first field of a name adds to that field, and to no field of another name. -/
theorem find?_constrainField {fields : List DefinedField} {key : String} {position : Nat}
    (found : (fields.findIdx? fun field => field.name = key) = some position)
    (constraints : List Constraint) (other : String) :
    ((constrainField position constraints fields).find? fun field => field.name = other) =
      if key = other then
        (fields.find? fun field => field.name = other).map fun field =>
          { field with constraints := field.constraints ++ constraints }
      else fields.find? fun field => field.name = other := by
  induction fields generalizing position with
  | nil => cases found
  | cons field rest ih =>
    rw [findIdx?_cons] at found
    by_cases isField : field.name = key
    · subst isField
      rw [if_pos (by simp)] at found
      cases found
      by_cases same : field.name = other
      · simp [constrainField, same]
      · simp [constrainField, same]
    · rw [if_neg (by simpa using isField)] at found
      obtain ⟨place, foundLater, rfl⟩ := Option.map_eq_some_iff.mp found
      have later := ih foundLater
      rw [constrainField] at later ⊢
      rw [modify_succ_cons, find?_cons, find?_cons, later]
      by_cases same : field.name = other
      · subst same
        simp [Ne.symm isField]
      · simp [same]

/-- A rule is applied only if the record admits it. It adds what its calls do under its key, and
nothing under another key. -/
theorem applyRule_adds (isRecord : defn.IsRecord)
    (applied : applyRule defn rule = .ok changed) :
    defn.Admits rule ∧
      ∃ added, rule.calls.mapM (Call.link defn rule.key) = .ok added ∧
        ∀ key, changed.held key = defn.held key ++ if rule.key = key then added else [] := by
  obtain ⟨content, body⟩ := isRecord
  have oneByOne : ∀ added, rule.calls.mapM (Call.link defn rule.key) = .ok added →
      ∀ call ∈ rule.calls, ∃ addition, call.link defn rule.key = .ok addition := by
    intro added linked call isCall
    obtain ⟨addition, _, done⟩ := exists_right (mapM_ok_iff.mp linked) isCall
    exact ⟨addition, done⟩
  obtain ⟨onSelf, required, calls, rfl⟩ | ⟨onField, position, constraints, found, calls, rfl⟩ :=
    applyRule_ok applied
  · have isLink : Call.link defn rule.key =
        fun call => (call.onSelf defn).map .required := by
      funext call
      rw [Call.link, if_pos onSelf]
    have linked : rule.calls.mapM (Call.link defn rule.key) =
        .ok (required.map .required) := isLink ▸ mapM_map_ok _ calls
    refine ⟨⟨.inl onSelf, oneByOne _ linked⟩, _, linked, fun key => ?_⟩
    rw [onSelf]
    by_cases isSelf : key = "self"
    · subst isSelf
      simp [held, require, body]
    · simp [held, require, body, isSelf, Ne.symm isSelf]
  · have isLink : Call.link defn rule.key =
        fun call => call.onField.map .constraint := by
      funext call
      rw [Call.link, if_neg onField]
    have linked : rule.calls.mapM (Call.link defn rule.key) =
        .ok (constraints.map .constraint) := isLink ▸ mapM_map_ok _ calls
    obtain ⟨bound, named, _⟩ := findIdx?_eq_some_iff_getElem.mp found
    have isField : rule.key ∈ defn.fields.map DefinedField.name :=
      mem_map.mpr ⟨_, getElem_mem bound, by simpa using named⟩
    refine ⟨⟨.inr isField, oneByOne _ linked⟩, _, linked, fun key => ?_⟩
    rw [fields, body] at found isField
    by_cases isSelf : key = "self"
    · subst isSelf
      simp [held, constrain, body, onField]
    · simp only [held, constrain, body, if_neg isSelf, find?_constrainField found]
      by_cases same : rule.key = key
      · subst same
        cases first : content.fields.find? fun field => field.name = rule.key with
        | none =>
          obtain ⟨field, member, sameName⟩ := mem_map.mp isField
          have differs := find?_eq_none.mp first field member
          exact absurd sameName (by simpa using differs)
        | some field => simp
      · simp [same]

/-- A rule that a definition admits can be applied. -/
theorem applyRule_ok_of_admits (admits : defn.Admits rule) :
    ∃ changed, applyRule defn rule = .ok changed := by
  rw [applyRule]
  split
  · rename_i onSelf
    have each : ∀ call ∈ rule.calls, ∃ names, call.onSelf defn = .ok names := by
      intro call isCall
      obtain ⟨addition, linked⟩ := admits.calls call isCall
      rw [Call.link, if_pos onSelf] at linked
      obtain ⟨names, done, _⟩ := map_ok_iff.mp linked
      exact ⟨names, done⟩
    obtain ⟨required, calls⟩ := mapM_ok_of_forall each
    exact ⟨_, bind_ok_iff.mpr ⟨required, calls, rfl⟩⟩
  · rename_i onField
    have each : ∀ call ∈ rule.calls, ∃ constraint, call.onField = .ok constraint := by
      intro call isCall
      obtain ⟨addition, linked⟩ := admits.calls call isCall
      rw [Call.link, if_neg onField] at linked
      obtain ⟨constraint, done, _⟩ := map_ok_iff.mp linked
      exact ⟨constraint, done⟩
    obtain ⟨constraints, calls⟩ := mapM_ok_of_forall each
    obtain ⟨field, member, sameName⟩ := mem_map.mp (admits.key.resolve_left onField)
    cases found : defn.fields.findIdx? fun field => field.name = rule.key with
    | none =>
      have differs := findIdx?_eq_none_iff.mp found field member
      exact absurd sameName (by simpa using differs)
    | some position => exact ⟨_, bind_ok_iff.mpr ⟨constraints, calls, rfl⟩⟩

/-- A record stays a record. -/
theorem applyRule_isRecord (isRecord : defn.IsRecord)
    (applied : applyRule defn rule = .ok changed) : changed.IsRecord := by
  rw [← isRecord_skeleton, applyRule_skeleton applied]
  exact isRecord_skeleton.mpr isRecord

/-- The rules of a block can be applied exactly if the record admits each of them. -/
theorem applyRules_ok_iff (isRecord : defn.IsRecord) :
    (∃ final, rules.foldlM applyRule defn = .ok final) ↔ ∀ rule ∈ rules, defn.Admits rule := by
  induction rules generalizing defn with
  | nil => simp [pure, Except.pure]
  | cons rule others ih =>
    have step : ∀ changed, applyRule defn rule = .ok changed →
        ((∃ final, others.foldlM applyRule changed = .ok final) ↔
          ∀ other ∈ others, defn.Admits other) := by
      intro changed applied
      have sameAdmits : ∀ other, changed.Admits other ↔ defn.Admits other := by
        intro other
        rw [← admits_skeleton, applyRule_skeleton applied, admits_skeleton]
      rw [ih (applyRule_isRecord isRecord applied)]
      exact forall₂_congr fun other _ => sameAdmits other
    rw [forall_mem_cons]
    simp only [foldlM_cons]
    constructor
    · rintro ⟨final, done⟩
      obtain ⟨changed, applied, rest⟩ := bind_ok_iff.mp done
      exact ⟨(applyRule_adds isRecord applied).1, (step changed applied).mp ⟨final, rest⟩⟩
    · rintro ⟨admits, othersAdmitted⟩
      obtain ⟨changed, applied⟩ := applyRule_ok_of_admits admits
      obtain ⟨final, rest⟩ := (step changed applied).mpr othersAdmitted
      exact ⟨final, bind_ok_iff.mpr ⟨changed, applied, rest⟩⟩

/-- The rules of a block add what their calls do, key by key and in order. -/
theorem applyRules_adds {final : Definition} (isRecord : defn.IsRecord)
    (applied : rules.foldlM applyRule defn = .ok final) (key : String) :
    ∃ added, (callsUnder key rules).mapM (Call.link defn key) = .ok added ∧
      final.held key = defn.held key ++ added := by
  induction rules generalizing defn with
  | nil =>
    cases applied
    exact ⟨[], rfl, (append_nil _).symm⟩
  | cons rule others ih =>
    rw [foldlM_cons] at applied
    obtain ⟨changed, first, rest⟩ := bind_ok_iff.mp applied
    obtain ⟨_, firstAdded, firstCalls, firstHeld⟩ := applyRule_adds isRecord first
    obtain ⟨added, calls, held⟩ := ih (applyRule_isRecord isRecord first) rest
    rw [Call.link_congr (applyRule_skeleton first)] at calls
    rw [callsUnder, filter_cons]
    by_cases sameKey : rule.key = key
    · subst sameKey
      refine ⟨firstAdded ++ added, ?_, ?_⟩
      · rw [if_pos (by simp), flatMap_cons]
        exact mapM_append_ok firstCalls calls
      · rw [held, firstHeld, if_pos rfl, append_assoc]
    · refine ⟨added, ?_, ?_⟩
      · rw [if_neg (by simpa using sameKey)]
        exact calls
      · rw [held, firstHeld, if_neg sameKey, append_nil]

/-- A rule under the word for the record itself is never about a field. -/
theorem build_sparesSelf {decls : List ScopedDeclaration} {reg : Registry}
    (built : build decls = .ok reg) :
    ∀ defn ∈ reg.definitions, defn.SparesSelf := by
  refine build_keeps ?_ ?_ built
  · intro defn bare field isField _
    rw [← bare, skeleton_fields] at isField
    obtain ⟨original, _, rfl⟩ := mem_map.mp isField
    rfl
  · intro _ _ rule _ defn changed applied before field isField isSelf
    refine eq_nil_iff_forall_not_mem.mpr fun constraint stated => ?_
    obtain ⟨original, isOriginal, sameName, old⟩ | ⟨notSelf, isKey, _⟩ :=
      applyRule_constraint applied isField stated
    · rw [before original isOriginal (sameName.trans isSelf)] at old
      cases old
    · exact notSelf (isKey.symm.trans isSelf)

end Registry

end SchemaLang
