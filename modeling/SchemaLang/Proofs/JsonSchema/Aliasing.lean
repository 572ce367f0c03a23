import SchemaLang.Proofs.JsonSchema.Merging
import SchemaLang.Proofs.JsonSchema.Relabelling
import SchemaLang.Proofs.Registry.Aliasing

/-!
# Documents under an alias

The names of definitions stand at three places of a document: in its title, as the names of the
members under `definitions`, and inside references. `documentInScope` puts an alias in front of all
of them and leaves the rest of the document as it is. That is all an alias does to a document: the
registry in the scope has a document exactly if the registry has one, and it is the changed one.

The names of fields are not changed, and a field may be called like a keyword. So only a text under
`$ref` counts as a reference, and the schema of a field is an object. Conflicts between constraints
are the same, because different values stay different and the values of constraints stay the same.
-/

namespace SchemaLang

open Outcome List Registry Json

/-! ## Documents in a scope -/

namespace JsonSchema

/-- A reference, with the name of the definition it leads to in a scope. -/
def referenceInScope (scope text : String) : String :=
  match "#/definitions/".toList.isPrefixOf? text.toList with
  | some name => "#/definitions/" ++ qualify (some scope) (.ofList name)
  | none => text

mutual

/-- A part of a schema, with the references inside it in a scope. The keyword is the name under
which the part stands. -/
def inScope (scope keyword : String) : Json → Json
  | .null => .null
  | .bool value => .bool value
  | .number value => .number value
  | .string text => .string (if keyword = "$ref" then referenceInScope scope text else text)
  | .array items => .array (itemsInScope scope items)
  | .object members => .object (membersInScope scope members)

def itemsInScope (scope : String) : List Json → List Json
  | [] => []
  | item :: items => inScope scope "" item :: itemsInScope scope items

def membersInScope (scope : String) : Members → Members
  | [] => []
  | (name, value) :: members => (name, inScope scope name value) :: membersInScope scope members

end

/-- A title in a scope. -/
def titleInScope (scope : String) : Json → Json
  | .string title => .string (qualify (some scope) title)
  | value => value

/-- Definitions in a scope, with the references inside them. -/
def definitionsInScope (scope : String) : Json → Json
  | .object members => .object (members.map fun member =>
      (qualify (some scope) member.1, inScope scope member.1 member.2))
  | value => value

/-- A member of a document in a scope. -/
def rootMemberInScope (scope : String) (member : String × Json) : String × Json :=
  if member.1 = "title" then (member.1, titleInScope scope member.2)
  else if member.1 = "definitions" then (member.1, definitionsInScope scope member.2)
  else (member.1, inScope scope member.1 member.2)

/-- A document in a scope. -/
def documentInScope (scope : String) : Json → Json
  | .object members => .object (members.map (rootMemberInScope scope))
  | value => value

variable {scope : String}

theorem itemsInScope_eq (items : List Json) :
    itemsInScope scope items = items.map (inScope scope "") := by
  induction items with
  | nil => rfl
  | cons item items ih => rw [itemsInScope, ih, map_cons]

theorem membersInScope_eq (members : Members) :
    membersInScope scope members =
      members.map fun member => (member.1, inScope scope member.1 member.2) := by
  induction members with
  | nil => rfl
  | cons member members ih =>
    rw [membersInScope, ih, map_cons]

theorem membersInScope_append (members others : Members) :
    membersInScope scope (members ++ others) =
      membersInScope scope members ++ membersInScope scope others := by
  simp only [membersInScope_eq, map_append]

/-! ## Different parts stay different -/

/-- References to definitions are those that are changed, and they stay such references. -/
theorem referenceInScope_cases (scope text : String) :
    (∃ name, text = "#/definitions/" ++ name ∧
      referenceInScope scope text = "#/definitions/" ++ qualify (some scope) name) ∨
    ((∀ name, text ≠ "#/definitions/" ++ name) ∧ referenceInScope scope text = text) := by
  unfold referenceInScope
  cases found : "#/definitions/".toList.isPrefixOf? text.toList with
  | some name =>
    refine .inl ⟨.ofList name, ?_, rfl⟩
    have split := isPrefixOf?_eq_some_iff_append_eq.mp found
    rw [← String.toList_inj, String.toList_append, ← split]
    exact congrArg ("#/definitions/".toList ++ ·) String.toList_ofList.symm
  | none =>
    refine .inr ⟨fun name same => ?_, rfl⟩
    have isThere : "#/definitions/".toList.isPrefixOf? text.toList = some name.toList := by
      rw [isPrefixOf?_eq_some_iff_append_eq, ← String.toList_append, same]
    rw [isThere] at found
    cases found

theorem referenceInScope_definition (scope name : String) :
    referenceInScope scope ("#/definitions/" ++ name) =
      "#/definitions/" ++ qualify (some scope) name := by
  obtain ⟨other, same, changed⟩ | ⟨away, _⟩ :=
    referenceInScope_cases scope ("#/definitions/" ++ name)
  · rw [changed, (String.append_right_inj _).mp same]
  · exact absurd rfl (away name)

theorem referenceInScope_injective (scope : String) :
    Function.Injective (referenceInScope scope) := by
  intro text other same
  obtain ⟨name, rfl, changed⟩ | ⟨away, unchanged⟩ := referenceInScope_cases scope text <;>
    obtain ⟨otherName, rfl, otherChanged⟩ | ⟨otherAway, otherUnchanged⟩ :=
      referenceInScope_cases scope other
  · rw [changed, otherChanged, String.append_right_inj, qualify_inj] at same
    rw [same]
  · rw [changed, otherUnchanged] at same
    exact absurd same.symm (otherAway _)
  · rw [unchanged, otherChanged] at same
    exact absurd same (away _)
  · rw [← unchanged, same, otherUnchanged]

/-- Different parts stay different in a scope. -/
theorem inScope_injective (scope keyword : String) :
    Function.Injective (inScope scope keyword) := by
  intro value
  induction value using induction generalizing keyword with
  | null =>
    intro other same
    cases other with
    | null => rfl
    | _ => cases same
  | bool value =>
    intro other same
    cases other with
    | bool otherValue => exact same
    | _ => cases same
  | number value =>
    intro other same
    cases other with
    | number otherValue => exact same
    | _ => cases same
  | string text =>
    intro other same
    cases other with
    | string otherText =>
      rw [inScope, inScope, string.injEq] at same
      split at same
      · rw [referenceInScope_injective scope same]
      · rw [same]
    | _ => cases same
  | array items each =>
    intro other same
    cases other with
    | array others =>
      rw [inScope, inScope, array.injEq, itemsInScope_eq, itemsInScope_eq] at same
      refine congrArg array (eq_of_map_eq ?_ same)
      exact fun item member other sameItem => each item member "" sameItem
    | _ => cases same
  | object members each =>
    intro other same
    cases other with
    | object others =>
      rw [inScope, inScope, object.injEq, membersInScope_eq, membersInScope_eq] at same
      refine congrArg object (eq_of_map_eq ?_ same)
      rintro ⟨name, value⟩ member ⟨otherName, otherValue⟩ samePair
      obtain ⟨sameName, sameValue⟩ := Prod.mk.inj samePair
      dsimp only at sameName sameValue
      subst sameName
      exact congrArg (Prod.mk name) (each _ member name sameValue)
    | _ => cases same

/-! ## Members -/

theorem lookup_membersInScope (members : Members) (keyword : String) :
    (membersInScope scope members).lookup keyword =
      (members.lookup keyword).map (inScope scope keyword) := by
  induction members with
  | nil => rfl
  | cons member members ih =>
    rw [membersInScope, lookup_cons, lookup_cons, ih]
    by_cases same : keyword = member.1
    · simp [same]
    · simp [beq_false_of_ne same]

section Insertion

variable {key : String → String} (injective : Function.Injective key)
  (change : String → Json → Json)

include injective

theorem insertMember_map (name : String) (value : Json) (members : Members) :
    insertMember (key name) (change name value)
        (members.map fun member => (key member.1, change member.1 member.2)) =
      (insertMember name value members).map fun member =>
        (key member.1, change member.1 member.2) := by
  induction members with
  | nil => rfl
  | cons member members ih =>
    rw [map_cons, insertMember, insertMember]
    by_cases same : member.1 = name
    · rw [if_pos same, if_pos (congrArg key same), map_cons]
    · rw [if_neg same, if_neg (fun keys => same (injective keys)), ih, map_cons]

theorem insertMembers_map (members made : Members) :
    (members.map fun member => (key member.1, change member.1 member.2)).foldl
        (fun result member => insertMember member.1 member.2 result)
        (made.map fun member => (key member.1, change member.1 member.2)) =
      (members.foldl (fun result member => insertMember member.1 member.2 result) made).map
        fun member => (key member.1, change member.1 member.2) := by
  induction members generalizing made with
  | nil => rfl
  | cons member members ih =>
    rw [map_cons, foldl_cons, foldl_cons, insertMember_map injective change, ih]

/-- Names that stay different make an object of the changed members. -/
theorem ofMembers_map (members : Members) :
    ∃ made, ofMembers members = .object made ∧
      ofMembers (members.map fun member => (key member.1, change member.1 member.2)) =
        .object (made.map fun member => (key member.1, change member.1 member.2)) :=
  ⟨_, rfl, congrArg object (insertMembers_map injective change members [])⟩

end Insertion

section

variable (keyword : String)

theorem ofMembers_inScope (members : Members) :
    inScope scope keyword (ofMembers members) = ofMembers (membersInScope scope members) := by
  obtain ⟨made, isMade, changed⟩ := ofMembers_map Function.injective_id (inScope scope) members
  rw [isMade, inScope, membersInScope_eq, membersInScope_eq]
  exact changed.symm

theorem definitionsInScope_ofMembers (members : Members) :
    definitionsInScope scope (ofMembers members) = ofMembers (members.map fun member =>
        (qualify (some scope) member.1, inScope scope member.1 member.2)) := by
  have injective : Function.Injective (qualify (some scope)) := fun _ _ => qualify_inj.mp
  obtain ⟨made, isMade, changed⟩ := ofMembers_map injective (inScope scope) members
  rw [isMade, changed, definitionsInScope]

/-! ## Types and constraints -/

theorem ofDouble_inScope (value : Double) :
    inScope scope keyword (.ofDouble value) = .ofDouble value := by
  unfold ofDouble
  split <;> rfl

theorem strings_inScope (texts : List String) :
    inScope scope keyword (.array (texts.map .string)) = .array (texts.map .string) := by
  rw [inScope, itemsInScope_eq, map_map]
  rfl

theorem ofPrimitive_inScope (kind : Primitive) :
    membersInScope scope (ofPrimitive kind) = ofPrimitive kind := by
  cases kind <;> simp [ofPrimitive, membersInScope, inScope]

theorem boundMember_inScope (bound? : Option Double) :
    membersInScope scope (boundMember keyword bound?) = boundMember keyword bound? := by
  cases bound? with
  | none => rfl
  | some bound => rw [boundMember, membersInScope, ofDouble_inScope, membersInScope]

end

/-- The value of a constraint names no definition. -/
theorem ofConstraint_inScope (scope : String) (isArray : Bool) (constraint : Constraint) :
    inScope scope (ofConstraint isArray constraint).1 (ofConstraint isArray constraint).2 =
      (ofConstraint isArray constraint).2 := by
  cases constraint with
  | pattern text => simp [ofConstraint, inScope]
  | minLength _ | maxLength _ => rfl
  | oneOf values =>
    rw [ofConstraint, inScope, itemsInScope_eq, map_map]
    refine congrArg array (map_congr_left fun value _ => ?_)
    cases value with
    | text value => simp [ofLiteral, inScope]
    | number value => exact ofDouble_inScope "" value
  | _ => exact ofDouble_inScope _ _

variable {registry reg : Registry}

theorem pointer_inScope (id : Nat) (defn : Definition) :
    pointer (reg.inScope scope) id (defn.inScope scope) =
      referenceInScope scope (pointer reg id defn) := by
  unfold pointer
  rw [show entry? (reg.inScope scope) = reg.entry? from rfl]
  split
  · rfl
  · exact (referenceInScope_definition scope defn.name).symm

/-- The schema of a type changes in its references only. -/
theorem ofType_inScope (type : FieldType Nat) :
    Mirrors (membersInScope scope) (ofType reg type)
      (ofType (reg.inScope scope) type) := by
  induction type with
  | primitive kind => exact .of_eq (ofPrimitive_inScope kind)
  | reference id =>
    rw [ofType, ofType, get?_inScope]
    cases reg.get? id with
    | none => exact .fault
    | some defn =>
      refine .of_eq ?_
      rw [pointer_inScope, membersInScope, inScope, if_pos rfl, membersInScope]
  | array item ih =>
    rw [ofType, ofType]
    refine ih.map fun members => ?_
    simp [membersInScope, inScope]
  | optional inner ih =>
    rw [ofType, ofType]
    exact ih
  | union arms each =>
    rw [ofType, ofType, ofArms_eq_mapM, ofArms_eq_mapM]
    have mirrors : Mirrors (map (inScope scope ""))
        (arms.mapM fun arm => (ofType reg arm).map object)
        ((arms.map id).mapM fun arm => (ofType (reg.inScope scope) arm).map object) :=
      .mapM id fun arm isArm => (each arm isArm).map fun members => by rw [inScope]
    rw [map_id] at mirrors
    refine mirrors.map fun values => ?_
    simp [membersInScope, inScope, itemsInScope_eq]
  | range kind least greatest =>
    rw [ofType, ofType]
    refine .of_eq ?_
    rw [membersInScope_append, membersInScope_append, ofPrimitive_inScope, boundMember_inScope,
      boundMember_inScope]

variable {owner : Definition} {field : DefinedField}

/-- The value of a constraint is there already, or another one, in a scope as outside. -/
theorem identical_inScope (isArray : Bool) (constraint : Constraint) (existing : Json) :
    (inScope scope (ofConstraint isArray constraint).1 existing).identical
        (ofConstraint isArray constraint).2 =
      existing.identical (ofConstraint isArray constraint).2 := by
  have identical_iff (value : Json) : value.identical (ofConstraint isArray constraint).2 = true ↔
      value = (ofConstraint isArray constraint).2 := by
    constructor
    · exact ofConstraint_rigid value
    · rintro rfl
      exact ofConstraint_identical_self isArray constraint
  rw [Bool.eq_iff_iff, identical_iff, identical_iff]
  conv_lhs => rw [← ofConstraint_inScope scope isArray constraint]
  exact (inScope_injective scope _).eq_iff

theorem addConstraint_inScope (members : Members) (constraint : Constraint) :
    Mirrors (membersInScope scope) (addConstraint owner field members constraint)
      (addConstraint (owner.inScope scope) field (membersInScope scope members) constraint) := by
  have inserted := insertMember_map Function.injective_id (inScope scope)
    (ofConstraint field.type.required.isArray constraint).1
    (ofConstraint field.type.required.isArray constraint).2 members
  simp only [id_eq, ← membersInScope_eq] at inserted
  rw [ofConstraint_inScope] at inserted
  unfold addConstraint
  dsimp only
  rw [lookup_membersInScope]
  cases members.lookup (ofConstraint field.type.required.isArray constraint).1 with
  | none => exact .of_eq inserted.symm
  | some existing =>
    simp only [Option.map_some, identical_inScope]
    split
    · exact .fault
    · exact .of_eq inserted.symm

theorem wrapReference_inScope (members : Members) :
    membersInScope scope (wrapReference members) =
      wrapReference (membersInScope scope members) := by
  unfold wrapReference
  rw [lookup_membersInScope, Option.isSome_map]
  split
  · simp [membersInScope, inScope, itemsInScope]
  · rfl

theorem ofField_inScope :
    Mirrors (membersInScope scope) (ofField reg owner field)
      (ofField (reg.inScope scope) (owner.inScope scope) field) := by
  refine (ofType_inScope field.type.required).bind fun members _ => ?_
  split
  · exact .value members
  · rw [← wrapReference_inScope]
    exact .foldlM (fun members constraint => addConstraint_inScope members constraint) _

/-! ## Definitions and documents -/

/-- A field as a member of `properties`. -/
def writeProperty (registry : Registry) (owner : Definition) (field : DefinedField) :
    Except Error (String × Json) := do
  return (field.name, object (← ofField registry owner field))

theorem ofRecord_eq (reg : Registry) (owner : Definition) (content : RecordBody) :
    ofRecord reg owner content = do
      let properties ← content.fields.mapM (writeProperty reg owner)
      let required := (content.fields.filter (isRequired content)).map DefinedField.name
      return [("type", .string "object"), ("properties", ofMembers properties)] ++
        (if required.isEmpty then [] else [("required", .array (required.map .string))]) ++
        [("additionalProperties", .bool false)] := rfl

theorem ofRecord_inScope (content : RecordBody) :
    Mirrors (membersInScope scope) (ofRecord reg owner content)
      (ofRecord (reg.inScope scope) (owner.inScope scope) content) := by
  have written (field : DefinedField) :
      Mirrors (fun member => (member.1, inScope scope member.1 member.2))
        (writeProperty reg owner field)
        (writeProperty (reg.inScope scope) (owner.inScope scope) field) :=
    ofField_inScope.bind fun members _ => .of_eq (by rw [inScope])
  have properties := Mirrors.mapM id fun field (_ : field ∈ content.fields) => written field
  rw [map_id] at properties
  rw [ofRecord_eq, ofRecord_eq]
  refine properties.bind fun properties _ => .of_eq ?_
  rw [membersInScope_append, membersInScope_append, membersInScope, membersInScope, membersInScope,
    ofMembers_inScope, membersInScope_eq properties]
  split
  · simp [membersInScope, inScope]
  · rw [membersInScope, strings_inScope]
    simp [membersInScope, inScope]

theorem ofDefinition_inScope (defn : Definition) :
    Mirrors (membersInScope scope) (ofDefinition reg defn)
      (ofDefinition (reg.inScope scope) (defn.inScope scope)) := by
  obtain ⟨name, scope?, location, body⟩ := defn
  cases body with
  | enumeration members =>
    refine .of_eq ?_
    rw [membersInScope, membersInScope, strings_inScope]
    simp [membersInScope, inScope]
  | record content => exact ofRecord_inScope content

/-- No member of the schema of a definition is called like those that name definitions. -/
theorem ofDefinition_names {defn : Definition} {members : Members}
    (done : ofDefinition reg defn = .ok members) :
    ∀ member ∈ members, member.1 ≠ "title" ∧ member.1 ≠ "definitions" := by
  unfold ofDefinition at done
  split at done
  · cases done
    simp
  · rw [ofRecord_eq] at done
    obtain ⟨properties, _, same⟩ := bind_ok_iff.mp done
    cases same
    intro member listed
    split at listed
    · simp only [append_nil, cons_append, nil_append, mem_cons, not_mem_nil, or_false] at listed
      rcases listed with rfl | rfl | rfl <;> simp
    · simp only [cons_append, nil_append, mem_cons, not_mem_nil, or_false] at listed
      rcases listed with rfl | rfl | rfl | rfl <;> simp

theorem rootMember_inScope {members : Members}
    (plain : ∀ member ∈ members, member.1 ≠ "title" ∧ member.1 ≠ "definitions") :
    members.map (rootMemberInScope scope) = membersInScope scope members := by
  rw [membersInScope_eq]
  refine map_congr_left fun member listed => ?_
  obtain ⟨noTitle, noDefinitions⟩ := plain member listed
  rw [rootMemberInScope, if_neg noTitle, if_neg noDefinitions]

theorem rootMembers_inScope :
    Mirrors (map (rootMemberInScope scope)) (rootMembers reg)
      (rootMembers (reg.inScope scope)) := by
  unfold rootMembers
  rw [show entry? (reg.inScope scope) = reg.entry? from rfl]
  cases reg.entry? with
  | none => exact .value []
  | some id =>
    dsimp only
    rw [get?_inScope]
    cases reg.get? id with
    | none => exact .fault
    | some defn =>
      refine (ofDefinition_inScope defn).bind fun members done => .of_eq ?_
      rw [map_cons, rootMember_inScope (ofDefinition_names done)]
      rfl

theorem others_inScope (reg : Registry) :
    others (reg.inScope scope) = (others reg).map (Prod.map id (Definition.inScope scope)) := by
  have numbered : (reg.inScope scope).numbered =
      reg.numbered.map (Prod.map id (Definition.inScope scope)) := by
    refine ext_getElem? fun place => ?_
    simp only [Registry.numbered, Registry.inScope, getElem?_mapIdx, getElem?_map, Option.map_map]
    rfl
  rw [others, numbered, filter_map]
  rfl

/-- The document of a registry in a scope is the document in the scope. -/
theorem ofRegistry_inScope (scope : String) (reg : Registry) :
    Mirrors (documentInScope scope) (ofRegistry reg)
      (ofRegistry (reg.inScope scope)) := by
  rw [ofRegistry_eq, ofRegistry_eq, others_inScope]
  refine rootMembers_inScope.bind fun root _ => ?_
  have members : ∀ numbered : Nat × Definition, Mirrors
      (fun member => (qualify (some scope) member.1, inScope scope member.1 member.2))
      (writeMember reg numbered) (writeMember (reg.inScope scope) (numbered.map id _)) :=
    fun numbered => (ofDefinition_inScope numbered.2).bind fun members _ =>
      .of_eq (by rw [inScope]; rfl)
  refine (Mirrors.mapM _ fun numbered _ => members numbered).bind fun defns _ => .of_eq ?_
  have first : rootMemberInScope scope ("$schema", .string dialect) =
      ("$schema", .string dialect) := by
    simp [rootMemberInScope, inScope]
  have last : rootMemberInScope scope ("definitions", ofMembers defns) =
      ("definitions", definitionsInScope scope (ofMembers defns)) := by
    simp [rootMemberInScope]
  rw [documentInScope, map_append, map_append, map_singleton, map_singleton,
    first, last, definitionsInScope_ofMembers]

/-- Putting an alias in front of a module is a renaming. Declarations outside of any scope that make
a registry make one under the alias, with the alias in front of every name and otherwise the same;
and it has a document if and only if the first one has, with the alias in front of the title, of the
names of its definitions and of the names in its references, and otherwise the same. -/
theorem aliasing_renames (scope : String) {declarations : List ScopedDeclaration}
    (unscoped : ∀ statement ∈ declarations, statement.scope? = none)
    (built : Registry.build declarations = .ok registry) :
    Registry.build (declarations.map (ScopedDeclaration.inScope scope)) =
        .ok (registry.inScope scope) ∧
      ((∃ document, ofRegistry registry = .ok document) ↔
        ∃ document, ofRegistry (registry.inScope scope) = .ok document) ∧
      ∀ document, ofRegistry registry = .ok document →
        ofRegistry (registry.inScope scope) = .ok (documentInScope scope document) := by
  have mirrors := ofRegistry_inScope scope registry
  exact ⟨build_inScope unscoped built, mirrors.ok_iff, fun _ => mirrors.ok⟩

/-- An entry, a record that refers to itself and an enum, with rules on the first two. -/
def linkedParts : String :=
  "entry Car \x7b part: Part level: Level? \x7d type Part \x7b next: Part[] | string \x7d " ++
    "enum Level \x7b low high \x7d validate Car \x7b self: required(level) \x7d " ++
    "validate Part \x7b next: one_of(none) \x7d"

/-- Under an alias the names of definitions start with it, and the rules still find theirs. -/
theorem linkedParts_renamed :
    ∃ declarations registry document, parse "a.sdl" linkedParts = .ok declarations ∧
      Registry.build (declarations.map (ScopedDeclaration.mk none 0)) = .ok registry ∧
      ofRegistry registry = .ok document ∧
      Registry.build ((declarations.map (ScopedDeclaration.mk none 0)).map
        (ScopedDeclaration.inScope "m")) = .ok (registry.inScope "m") ∧
      ofRegistry (registry.inScope "m") = .ok (documentInScope "m" document) ∧
      ((documentInScope "m" document).get? "definitions").map
        (fun definitions => definitions.members.map Prod.fst) = some ["m.Part", "m.Level"] := by
  obtain ⟨declarations, parsed, made⟩ := Outcome.ok_of_view
    (show (parse "a.sdl" linkedParts).toOption.map (fun declarations =>
        (build (declarations.map (ScopedDeclaration.mk none 0))).toOption.map
          fun registry => (ofRegistry registry).toOption.map fun document =>
            ((documentInScope "m" document).get? "definitions").map
              (fun definitions => definitions.members.map Prod.fst)) =
      some (some (some (some ["m.Part", "m.Level"]))) by decide +kernel)
  obtain ⟨registry, built, emitted⟩ := Outcome.ok_of_view made
  obtain ⟨document, written, names⟩ := Outcome.ok_of_view emitted
  obtain ⟨scopedBuilt, _, renamed⟩ := aliasing_renames "m" (by simp) built
  exact ⟨declarations, registry, document, parsed, built, written, scopedBuilt,
    renamed document written, names⟩

end JsonSchema

end SchemaLang
