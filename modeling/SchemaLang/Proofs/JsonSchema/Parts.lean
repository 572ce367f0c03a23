import Mathlib.Data.List.Nodup
import SchemaLang.Proofs.Json.Parts
import SchemaLang.Proofs.JsonSchema.Documents

/-!
# The objects inside a document

Schemas hold schemas, at any depth. What holds of every object inside a document follows the
way in which the document is written: the schema of a type holds those of its parts, the
schema of a record those of its fields. Two keywords are looked at. A reference stands alone
in its object, since other keywords beside it would not count; and the names of the members
that must be present are those of properties beside them.
-/

namespace SchemaLang

open Outcome List DefinedField Double

/-- The lengths that a constraint asks for are of some kind. -/
def Constraint.Lengths (lengths : Nat → Prop) : Constraint → Prop
  | .minLength length => lengths length
  | .maxLength length => lengths length
  | _ => True

theorem Constraint.lengths_true (constraint : Constraint) : constraint.Lengths fun _ => True := by
  cases constraint <;> trivial

namespace Json

/-- What holds throughout a value: every object has a property, and every integer is one of
binary64 numbers or a length of some kind. -/
structure Throughout (property : List (String × Json) → Prop) (lengths : Nat → Prop)
    (value : Json) : Prop where
  objects : Every property value
  integers : ∀ number : Int, Part (.number (.integer number)) value →
    (-2 ^ 53 < number ∧ number < 2 ^ 53) ∨ ∃ length : Nat, lengths length ∧ number = length

namespace Throughout

variable {property : List (String × Json) → Prop} {lengths : Nat → Prop}
  {members : List (String × Json)}

theorem string (text : String) : Throughout property lengths (.string text) :=
  ⟨by rintro _ ⟨⟩, by rintro _ ⟨⟩⟩

theorem bool (value : Bool) : Throughout property lengths (.bool value) :=
  ⟨.bool value, by rintro _ ⟨⟩⟩

theorem ofNat {value : Nat} (isLength : lengths value) :
    Throughout property lengths (.ofNat value) := by
  refine ⟨by rintro _ ⟨⟩, fun number part => .inr ⟨value, isLength, ?_⟩⟩
  cases part
  rfl

/-- A binary64 number is written as an integer only if it is small. -/
theorem ofDouble (value : Double) : Throughout property lengths (.ofDouble value) := by
  constructor
  case objects =>
    unfold Json.ofDouble
    split <;> rintro members ⟨⟩
  case integers =>
    intro number part
    unfold Json.ofDouble JsonNumber.ofDouble at part
    split at part
    · split at part
      · rename_i small
        cases part
        cases value with
        | finite negative units =>
          have limited := (Bool.and_eq_true_iff.mp small).2
          rw [magnitudeBelow, decide_eq_true_eq] at limited
          have below : units / unitsPerOne < 2 ^ 53 := by
            generalize unitsPerOne = one at limited
            exact Nat.div_lt_of_lt_mul (Nat.mul_comm one _ ▸ limited)
          simp only [truncated, signedUnits]
          generalize units / unitsPerOne = whole at below
          split <;> omega
        | infinite _ | nan => simp [truncated]
      · cases part
    · cases part

theorem array {items : List Json} (each : ∀ item ∈ items, Throughout property lengths item) :
    Throughout property lengths (.array items) := by
  constructor
  case objects => exact .array fun item member => (each item member).objects
  case integers =>
    intro number part
    cases part with
    | item member inside => exact (each _ member).integers number inside

theorem texts (texts : List String) : Throughout property lengths (.array (texts.map .string)) := by
  refine array fun item isItem => ?_
  obtain ⟨text, _, rfl⟩ := mem_map.mp isItem
  exact string text

theorem object (own : property members)
    (each : ∀ member ∈ members, Throughout property lengths member.2) :
    Throughout property lengths (.object members) := by
  constructor
  case objects => exact .object own fun member isMember => (each member isMember).objects
  case integers =>
    intro number part
    cases part with
    | member isMember inside => exact (each _ isMember).integers number inside

theorem of_member (throughout : Throughout property lengths (.object members))
    {member : String × Json} (isMember : member ∈ members) :
    Throughout property lengths member.2 :=
  ⟨throughout.objects.of_member isMember,
    fun number part => throughout.integers number (.member isMember part)⟩

end Throughout

end Json

namespace JsonSchema

open Json (Throughout)

variable {members : Members} {owner : Definition} {field : DefinedField}

/-- What holds of every object inside the document of a registry. -/
structure Sound (registry : Registry) (members : Members) : Prop where
  distinct : (members.map Prod.fst).Nodup
  reference : ∀ value, ("$ref", value) ∈ members → members = [("$ref", value)] ∧
    ∃ id definition, registry.get? id = some definition ∧
      value = .string (pointer registry id definition)
  required : ∀ names, ("required", .array names) ∈ members → names ≠ [] ∧ names.Nodup ∧
    ∃ properties, members.lookup "properties" = some (.object properties) ∧
      ∀ name ∈ names, ∃ text ∈ properties.map Prod.fst, name = .string text

variable {reg : Registry} {lengths : Nat → Prop}

/-- Members of different names, under neither of the two keywords. -/
def Unremarkable (members : Members) : Prop :=
  (members.map Prod.fst).Nodup ∧ ∀ member ∈ members, member.1 ≠ "$ref" ∧ member.1 ≠ "required"

theorem Unremarkable.sound (unremarkable : Unremarkable members) : Sound reg members :=
  ⟨unremarkable.1, fun _ member => absurd rfl (unremarkable.2 _ member).1,
    fun _ member => absurd rfl (unremarkable.2 _ member).2⟩

/-- Objects under names that are not the keyword for references: what they are named for does
not count. -/
theorem sound_of_objects (distinct : (members.map Prod.fst).Nodup)
    (plain : ∀ name ∈ members.map Prod.fst, PlainName name)
    (objects : ∀ member ∈ members, ∃ inner, member.2 = .object inner) : Sound reg members := by
  constructor
  case distinct => exact distinct
  case reference =>
    intro value member
    have named : PlainName "$ref" := plain _ (mem_map_of_mem member)
    exact absurd (named '$' (by decide)) (by unfold IsNameChar; decide)
  case required =>
    intro names member
    obtain ⟨inner, impossible⟩ := objects _ member
    cases impossible

/-! ## Types -/

/-- The bounds of a range stand beside its type. -/
theorem range_unremarkable (kind : Primitive) (least greatest : Option Double) :
    Unremarkable
      (ofPrimitive kind ++ boundMember "minimum" least ++ boundMember "maximum" greatest) := by
  cases kind <;> cases least <;> cases greatest <;>
    simp [Unremarkable, ofPrimitive, boundMember]

theorem boundMember_throughout (keyword : String) (bound? : Option Double) :
    ∀ member ∈ boundMember keyword bound?, Throughout (Sound reg) lengths member.2 := by
  cases bound? with
  | none => simp [boundMember]
  | some bound => exact forall_mem_singleton.mpr (.ofDouble bound)

theorem range_throughout (kind : Primitive) (least greatest : Option Double) :
    ∀ member ∈ ofPrimitive kind ++ boundMember "minimum" least ++ boundMember "maximum" greatest,
      Throughout (Sound reg) lengths member.2 := by
  have texts : ∀ member ∈ ofPrimitive kind, ∃ text, member.2 = .string text := by
    cases kind <;> simp [ofPrimitive]
  refine forall_mem_append.mpr ⟨forall_mem_append.mpr ⟨fun member isMember => ?_, ?_⟩, ?_⟩
  · obtain ⟨text, same⟩ := texts member isMember
    exact same ▸ .string text
  · exact boundMember_throughout "minimum" least
  · exact boundMember_throughout "maximum" greatest

/-- What is known of the members that are written for a type. -/
structure TypeSound (registry : Registry) (lengths : Nat → Prop) (members : Members) : Prop where
  /-- A reference stands alone. -/
  alone : Unremarkable members ∨ ∃ id definition, registry.get? id = some definition ∧
    members = [("$ref", .string (pointer registry id definition))]
  each : ∀ member ∈ members, Throughout (Sound registry) lengths member.2

/-- All objects in the schema of a type are sound. -/
theorem TypeSound.throughout (sound : TypeSound reg lengths members) :
    Throughout (Sound reg) lengths (.object members) := by
  refine .object ?_ sound.each
  rcases sound.alone with unremarkable | ⟨id, defn, found, rfl⟩
  · exact unremarkable.sound
  · constructor
    case distinct => exact nodup_singleton _
    case reference =>
      intro value member
      have same : value = .string (pointer reg id defn) := by simpa using member
      rw [same]
      exact ⟨rfl, id, defn, found, rfl⟩
    case required =>
      intro names member
      simp at member

/-- What is written for a type is sound. -/
theorem ofType_sound {type : FieldType Nat} {members : Members}
    (emitted : ofType reg type = .ok members) : TypeSound reg lengths members := by
  induction type generalizing members with
  | primitive kind =>
    cases emitted
    have alone := range_unremarkable kind none none
    simp only [boundMember, append_nil] at alone
    exact ⟨.inl alone, by simpa [boundMember] using range_throughout kind none none⟩
  | reference id =>
    rw [ofType] at emitted
    split at emitted
    · rename_i defn found
      cases emitted
      exact ⟨.inr ⟨id, defn, found, rfl⟩, forall_mem_singleton.mpr (.string _)⟩
    · cases emitted
  | array item ih =>
    obtain ⟨inner, done, rfl⟩ := map_ok_iff.mp emitted
    refine ⟨.inl (by simp [Unremarkable]), ?_⟩
    rw [forall_mem_cons, forall_mem_singleton]
    exact ⟨.string _, (ih done).throughout⟩
  | optional inner ih => exact ih (by rwa [ofType] at emitted)
  | union arms each =>
    obtain ⟨values, done, rfl⟩ := map_ok_iff.mp emitted
    rw [ofArms_eq_mapM] at done
    refine ⟨.inl (by simp [Unremarkable]), ?_⟩
    rw [forall_mem_singleton]
    refine .array fun value member => ?_
    obtain ⟨arm, isArm, written⟩ := exists_left (mapM_ok_iff.mp done) member
    obtain ⟨inner, here, rfl⟩ := map_ok_iff.mp written
    exact (each arm isArm here).throughout
  | range kind least greatest =>
    cases emitted
    exact ⟨.inl (range_unremarkable kind.primitive least greatest),
      range_throughout kind.primitive least greatest⟩

theorem ofType_distinct {type : FieldType Nat} (emitted : ofType reg type = .ok members) :
    (members.map Prod.fst).Nodup := by
  have sound : TypeSound reg (fun _ => True) members := ofType_sound emitted
  exact (sound.throughout.objects members .whole).distinct

/-! ## Fields -/

theorem ofConstraint_keyword (isArray : Bool) (constraint : Constraint) :
    (ofConstraint isArray constraint).1 ≠ "$ref" ∧
      (ofConstraint isArray constraint).1 ≠ "required" := by
  cases constraint <;> cases isArray <;> simp [ofConstraint]

variable {constraint : Constraint}

theorem ofConstraint_throughout (isArray : Bool) (bounded : constraint.Lengths lengths) :
    Throughout (Sound reg) lengths (ofConstraint isArray constraint).2 := by
  cases constraint with
  | pattern text => exact .string text
  | minLength _ | maxLength _ => exact .ofNat bounded
  | minimum bound | maximum bound | exclusiveMinimum bound | exclusiveMaximum bound =>
    exact .ofDouble bound
  | oneOf values =>
    refine .array fun item isItem => ?_
    obtain ⟨literal, _, rfl⟩ := mem_map.mp isItem
    cases literal with
    | text value => exact .string value
    | number value => exact .ofDouble value

/-- A wrapped reference is a member like others. -/
theorem wrapReference_sound (sound : TypeSound reg lengths members) :
    Unremarkable (wrapReference members) ∧
      ∀ member ∈ wrapReference members, Throughout (Sound reg) lengths member.2 := by
  unfold wrapReference
  split
  · refine ⟨by simp [Unremarkable], ?_⟩
    rw [forall_mem_singleton]
    exact .array (forall_mem_singleton.mpr sound.throughout)
  · rename_i notReference
    refine ⟨?_, sound.each⟩
    rcases sound.alone with unremarkable | ⟨id, defn, found, rfl⟩
    · exact unremarkable
    · exact absurd rfl notReference

/-- Adding a constraint sets the member of its keyword. -/
theorem addConstraint_inserts {changed : Members}
    (added : addConstraint owner field members constraint = .ok changed) :
    Json.insertMember (ofConstraint field.type.required.isArray constraint).1
      (ofConstraint field.type.required.isArray constraint).2 members = changed := by
  unfold addConstraint at added
  dsimp only at added
  split at added
  · split at added
    · cases added
    · exact Except.ok.inj added
  · exact Except.ok.inj added

/-- Adding a constraint keeps members sound. -/
theorem addConstraint_sound {changed : Members} (bounded : constraint.Lengths lengths)
    (unremarkable : Unremarkable members)
    (each : ∀ member ∈ members, Throughout (Sound reg) lengths member.2)
    (added : addConstraint owner field members constraint = .ok changed) :
    Unremarkable changed ∧ ∀ member ∈ changed, Throughout (Sound reg) lengths member.2 := by
  obtain rfl := addConstraint_inserts added
  refine ⟨⟨Json.insertMember_distinct unremarkable.1, fun member inserted => ?_⟩,
    fun member inserted => ?_⟩
  · rcases Json.mem_insertMember inserted with rfl | old
    · exact ofConstraint_keyword _ constraint
    · exact unremarkable.2 member old
  · rcases Json.mem_insertMember inserted with rfl | old
    · exact ofConstraint_throughout _ bounded
    · exact each member old

/-- All objects in the schema of a field are sound. -/
theorem ofField_throughout (bounded : ∀ constraint ∈ field.constraints, constraint.Lengths lengths)
    (emitted : ofField reg owner field = .ok members) :
    Throughout (Sound reg) lengths (.object members) := by
  obtain ⟨base, found, rest⟩ := bind_ok_iff.mp emitted
  have sound : TypeSound reg lengths base := ofType_sound found
  split at rest
  · cases rest
    exact sound.throughout
  · have kept := foldlM_keeps (fun state => Unremarkable state ∧
      ∀ member ∈ state, Throughout (Sound reg) lengths member.2) rest
      (wrapReference_sound sound) fun state constraint next isConstraint added holds =>
        addConstraint_sound (bounded constraint isConstraint) holds.1 holds.2 added
    exact .object kept.1.sound kept.2

/-! ## Definitions -/

/-- The keywords at the top of the schema of a definition. -/
def definitionKeywords : List String :=
  ["type", "enum", "properties", "required", "additionalProperties"]

/-- The members of a record whose properties are sound. -/
theorem recordMembers_throughout {content : RecordBody} {properties : Members}
    (distinct : (content.fields.map name).Nodup)
    (names : properties.map Prod.fst = content.fields.map name)
    (inside : Throughout (Sound reg) lengths (.object properties)) :
    Throughout (Sound reg) lengths (.object (recordMembers content properties)) := by
  have required : (requiredNames content).Sublist (content.fields.map name) :=
    filter_sublist.map name
  unfold recordMembers requiredMembers
  split
  · refine .object (Unremarkable.sound (by simp [Unremarkable])) ?_
    rw [forall_mem_cons, forall_mem_cons, nil_append, forall_mem_singleton]
    exact ⟨.string _, inside, .bool false⟩
  · rename_i nonempty
    refine .object ⟨by simp, fun value member => by simp at member, fun stated member => ?_⟩ ?_
    · obtain rfl : stated = (requiredNames content).map Json.string := by simpa using member
      rw [List.isEmpty_iff] at nonempty
      refine ⟨by simpa using nonempty, ?_, properties, rfl, ?_⟩
      · exact List.Nodup.map (fun _ _ => Json.string.inj) (distinct.sublist required)
      · intro name isStated
        obtain ⟨text, isRequired, rfl⟩ := mem_map.mp isStated
        exact ⟨text, names ▸ required.subset isRequired, rfl⟩
    · rw [forall_mem_cons, forall_mem_cons, forall_mem_append, forall_mem_singleton,
        forall_mem_singleton]
      exact ⟨.string _, inside, .texts _, .bool false⟩

variable {definition defn : Definition}

/-- Few keywords stand at the top of the schema of a definition. -/
theorem ofDefinition_keywords (proper : reg.Proper)
    (isDefinition : defn ∈ reg.definitions)
    (emitted : ofDefinition reg defn = .ok members) :
    ∀ keyword ∈ members.map Prod.fst, keyword ∈ definitionKeywords := by
  unfold ofDefinition at emitted
  split at emitted
  · cases emitted
    simp [definitionKeywords]
  · rename_i content body
    obtain ⟨properties, _, rfl⟩ := ofRecord_members proper isDefinition body emitted
    unfold recordMembers requiredMembers
    split <;> simp [definitionKeywords]

/-- All objects in the schema of a definition are sound. -/
theorem ofDefinition_throughout (proper : reg.Proper)
    (isDefinition : defn ∈ reg.definitions)
    (bounded : ∀ field ∈ defn.fields, ∀ constraint ∈ field.constraints, constraint.Lengths
      lengths) (emitted : ofDefinition reg defn = .ok members) :
    Throughout (Sound reg) lengths (.object members) := by
  unfold ofDefinition at emitted
  split at emitted
  · rename_i names body
    cases emitted
    refine .object (Unremarkable.sound (by simp [Unremarkable])) ?_
    rw [forall_mem_cons, forall_mem_singleton]
    exact ⟨.string _, .texts names⟩
  · rename_i content body
    have fields : defn.fields = content.fields := by rw [Definition.fields, body]
    have distinct := fields ▸ proper.fieldNames defn isDefinition
    obtain ⟨properties, written, rfl⟩ := ofRecord_members proper isDefinition body emitted
    have names : content.fields.map name = properties.map Prod.fst := by
      refine map_eq_of_forall₂ written ?_
      rintro field _ ⟨fieldMembers, _, rfl⟩
      rfl
    refine recordMembers_throughout distinct names.symm (.object (sound_of_objects ?_ ?_ ?_) ?_)
    · exact names ▸ distinct
    · rw [← names]
      intro name member
      obtain ⟨field, isField, rfl⟩ := mem_map.mp member
      exact proper.plainFields defn isDefinition field (fields ▸ isField)
    · intro property isProperty
      obtain ⟨field, _, fieldMembers, _, rfl⟩ := exists_left written isProperty
      exact ⟨fieldMembers, rfl⟩
    · intro property isProperty
      obtain ⟨field, isField, fieldMembers, found, rfl⟩ := exists_left written isProperty
      exact ofField_throughout (bounded field (fields ▸ isField)) found

end JsonSchema

end SchemaLang
