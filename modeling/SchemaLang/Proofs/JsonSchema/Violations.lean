import SchemaLang.Proofs.Json.Places
import SchemaLang.Proofs.JsonSchema.Parts

/-!
# Where violations point

A failure names a place in the instance and carries a value. That the value stands at the place is
asked of the check: it goes down schema and instance at the same time, so this is shown for one
keyword, with what the parts of the instance give taken for granted, and then for a whole check by
counting its steps. There is one exception, and it can be seen in the schema: where undeclared
members are refused but none are declared, the first member of an object is carried by a failure
at the place of the object.

What is reported of a failure whose value stands at its place then points at what it reports. A
missing member is named behind the place of the object that should have it, a refused member
behind the place of the object that has it, and any other violation is reported where it is. Names
may be of any spelling, since they are escaped as the check escapes its own steps. Only a member
called `required` that is refused whatever its value is would be taken for a missing one.
-/

namespace SchemaLang

open List Pointer

namespace Json

variable {part : Json}

/-- What is at a place is a part. -/
theorem At.isPart {value : Json} {pointer : Pointer} (placed : At value pointer part) :
    Part part value := by
  induction placed with
  | whole => exact .whole
  | member found _ ih => exact .member (mem_of_lookup found) ih
  | item found _ ih => exact .item (mem_of_getElem? found) ih

variable {value : Json} {path : Pointer}

/-- The place of a member of an object. -/
theorem At.ofMember {members : List (String × Json)} (distinct : value.DistinctNames)
    (placed : value.At path (.object members)) {name : String}
    (member : (name, part) ∈ members) : value.At (path ++ [name]) part :=
  placed.trans (.member (lookup_of_mem (distinct members placed.isPart) member) .whole)

/-- The place of an item of a list. -/
theorem At.ofItem {items : List Json} (placed : value.At path (.array items)) {position : Nat}
    (found : items[position]? = some part) : value.At (path ++ [toString position]) part :=
  placed.trans (.item found .whole)

end Json

variable {keywords : List Keyword}

namespace JsonSchema

/-! ## Schemas inside a document -/

/-- The schemas that a document holds: its root, those that references lead to, and all schemas
inside them. -/
inductive SchemaDocument.Holds (document : SchemaDocument) : Schema → Prop where
  | root : Holds document document.root
  | target {text : String} {schema : Schema} (found : (text, schema) ∈ document.targets) :
      Holds document schema
  | property {keywords : List Keyword} {members : List (String × Schema)} {name : String}
      {schema : Schema} (outer : Holds document (.keywords keywords))
      (stated : .properties members ∈ keywords) (member : (name, schema) ∈ members) :
      Holds document schema
  | additional {keywords : List Keyword} {schema : Schema}
      (outer : Holds document (.keywords keywords))
      (stated : .additionalProperties schema ∈ keywords) : Holds document schema
  | items {keywords : List Keyword} {schema : Schema}
      (outer : Holds document (.keywords keywords)) (stated : .items schema ∈ keywords) :
      Holds document schema
  | itemInOrder {keywords : List Keyword} {schemas : List Schema} {schema : Schema}
      (outer : Holds document (.keywords keywords)) (stated : .itemsInOrder schemas ∈ keywords)
      (member : schema ∈ schemas) : Holds document schema
  | anyOf {keywords : List Keyword} {schemas : List Schema} {schema : Schema}
      (outer : Holds document (.keywords keywords)) (stated : .anyOf schemas ∈ keywords)
      (member : schema ∈ schemas) : Holds document schema
  | allOf {keywords : List Keyword} {schemas : List Schema} {schema : Schema}
      (outer : Holds document (.keywords keywords)) (stated : .allOf schemas ∈ keywords)
      (member : schema ∈ schemas) : Holds document schema
  | reference {keywords : List Keyword} {text : String}
      (outer : Holds document (.keywords keywords)) (stated : .reference text ∈ keywords) :
      Holds document (.reference text)

/-- Undeclared members are refused where no members are declared. -/
def SchemaDocument.RefusesAllMembers (document : SchemaDocument) : Prop :=
  ∃ keywords, document.Holds (.keywords keywords) ∧ .additionalProperties .never ∈ keywords ∧
    ∀ members, .properties members ∉ keywords

/-- A member called `required` is refused whatever its value is. -/
def SchemaDocument.RefusesRequired (document : SchemaDocument) : Prop :=
  ∃ keywords members, document.Holds (.keywords keywords) ∧ .properties members ∈ keywords ∧
    ("required", Schema.never) ∈ members

/-! ## What a failure says -/

/-- The value that a failure carries stands at its place in the instance. -/
def Failure.Located (value : Json) (failure : Failure) : Prop :=
  value.At failure.instancePath failure.value

/-- The kind of a failure is that of its value: the members that it names are missing there, or
there. The keyword `required` is only read off its place if the schema refuses such a member. -/
def Failure.Apt (document : SchemaDocument) (failure : Failure) : Prop :=
  match failure.kind with
  | .required property => ∃ name members, property = .string name ∧
      failure.value = .object members ∧ members.lookup name = none
  | .additionalProperties first others => ∃ members, failure.value = .object members ∧
      ∀ name ∈ first :: others, ∃ part, members.lookup name = some part
  | .other => failure.keyword = "required" → document.RefusesRequired

/-- Only a step of this name is read as the keyword `required`. -/
theorem Failure.step_of_keyword {failure : Failure} (named : failure.keyword = "required") :
    failure.schemaPath.getLast? = some "required" := by
  unfold keyword at named
  rw [splitOn_text] at named
  rcases eq_nil_or_concat' failure.schemaPath with whole | ⟨location, step, ends⟩
  · rw [whole] at named
    exact absurd named (by decide)
  · rw [ends, map_append, ← cons_append, map_singleton, getLast?_concat] at named
    rw [ends, getLast?_concat, Option.some.injEq]
    have same := unescape_flatMap_escapeChar step.toList
    generalize step.toList.flatMap escapeChar = escaped at named same
    cases escaped with
    | nil => exact absurd named (by decide)
    | cons first rest =>
      have spelled : first :: rest = "required".toList := by
        rw [← named, String.toList_ofList]
      rw [spelled] at same
      have read : "required".toList = step.toList := same
      exact (String.toList_inj.mp read).symm

/-- The numeral of a position is not the name of a keyword. -/
theorem toString_ne_required (position : Nat) : toString position ≠ "required" := by
  intro same
  have isDigit : ∀ c ∈ (toString position).toList, c.isDigit = true := by
    rw [Nat.toString_eq_ofList_toDigits, String.toList_ofList]
    exact fun c member => Nat.isDigit_of_mem_toDigits (by decide) (by decide) member
  rw [same] at isDigit
  exact absurd (isDigit 'r' (by decide)) (by decide)

variable {document : SchemaDocument} {value part : Json} {location path : Pointer}

/-- A failure of a document at an instance: its kind is that of its value, which stands at its
place unless the document refuses all members somewhere. -/
structure Failure.Sound (document : SchemaDocument) (value : Json) (failure : Failure) : Prop where
  apt : failure.Apt document
  located : document.RefusesAllMembers ∨ failure.Located value

/-- A check by the schemas of a document finds sound failures. A schema that refuses everything
is reached by the step `required` only if the document says so. -/
def SchemaCheck.Sound (document : SchemaDocument) (value : Json) (check : SchemaCheck) : Prop :=
  ∀ location schema path part, document.Holds schema →
    (schema = .never → location.getLast? = some "required" → document.RefusesRequired) →
    value.At path part → ∀ failure ∈ check location schema path part, failure.Sound document value

/-! ## Failures of one keyword -/

/-- A condition that fails is sound under any other keyword than `required`. -/
theorem failureIf_sound {failed : Bool} {keyword : String} (other : keyword ≠ "required")
    (placed : value.At path part) :
    ∀ failure ∈ failureIf failed (location ++ [keyword]) path part,
      failure.Sound document value := by
  intro failure found
  unfold failureIf at found
  split at found
  · rw [mem_singleton.mp found]
    refine ⟨fun named => absurd (Failure.step_of_keyword named) ?_, .inr placed⟩
    simpa using other
  · cases found

/-- By induction on the schemas: each is checked against the item at its position. -/
theorem checkInOrder_sound {check : SchemaCheck} (sound : check.Sound document value)
    {items : List Json} (placed : value.At path (.array items)) {schemas : List Schema}
    (held : ∀ schema ∈ schemas, document.Holds schema) {position : Nat} {rest : List Json}
    (aligned : rest = items.drop position) :
    ∀ failure ∈ checkInOrder check location path position schemas rest,
      failure.Sound document value := by
  induction schemas generalizing position rest with
  | nil => simp [checkInOrder]
  | cons schema schemas ih =>
    cases rest with
    | nil => simp [checkInOrder]
    | cons item rest =>
      have found : items[position]? = some item := by
        rw [← head?_drop, ← aligned, head?_cons]
      have next : rest = items.drop (position + 1) := by
        rw [← tail_drop, ← aligned, tail_cons]
      rw [checkInOrder, forall_mem_append]
      constructor
      · exact sound _ _ _ _ (held schema mem_cons_self)
          (fun _ same => absurd same (by simpa using toString_ne_required position))
          (placed.ofItem found)
      · exact ih (fun other member => held other (mem_cons_of_mem _ member)) next

/-- Members that are refused are members of the object, which stands at its place if some are
declared beside that. -/
theorem checkUndeclared_sound (held : document.Holds (.keywords keywords))
    (stated : .additionalProperties .never ∈ keywords) (placed : value.At path part) :
    ∀ failure ∈ checkUndeclared (declaredNames? keywords)
        (location ++ ["additionalProperties"]) path part, failure.Sound document value := by
  intro failure found
  unfold checkUndeclared at found
  split at found
  · rename_i declared _
    split at found
    · cases found
    · rename_i first others unexpected
      rw [mem_singleton.mp found]
      refine ⟨?_, .inr placed⟩
      have among : ∀ name ∈ first :: others, ∃ inner, (name, inner) ∈ part.members := by
        intro name member
        rw [← unexpected] at member
        obtain ⟨⟨_, inner⟩, isUndeclared, rfl⟩ := mem_map.mp member
        exact ⟨inner, mem_of_mem_filter isUndeclared⟩
      cases part with
      | object members =>
        refine ⟨members, rfl, fun name member => ?_⟩
        obtain ⟨inner, isMember⟩ := among name member
        refine Option.ne_none_iff_exists'.mp fun missing => ?_
        exact Json.lookup_eq_none_iff.mp missing (mem_map_of_mem isMember)
      | _ =>
        obtain ⟨_, isMember⟩ := among first mem_cons_self
        cases isMember
  · rename_i declared _
    rw [mem_singleton.mp found]
    refine ⟨fun named => absurd (Failure.step_of_keyword named) (by simp), .inl ?_⟩
    refine ⟨keywords, held, stated, fun properties isStated => ?_⟩
    cases findSome?_eq_none_iff.mp declared _ isStated
  · cases found

/-- The failures of a keyword are sound. -/
theorem Keyword.failures_sound (distinct : value.DistinctNames) {check : SchemaCheck}
    (sound : check.Sound document value) (held : document.Holds (.keywords keywords))
    {keyword : Keyword} (stated : keyword ∈ keywords) (placed : value.At path part) :
    ∀ failure ∈ keyword.failures check (declaredNames? keywords) location path part,
      failure.Sound document value := by
  cases keyword with
  | type _ | enum _ | anyOf _ => exact failureIf_sound (by decide) placed
  | bound kind edge =>
    cases part with
    | number number => exact failureIf_sound (by cases kind <;> decide) placed
    | _ => simp [Keyword.failures]
  | limit kind length => exact failureIf_sound (by cases kind <;> decide) placed
  | pattern stated =>
    cases part with
    | string text => exact failureIf_sound (by decide) placed
    | _ => simp [Keyword.failures]
  | required names =>
    cases part with
    | object members =>
      intro failure found
      obtain ⟨name, isMissing, rfl⟩ := mem_map.mp found
      have lacks := Option.isNone_iff_eq_none.mp (mem_filter.mp isMissing).2
      exact ⟨⟨name, members, rfl, rfl, lacks⟩, .inr placed⟩
    | _ => simp [Keyword.failures]
  | properties schemas =>
    intro failure found
    obtain ⟨⟨name, schema⟩, member, inside⟩ := mem_flatMap.mp found
    dsimp only at inside
    split at inside
    · rename_i inner isThere
      refine sound _ _ _ _ (.property held stated member) ?_ ?_ failure inside
      · rintro rfl isLast
        obtain rfl : name = "required" := by simpa using isLast
        exact ⟨keywords, schemas, held, stated, member⟩
      · cases part with
        | object members => exact placed.trans (.member isThere .whole)
        | _ => cases isThere
    · cases inside
  | additionalProperties schema =>
    by_cases isNever : schema = .never
    · subst isNever
      exact checkUndeclared_sound held stated placed
    · rw [Keyword.failures]
      · intro failure found
        obtain ⟨⟨name, inner⟩, isUndeclared, inside⟩ := mem_flatMap.mp found
        have member := mem_of_mem_filter isUndeclared
        refine sound _ _ _ _ (.additional held stated) (fun same => absurd same isNever) ?_
          failure inside
        cases part with
        | object members => exact placed.ofMember distinct member
        | _ => cases member
      · exact isNever
  | items schema =>
    cases part with
    | array items =>
      intro failure found
      obtain ⟨⟨item, position⟩, member, inside⟩ := mem_flatMap.mp found
      have isThere := mk_mem_zipIdx_iff_getElem?.mp member
      exact sound _ _ _ _ (.items held stated) (fun _ same => absurd same (by simp))
        (placed.ofItem isThere) failure inside
    | _ => simp [Keyword.failures]
  | itemsInOrder schemas =>
    cases part with
    | array items =>
      exact checkInOrder_sound sound placed
        (fun schema member => .itemInOrder held stated member) drop_zero.symm
    | _ => simp [Keyword.failures]
  | allOf schemas =>
    intro failure found
    obtain ⟨⟨schema, position⟩, member, inside⟩ := mem_flatMap.mp found
    have isThere := mk_mem_zipIdx_iff_getElem?.mp member
    exact sound _ _ _ _ (.allOf held stated (mem_of_getElem? isThere))
      (fun _ same => absurd same (by simpa using toString_ne_required position)) placed failure
      inside
  | reference text =>
    exact sound _ _ _ _ (.reference held stated) (fun same => by cases same) placed

/-! ## Failures of a document -/

/-- A check of any number of steps finds sound failures. -/
theorem SchemaDocument.check_sound (distinct : value.DistinctNames) (steps : Nat) :
    (document.check steps).Sound document value := by
  induction steps with
  | zero =>
    intro location schema path part _ _ _ failure found
    cases found
  | succ steps ih =>
    intro location schema path part held reached placed
    cases schema with
    | always =>
      intro failure found
      cases found
    | never =>
      intro failure found
      rw [mem_singleton.mp found]
      exact ⟨fun named => reached rfl (Failure.step_of_keyword named), .inr placed⟩
    | reference text =>
      rw [check]
      split
      · rename_i target found
        exact ih _ target path part (.target (Json.mem_of_lookup found))
          (fun _ same => absurd same (by simp)) placed
      · intro failure found
        cases found
    | keywords keywords =>
      intro failure found
      obtain ⟨keyword, stated, inside⟩ := mem_flatMap.mp found
      exact keyword.failures_sound distinct ih held stated placed failure inside

/-! ## What is reported -/

/-- Escaping tildes and then slashes is escaping each character by itself: the second step finds
no slash that the first has made. -/
theorem substitute_substitute (text : List Char) :
    substitute '/' ['~', '1'] (substitute '~' ['~', '0'] text) =
      text.flatMap escapeChar := by
  unfold substitute
  rw [flatMap_assoc]
  refine flatMap_congr fun c _ => ?_
  unfold escapeChar
  by_cases isTilde : c = '~'
  · simp [isTilde]
  · by_cases isSlash : c = '/' <;> simp [isTilde, isSlash]

/-- A step that is added to the text of a pointer is added to the pointer. -/
theorem PointerText.push_text (pointer : Pointer) (name : String) :
    PointerText.push ⟨pointer.text⟩ name = ⟨(pointer ++ [name]).text⟩ := by
  unfold push
  simp only [substitute_substitute, PointerText.mk.injEq]
  refine String.toList_inj.mp ?_
  simp [toList_text]

/-- The text of a violation's path, read as a pointer, leads to what the violation reports: to the
name that an object lacks, or to the value that the violation carries. -/
def Violation.PointsInto (value : Json) (violation : Violation) : Prop :=
  ∃ pointer, Pointer.ofText? violation.path.text = some pointer ∧
    if violation.keyword = "required" then
      ∃ object name members, pointer = object ++ [name] ∧ value.At object (.object members) ∧
        members.lookup name = none ∧ violation.value = .null
    else value.At pointer violation.value

/-- What is reported of a failure points at what it reports, if the value of the failure stands at
its place. -/
theorem Failure.Apt.pointsInto {failure : Failure} (apt : failure.Apt document)
    (admits : ¬ document.RefusesRequired) (located : failure.Located value) :
    ∀ violation ∈ failure.violations, violation.PointsInto value := by
  obtain ⟨path, schemaPath, kind, part⟩ := failure
  intro violation reported
  unfold violations at reported
  cases kind with
  | required property =>
    obtain ⟨name, members, rfl, rfl, lacks⟩ := apt
    rw [mem_singleton.mp reported, PointerText.push_text]
    refine ⟨_, ofText?_text _, ?_⟩
    rw [if_pos rfl]
    exact ⟨path, name, members, rfl, located, lacks, rfl⟩
  | additionalProperties first others =>
    obtain ⟨members, rfl, present⟩ := apt
    obtain ⟨name, member, rfl⟩ := mem_map.mp reported
    obtain ⟨inner, isThere⟩ := present name member
    rw [PointerText.push_text]
    refine ⟨_, ofText?_text _, ?_⟩
    rw [if_neg (by decide : "additionalProperties" ≠ "required")]
    have held : (Json.object members).members.lookup name = some inner := isThere
    rw [held]
    exact located.trans (.member isThere .whole)
  | other =>
    rw [mem_singleton.mp reported]
    refine ⟨_, ofText?_text _, ?_⟩
    rw [if_neg fun named => admits (apt named)]
    exact located

/-- Every violation of a document points at what it reports, if every failure of the check carries
the value at its place; no member called `required` may be refused outright. The check does carry
the value at its place, unless the document refuses all members of an object. -/
theorem violations_point_into_instance {schema value : Json} {document : SchemaDocument}
    (usable : SchemaDocument.ofJson schema = .ok document) (distinct : value.DistinctNames)
    (admits : ¬ document.RefusesRequired) {violations : List Violation}
    (checked : validate schema value = .ok violations) :
    ((∀ failure ∈ document.failures value, failure.Located value) →
      ∀ violation ∈ violations, violation.PointsInto value) ∧
    (¬ document.RefusesAllMembers →
      ∀ failure ∈ document.failures value, failure.Located value) := by
  obtain ⟨used, found, same⟩ := Outcome.bind_ok_iff.mp checked
  obtain rfl := Except.ok.inj (usable.symm.trans found)
  obtain rfl := Except.ok.inj same
  have sound : ∀ failure ∈ document.failures value, failure.Sound document value :=
    document.check_sound distinct _ [] document.root [] value .root
      (fun _ same => by cases same) .whole
  refine ⟨fun located violation reported => ?_, fun declares failure isFailure => ?_⟩
  · obtain ⟨failure, isFailure, inside⟩ := mem_flatMap.mp reported
    exact (sound failure isFailure).apt.pointsInto admits (located failure isFailure) violation
      inside
  · exact (sound failure isFailure).located.resolve_left declares

/-- A schema that refers to itself under a name that has to be escaped, with a condition beside the
reference, and requires a name that looks escaped. -/
def escapedNames : Json :=
  .object [
    ("properties", .object [
      ("a/b~", .object [("$ref", .string "#"), ("required", .array [.string "y"])]),
      ("", .object [("type", .string "string")])]),
    ("required", .array [.string "~1"]),
    ("additionalProperties", .bool false)]

/-- The conditions of that schema. -/
def escapedKeywords : List Keyword :=
  [.properties [("a/b~", .keywords [.reference "#", .required ["y"]]),
      ("", .keywords [.type [.string]])],
    .required ["~1"], .additionalProperties .never]

/-- The document of that schema. -/
def escapedDocument : SchemaDocument :=
  ⟨.keywords escapedKeywords, [("#", .keywords escapedKeywords)], 11⟩

/-- All schemas that are found from the root of this document. -/
theorem escapedDocument_holds {schema : Schema} (held : escapedDocument.Holds schema) :
    schema = .keywords escapedKeywords ∨ schema = .keywords [.reference "#", .required ["y"]] ∨
      schema = .keywords [.type [.string]] ∨ schema = .reference "#" ∨ schema = .never := by
  induction held with
  | root => exact .inl rfl
  | target found => simp_all [escapedDocument]
  | property _ stated member ih =>
    rcases ih with same | same | same | same | same <;> cases same
    · simp only [escapedKeywords, mem_cons, Keyword.properties.injEq, reduceCtorEq,
        not_mem_nil, or_false] at stated
      subst stated
      simp only [mem_cons, Prod.mk.injEq, not_mem_nil, or_false] at member
      rcases member with ⟨_, rfl⟩ | ⟨_, rfl⟩ <;> simp
    · simp at stated
    · simp at stated
  | _ =>
    rename_i ih
    rcases ih with same | same | same | same | same <;> cases same <;>
      simp_all [escapedKeywords]

/-- An instance with a missing member at the top, and four faults further down. -/
def escapedInstance : Json :=
  .object [("a/b~", .object [("", .number (.integer 1)), ("x", .bool true), ("~1", .null)])]

/-- The violations point at the empty name, the two undeclared ones and the two missing ones. -/
theorem escapedInstance_points :
    ∃ violations, validate escapedNames escapedInstance = .ok violations ∧
      violations.map (fun violation => (violation.path.text, violation.keyword)) =
        [("/a~1b~0/", "type"), ("/a~1b~0/x", "additionalProperties"),
          ("/a~1b~0/~01", "additionalProperties"), ("/a~1b~0/y", "required"),
          ("/~01", "required")] ∧
      ∀ violation ∈ violations, violation.PointsInto escapedInstance := by
  have usable : SchemaDocument.ofJson escapedNames = .ok escapedDocument := rfl
  have distinct : escapedInstance.DistinctNames := by
    refine .object (by decide) ?_
    rw [List.forall_mem_singleton]
    refine .object (by decide) ?_
    simp only [List.forall_mem_cons]
    exact ⟨by rintro _ ⟨⟩, .bool true, by rintro _ ⟨⟩, by simp⟩
  obtain ⟨violations, checked, seen⟩ := Outcome.ok_of_view
    (show (validate escapedNames escapedInstance).toOption.map (fun violations =>
        violations.map fun violation => (violation.path.text, violation.keyword)) =
      some [("/a~1b~0/", "type"), ("/a~1b~0/x", "additionalProperties"),
        ("/a~1b~0/~01", "additionalProperties"), ("/a~1b~0/y", "required"),
        ("/~01", "required")] by decide +kernel)
  have admits : ¬ escapedDocument.RefusesRequired := by
    rintro ⟨keywords, members, held, stated, refused⟩
    rcases escapedDocument_holds held with same | same | same | same | same <;> cases same
    · simp only [escapedKeywords, List.mem_cons, Keyword.properties.injEq, reduceCtorEq,
        List.not_mem_nil, or_false] at stated
      subst stated
      simp at refused
    · simp at stated
    · simp at stated
  obtain ⟨points, located⟩ := violations_point_into_instance usable distinct admits checked
  refine ⟨violations, checked, seen, points (located ?_)⟩
  rintro ⟨keywords, held, stated, undeclared⟩
  rcases escapedDocument_holds held with same | same | same | same | same <;> cases same
  · exact undeclared _ List.mem_cons_self
  · simp at stated
  · simp at stated

end JsonSchema

end SchemaLang
