import SchemaLang.Proofs.Json.RoundTrip
import SchemaLang.Proofs.Compilation.ClosedDocuments

/-!
# Validation through text

A schema can be used as it was made, or be written and read back first. Both give the same answers
for documents that are read as they were written, and these are the documents that are not nested
too deep and whose fractions have numerals that the reader takes for the same numbers. A document
that is nested too deep, as a list of lists of lists can make it, is refused when it is read.
-/

namespace SchemaLang

open Outcome List Json JsonSchema Numeral

/-- The declarations of a text that is given by its characters. -/
theorem parse_ofList (source : String) (chars : List Char) :
    parse source (.ofList chars) = (let (lexemes, left) := Lexeme.cut chars.length chars
       Lexeme.place left (Location.start source) lexemes) >>= parseTokens := by
  unfold parse tokenize
  rw [String.toList_ofList]

variable {value : Json}

namespace Json

mutual

/-- The binary64 numbers in a value. -/
def fractions : Json → List Double
  | number (.double value) => [value]
  | array items => fractionsOfItems items
  | object members => fractionsOfMembers members
  | _ => []

/-- The binary64 numbers in items. -/
def fractionsOfItems : List Json → List Double
  | [] => []
  | item :: rest => fractions item ++ fractionsOfItems rest

/-- The binary64 numbers in members. -/
def fractionsOfMembers : List (String × Json) → List Double
  | [] => []
  | (_, value) :: rest => fractions value ++ fractionsOfMembers rest

end

theorem fractionsOfItems_eq_flatMap (items : List Json) :
    fractionsOfItems items = items.flatMap fractions := by
  induction items with
  | nil => rfl
  | cons item rest ih =>
    rw [fractionsOfItems, flatMap_cons, ih]

theorem fractionsOfMembers_eq_flatMap (members : List (String × Json)) :
    fractionsOfMembers members = members.flatMap fun member => member.2.fractions := by
  induction members with
  | nil => rfl
  | cons member rest ih =>
    rw [fractionsOfMembers, flatMap_cons, ih]

theorem mem_fractions {found : Double} :
    found ∈ value.fractions ↔ Part (.number (.double found)) value := by
  induction value using induction with
  | null | bool _ | string _ => exact ⟨nofun, nofun⟩
  | number value =>
    cases value with
    | integer whole => exact ⟨nofun, nofun⟩
    | double fraction =>
      refine ⟨fun member => mem_singleton.mp member ▸ .whole, fun part => ?_⟩
      cases part
      exact mem_singleton_self _
  | array items ih =>
    rw [fractions, fractionsOfItems_eq_flatMap, mem_flatMap]
    constructor
    · rintro ⟨item, member, inside⟩
      exact .item member ((ih item member).mp inside)
    · intro part
      cases part with
      | item member inside => exact ⟨_, member, (ih _ member).mpr inside⟩
  | object members ih =>
    rw [fractions, fractionsOfMembers_eq_flatMap, mem_flatMap]
    constructor
    · rintro ⟨member, isMember, inside⟩
      exact .member isMember ((ih member isMember).mp inside)
    · intro part
      cases part with
      | member isMember inside => exact ⟨_, isMember, (ih _ isMember).mpr inside⟩

/-- For the reader the numerals of all binary64 numbers in a value denote these numbers. -/
def FractionsReadBack (value : Json) : Prop :=
  ∀ fraction ∈ value.fractions,
    (ofChars? fraction.jsonChars).bind value? = some (.double fraction)

instance (value : Json) : Decidable value.FractionsReadBack :=
  inferInstanceAs (Decidable (∀ fraction ∈ value.fractions, _))

theorem numeralValue_ok_iff {text : List Char} {found : JsonNumber} :
    numeralValue text = .ok (.number found) ↔ (ofChars? text).bind value? = some found := by
  unfold numeralValue
  cases ofChars? text with
  | none => exact ⟨nofun, nofun⟩
  | some numeral =>
    dsimp only [Option.bind_some]
    cases numeral.value? <;> simp

theorem rereadNumber_double (fraction : Double) :
    rereadNumber (.double fraction) = .ok (.number (.double fraction)) ↔
      (ofChars? fraction.jsonChars).bind value? = some (.double fraction) := by
  cases fraction with
  | finite negative units => exact numeralValue_ok_iff
  | infinite _ | nan => exact ⟨nofun, nofun⟩

/-- The names of members differ in every object, and all integers are held by 64 bits. -/
structure Legible (value : Json) : Prop where
  distinct : value.DistinctNames
  integers : ∀ number : Int, Part (.number (.integer number)) value →
    -2 ^ 63 ≤ number ∧ number < 2 ^ 64

/-- A legible value is read as it was written exactly if it is not too deep and its fractions are
read back. -/
theorem Legible.read_indented_iff (legible : value.Legible) :
    read value.indented = .ok value ↔ value.depth < nestingLimit ∧ value.FractionsReadBack := by
  rw [read_indented_eq_self_iff legible.distinct]
  refine and_congr_right fun _ => ⟨fun each fraction member => ?_, fun each found part => ?_⟩
  · exact (rereadNumber_double fraction).mp (each _ (mem_fractions.mp member))
  · cases found with
    | integer whole =>
      obtain ⟨least, greatest⟩ := legible.integers whole part
      exact rereadNumber_integer least greatest
    | double fraction =>
      exact (rereadNumber_double fraction).mpr (each fraction (mem_fractions.mpr part))

end Json

namespace Call

theorem length_bounded {call : Call} {length : Nat} (done : call.length = .ok length) :
    length < 2 ^ 64 := by
  unfold Call.length at done
  split at done
  · rename_i value _
    split at done
    · cases done
      have limited : min value.truncated.toNat lengthLimit ≤ 2 ^ 64 - 1 := Nat.min_le_right _ _
      omega
    · cases done
  · cases done

/-- Lengths are limited where calls are read. -/
theorem onField_lengths {call : Call} {constraint : Constraint}
    (done : call.onField = .ok constraint) : constraint.Lengths (· < 2 ^ 64) := by
  obtain ⟨function, _, rest⟩ := bind_ok_iff.mp done
  cases function with
  | minLength | maxLength =>
    obtain ⟨length, found, same⟩ := bind_ok_iff.mp rest
    cases same
    exact length_bounded found
  | required => cases rest
  | _ =>
    obtain ⟨_, _, same⟩ := bind_ok_iff.mp rest
    cases same
    exact trivial

end Call

namespace JsonSchema

/-- A document whose lengths are held by 64 bits is legible. -/
theorem Drawn.legible {reg : Registry} {members : Members} (drawn : Drawn reg members)
    (bounded : Lengths reg (· < 2 ^ 64)) : Json.Legible (.object members) := by
  have throughout := drawn.throughout _ bounded
  refine ⟨fun inner part => (throughout.objects inner part).distinct, fun number part => ?_⟩
  rcases throughout.integers number part with small | ⟨length, limited, rfl⟩ <;> omega

/-- The answer for two texts that can be read. -/
theorem validateText_of_read {schema text : String} {document : Json}
    (schemaRead : read schema = .ok document) (textRead : read text = .ok value) :
    validateText schema text =
      (validate document value).mapError fun fault => .internal (.invalidSchema fault) := by
  unfold validateText
  dsimp only
  rw [schemaRead, textRead]
  dsimp only [bind, Except.bind]
  cases validate document value <;> rfl

/-- A schema that cannot be read is a fault of the configuration. -/
theorem validateText_of_unreadable {schema text : String} {fault : Json.Fault}
    (schemaRead : read schema = .error fault) :
    validateText schema text = .error (.configuration "schema" (.json fault)) := by
  unfold validateText
  dsimp only
  rw [schemaRead]
  rfl

end JsonSchema

namespace Compilation

/-- The schema of a compiled text is legible. -/
theorem legible_of_text {tree : FileTree} {settings : Settings} {source : String}
    {compilation : Compilation} (compiled : ofText tree settings source = .ok compilation) :
    compilation.schema.Legible := by
  obtain ⟨closure, collected, made⟩ := bind_ok_iff.mp compiled
  obtain ⟨built, emitted⟩ := ofClosure_ok made
  have clean := ImportContext.closureOfText_clean collected
  have proper := Registry.build_proper clean.declared built
  have constrained := (Registry.build_invariant built).constrained
  obtain ⟨members, isObject, drawn, _⟩ := ofRegistry_drawn proper emitted
  rw [isObject]
  refine drawn.legible ?_
  intro defn isDefinition field isField constraint stated
  obtain ⟨call, _, _, done⟩ :=
    (constrained defn isDefinition).onFields field isField constraint stated
  exact Call.onField_lengths done

/-- Validation through text. The schema of a compiled text is read as it was written exactly if it
is not too deep and its fractions are read back; then validation of texts gives what validation of
values does. A schema that is too deep is refused, whatever the instance is. -/
theorem text_validation_agrees {tree : FileTree} {settings : Settings} {source : String}
    {compilation : Compilation} (compiled : ofText tree settings source = .ok compilation)
    {text : String} {value : Json} (textRead : Json.read text = .ok value) :
    (Json.read compilation.schema.indented = .ok compilation.schema ↔
        compilation.schema.depth < Json.nestingLimit ∧ compilation.schema.FractionsReadBack) ∧
      (compilation.schema.depth < Json.nestingLimit → compilation.schema.FractionsReadBack →
        JsonSchema.validateText compilation.schema.indented text =
          (JsonSchema.validate compilation.schema value).mapError fun fault =>
            .internal (.invalidSchema fault)) ∧
      (Json.nestingLimit ≤ compilation.schema.depth → ∃ fault,
        JsonSchema.validateText compilation.schema.indented text =
          .error (.configuration "schema" (.json fault))) := by
  have legible := legible_of_text compiled
  refine ⟨legible.read_indented_iff, fun shallow fractions => ?_, fun deep => ?_⟩
  · have schemaRead := legible.read_indented_iff.mpr ⟨shallow, fractions⟩
    exact validateText_of_read schemaRead textRead
  · obtain ⟨fault, schemaRead⟩ := read_indented_of_deep legible.distinct deep
    exact ⟨fault, validateText_of_unreadable schemaRead⟩

/-- A text with bounds and choices that are no integers. -/
def fractionalBounds : String :=
  "entry E \x7b a: number(0.1..2.5)[] b: number? \x7d\nvalidate E \x7b b: one_of(0.7, 5) \x7d"

/-- An instance with an item that is too large. -/
def largeItem : String := "\x7b\"a\":[0.1,2.75],\"b\":0.7\x7d"

/-- The schema of these bounds is read as it was written, and through its text the item that is
too large is found as well. -/
theorem largeItem_found :
    ∃ compilation violation, ofText ⟨[], []⟩ {} fractionalBounds = .ok compilation ∧
      Json.read compilation.schema.indented = .ok compilation.schema ∧
      JsonSchema.validateText compilation.schema.indented largeItem = .ok [violation] ∧
      violation.path.text = "/a/1" ∧ violation.keyword = "maximum" := by
  obtain ⟨compilation, compiled, view⟩ := ok_of_view
    (show (ofText ⟨[], []⟩ {} fractionalBounds).toOption.map (fun compilation =>
        (decide (compilation.schema.depth < nestingLimit ∧
            compilation.schema.FractionsReadBack),
          (read largeItem).toOption.map fun value =>
            (validate compilation.schema value).toOption.map fun violations =>
              violations.map fun violation => (violation.path.text, violation.keyword))) =
      some (true, some (some [("/a/1", "maximum")])) by decide +kernel)
  obtain ⟨conditions, checked⟩ := Prod.mk.inj view
  obtain ⟨value, textRead, found⟩ := ok_of_view checked
  obtain ⟨violations, outcome, listed⟩ := ok_of_view found
  obtain ⟨violation, rfl, place⟩ := List.map_eq_singleton_iff.mp listed
  obtain ⟨shallow, fractions⟩ := of_decide_eq_true conditions
  obtain ⟨readBack, same, _⟩ := text_validation_agrees compiled textRead
  refine ⟨compilation, violation, compiled, readBack.mpr ⟨shallow, fractions⟩, ?_,
    Prod.mk.inj place⟩
  rw [same shallow fractions, outcome]
  rfl

/-- The characters of an entry with a list of lists of lists, 125 levels of them. -/
def deepLists : List Char :=
  "entry E \x7b a: string".toList ++ (List.replicate 125 ['[', ']']).flatten ++ " \x7d".toList

/-- A text with a choice that has no exact numeral for the reader. -/
def largeChoice : String :=
  "entry E \x7b a: number \x7d\nvalidate E \x7b a: one_of(300000000000000000000000) \x7d"

/-- Both conditions are needed. An instance of a text with deep lists has no violations, but the
written schema cannot be read. A number that is no choice of the schema is one of the choices
that are read back. -/
theorem text_validation_differs :
    (∃ compilation value, ofText ⟨[], []⟩ {} (.ofList deepLists) = .ok compilation ∧
      Json.read "\x7b\"a\":[]\x7d" = .ok value ∧
      JsonSchema.validate compilation.schema value = .ok [] ∧
      JsonSchema.validateText compilation.schema.indented "\x7b\"a\":[]\x7d" =
        .error (.configuration "schema" (.json .nestedTooDeep))) ∧
    ∃ compilation value violation, ofText ⟨[], []⟩ {} largeChoice = .ok compilation ∧
      Json.read "\x7b\"a\":3e23\x7d" = .ok value ∧
      JsonSchema.validate compilation.schema value = .ok [violation] ∧
      JsonSchema.validateText compilation.schema.indented "\x7b\"a\":3e23\x7d" = .ok [] := by
  constructor
  · have evaluated : (ofText ⟨[], []⟩ {} (.ofList deepLists)).toOption.map (fun compilation =>
        (decide (compilation.schema.depth < nestingLimit),
          compilation.schema.reread.toOption.isSome,
          (validate compilation.schema (.object [("a", .array [])])).toOption.map
            List.isEmpty)) = some (false, true, some true) := by
      rw [ofText, ImportContext.closureOfText, parse_ofList]
      decide +kernel
    obtain ⟨compilation, compiled, view⟩ := ok_of_view evaluated
    obtain ⟨deep, others⟩ := Prod.mk.inj view
    obtain ⟨readable, checked⟩ := Prod.mk.inj others
    obtain ⟨found, done⟩ := ok_of_isSome readable
    obtain ⟨violations, outcome, empty⟩ := ok_of_view checked
    rw [List.isEmpty_iff.mp empty] at outcome
    refine ⟨compilation, _, compiled, rfl, outcome, ?_⟩
    apply validateText_of_unreadable
    rw [read_indented (legible_of_text compiled).distinct, done]
    exact if_neg (of_decide_eq_false deep)
  · obtain ⟨compilation, compiled, view⟩ := ok_of_view
      (show (ofText ⟨[], []⟩ {} largeChoice).toOption.map (fun compilation =>
          (decide (compilation.schema.depth < nestingLimit),
            (read "\x7b\"a\":3e23\x7d").toOption.map fun value =>
              ((validate compilation.schema value).toOption.map List.length,
                compilation.schema.reread.toOption.map fun found =>
                  (validate found value).toOption.map List.length))) =
        some (true, some (some 1, some (some 0))) by decide +kernel)
    obtain ⟨shallow, checked⟩ := Prod.mk.inj view
    obtain ⟨value, textRead, answers⟩ := ok_of_view checked
    obtain ⟨inMemory, throughText⟩ := Prod.mk.inj answers
    obtain ⟨violations, outcome, single⟩ := ok_of_view inMemory
    obtain ⟨found, done, reread⟩ := ok_of_view throughText
    obtain ⟨others, otherOutcome, none⟩ := ok_of_view reread
    obtain ⟨violation, rfl⟩ := List.length_eq_one_iff.mp single
    rw [List.length_eq_zero_iff.mp none] at otherOutcome
    refine ⟨compilation, value, violation, compiled, textRead, outcome, ?_⟩
    have schemaRead : read compilation.schema.indented = .ok found := by
      rw [read_indented (legible_of_text compiled).distinct, done]
      exact if_pos (of_decide_eq_true shallow)
    rw [validateText_of_read schemaRead textRead, otherOutcome]
    rfl

end Compilation

end SchemaLang
