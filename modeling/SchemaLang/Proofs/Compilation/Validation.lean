import SchemaLang.Compilation.Compile
import SchemaLang.Proofs.JsonSchema.Exactness
import SchemaLang.Proofs.Module.Origin

/-!
# Validation after compilation

A text that compiles and declares an entry gives a document, and checking a value against
that document tells whether the value conforms to the entry. The document can fail to be one
only by its patterns: constraints may state patterns that schemas do not know, and then no
value is checked at all.
-/

namespace SchemaLang

open Outcome JsonSchema

/-- A compilation writes the document of its registry. -/
theorem Compilation.ofClosure_ok {settings : Settings} {closure : Closure}
    {compilation : Compilation} (compiled : ofClosure settings closure = .ok compilation) :
    Registry.build closure.declarations = .ok compilation.registry ∧
      ofRegistry compilation.registry = .ok compilation.schema := by
  obtain ⟨reg, built, afterRegistry⟩ := bind_ok_iff.mp compiled
  obtain ⟨schema, emitted, afterSchema⟩ := bind_ok_iff.mp afterRegistry
  obtain ⟨bindings, _, same⟩ := bind_ok_iff.mp afterSchema
  cases same
  exact ⟨built, emitted⟩

variable {value : Json}

namespace JsonSchema

variable {reg : Registry} {id : Nat} {document : Json}

/-- A document is used for a check, or is refused, whatever the value is. -/
theorem validate_ok_iff {violations : List Violation} :
    validate document value = .ok violations ↔
      ∃ schema, SchemaDocument.ofJson document = .ok schema ∧
        (schema.failures value).flatMap Failure.violations = violations := by
  rw [validate, bind_ok_iff]
  exact exists_congr fun schema => and_congr_right fun _ => ⟨fun | rfl => rfl, fun | rfl => rfl⟩

/-- Something is reported of every failure, so nothing is reported only if nothing fails. -/
theorem flatMap_violations_eq_nil {failures : List Failure} :
    failures.flatMap Failure.violations = [] ↔ failures = [] := by
  have reported (failure : Failure) : failure.violations ≠ [] := by
    unfold Failure.violations
    cases failure.kind <;> simp
  rw [List.flatMap_eq_nil_iff, List.eq_nil_iff_forall_not_mem]
  exact forall₂_congr fun failure _ => iff_of_false (reported failure) id

/-- A document is refused exactly when its patterns are not readable. -/
theorem validate_error_iff (proper : reg.Proper) (isEntry : reg.entry? = some id)
    (emitted : ofRegistry reg = .ok document) :
    (∃ fault, validate document value = .error fault) ↔ ¬ reg.PatternsReadable id := by
  obtain ⟨entry, entered, rfl⟩ := ofRegistry_ok proper isEntry emitted
  constructor
  · rintro ⟨fault, refused⟩ readable
    obtain ⟨schema, used⟩ := entered.usable readable
    rw [validate, used] at refused
    cases refused
  · intro unreadable
    cases outcome : validate (.object (documentMembers reg entry)) value with
    | error fault => exact ⟨fault, rfl⟩
    | ok violations =>
      obtain ⟨schema, used, _⟩ := validate_ok_iff.mp outcome
      exact absurd (entered.patternsReadable used) unreadable

/-- A document finds a value faultless exactly when its patterns are readable and the value
conforms to the entry. -/
theorem validate_nil_iff (proper : reg.Proper) (isEntry : reg.entry? = some id)
    (emitted : ofRegistry reg = .ok document) :
    validate document value = .ok [] ↔
      reg.PatternsReadable id ∧ reg.Conforms (.reference id) value := by
  obtain ⟨entry, entered, rfl⟩ := ofRegistry_ok proper isEntry emitted
  simp only [validate_ok_iff, flatMap_violations_eq_nil]
  constructor
  · rintro ⟨schema, used, faultless⟩
    exact ⟨entered.patternsReadable used,
      (failures_eq_nil_iff proper (entered.faithful used) value).mp faultless⟩
  · rintro ⟨readable, conforms⟩
    obtain ⟨schema, used⟩ := entered.usable readable
    exact ⟨schema, used, (failures_eq_nil_iff proper (entered.faithful used) value).mpr conforms⟩

end JsonSchema

namespace Compilation

/-- Compiling a text and checking values against the document is exact. If the patterns are
readable, every value gets an answer, and the answer is the empty list exactly for the values
that conform to the entry; otherwise every value is refused with a fault of the document. -/
theorem validation_is_exact {tree : FileTree} {settings : Settings} {text : String}
    {compilation : Compilation} (compiled : ofText tree settings text = .ok compilation)
    {id : Nat} (isEntry : compilation.registry.entry? = some id) (value : Json) :
    (JsonSchema.validate compilation.schema value = .ok [] ↔
      compilation.registry.PatternsReadable id ∧
        compilation.registry.Conforms (.reference id) value) ∧
    ((∃ fault, JsonSchema.validate compilation.schema value = .error fault) ↔
      ¬ compilation.registry.PatternsReadable id) := by
  obtain ⟨closure, collected, made⟩ := Outcome.bind_ok_iff.mp compiled
  obtain ⟨built, emitted⟩ := ofClosure_ok made
  have clean := ImportContext.closureOfText_clean collected
  have proper := Registry.build_proper clean.declared built
  exact ⟨validate_nil_iff proper isEntry emitted, validate_error_iff proper isEntry emitted⟩

/-- A text with an enumeration, a record that holds itself, a choice with a pattern, a list that
must be there, and an entry that refers to itself. -/
def nestedJobs : String :=
  "enum Mode \x7b fast slow \x7d\n" ++
  "type Node \x7b mode: Mode next: Node? \x7d\n" ++
  "entry Job \x7b root: Node level: integer(0..5) | string tags: string[]? again: Job? \x7d\n" ++
  "validate Job \x7b self: required(tags) tags: min_length(1) level: pattern(\"^h\") \x7d"

/-- A job inside another. -/
def nestedJob : Json :=
  .object [
    ("root", .object [("mode", .string "fast"), ("next", .object [("mode", .string "slow")])]),
    ("level", .number (.integer 3)),
    ("tags", .array [.string "x"]),
    ("again", .object [
      ("root", .object [("mode", .string "slow")]),
      ("level", .string "high"),
      ("tags", .array [.string "y"])])]

/-- The job conforms to the entry of the text, since it has no violations. -/
theorem nestedJob_conforms :
    ∃ compilation, ofText ⟨[], []⟩ {} nestedJobs = .ok compilation ∧
      compilation.registry.entry? = some 2 ∧ compilation.registry.PatternsReadable 2 ∧
      compilation.registry.Conforms (.reference 2) nestedJob := by
  obtain ⟨compilation, compiled, view⟩ := Outcome.ok_of_view
    (show (ofText ⟨[], []⟩ {} nestedJobs).toOption.map (fun compilation =>
        (compilation.registry.entry?,
          (validate compilation.schema nestedJob).toOption.map List.isEmpty)) =
      some (some 2, some true) by decide +kernel)
  obtain ⟨isEntry, checked⟩ := Prod.mk.inj view
  obtain ⟨violations, outcome, empty⟩ := Outcome.ok_of_view checked
  rw [List.isEmpty_iff.mp empty] at outcome
  exact ⟨compilation, compiled, isEntry,
    (validation_is_exact compiled isEntry nestedJob).1.mp outcome⟩

/-- A text with a pattern that constraints know and schemas do not. -/
def doubledStar : String :=
  "entry E \x7b s: string? \x7d\nvalidate E \x7b s: pattern(\"a**\") \x7d"

/-- A record without a field that has to be there. -/
def needsNothing : DefinitionBody → Bool
  | .record content => content.fields.all DefinedField.isOptional && content.required.isEmpty
  | .enumeration _ => false

/-- The empty object conforms to the entry of this text, which has an optional field only, but
the document is refused. -/
theorem doubledStar_refused :
    ∃ compilation, ofText ⟨[], []⟩ {} doubledStar = .ok compilation ∧
      compilation.registry.entry? = some 0 ∧
      compilation.registry.Conforms (.reference 0) (.object []) ∧
      ∃ fault, JsonSchema.validate compilation.schema (.object []) = .error fault := by
  obtain ⟨compilation, compiled, view⟩ := Outcome.ok_of_view
    (show (ofText ⟨[], []⟩ {} doubledStar).toOption.map (fun compilation =>
        (compilation.registry.entry?,
          (compilation.registry.get? 0).map fun definition => needsNothing definition.body,
          (validate compilation.schema (.object [])).toOption.isNone)) =
      some (some 0, some true, true) by decide +kernel)
  obtain ⟨isEntry, others⟩ := Prod.mk.inj view
  obtain ⟨optional, refused⟩ := Prod.mk.inj others
  refine ⟨compilation, compiled, isEntry, ?_, ?_⟩
  · obtain ⟨definition, found, allOptional⟩ := Option.map_eq_some_iff.mp optional
    cases body : definition.body with
    | record content =>
      rw [body, needsNothing] at allOptional
      simp only [Bool.and_eq_true, List.all_eq_true, List.isEmpty_iff] at allOptional
      refine .record found body (by simp) ?_ (by simp) (by simp)
      rintro field isField (mandatory | ⟨names, stated, _⟩)
      · have isOptional := allOptional.1 field isField
        rw [DefinedField.isOptional, mandatory] at isOptional
        cases isOptional
      · rw [allOptional.2] at stated
        cases stated
    | enumeration members =>
      rw [body] at allOptional
      cases allOptional
  · cases outcome : validate compilation.schema (.object []) with
    | error fault => exact ⟨fault, rfl⟩
    | ok violations =>
      rw [outcome] at refused
      cases refused

end Compilation

end SchemaLang
