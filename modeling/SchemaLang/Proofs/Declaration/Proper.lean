import Mathlib.Data.List.Basic
import SchemaLang.Module.Scope

/-!
# Proper declarations

What every text that can be read at all guarantees of its declarations: names are made of
letters, digits and a few signs, the fields of a record have different names, a choice has
arms, and all numbers are finite. Later stages rely on this and do not check it again.
-/

namespace SchemaLang

/-- The characters of names, with the point that joins the parts of a full name. -/
def IsNameChar (c : Char) : Prop := c.isAlphanum = true ∨ c = '_' ∨ c = '-' ∨ c = '.'

/-- A name of plain characters. -/
def PlainName (name : String) : Prop := ∀ c ∈ name.toList, IsNameChar c

/-- A plain name in a plain scope has a plain full name. -/
theorem PlainName.qualify {scope? : Option String} {name : String}
    (scopePlain : ∀ scope, scope? = some scope → PlainName scope) (plain : PlainName name) :
    PlainName (qualify scope? name) := by
  cases scope? with
  | none => exact plain
  | some scope =>
    intro c member
    simp only [SchemaLang.qualify, String.toList_append, List.mem_append] at member
    rcases member with (inScope | point) | inName
    · exact scopePlain scope rfl c inScope
    · have isPoint : c = '.' := by simpa using point
      exact .inr (.inr (.inr isPoint))
    · exact plain c inName

namespace FieldType

variable {ρ σ ε : Type}

/-- An optional bound is finite if it is there. -/
def FiniteBound (bound? : Option Double) : Prop :=
  ∀ bound, bound? = some bound → bound.isFinite = true

mutual

/-- Every choice has arms, and every bound is finite. -/
def Proper : FieldType ρ → Prop
  | .primitive _ => True
  | .reference _ => True
  | .array item => item.Proper
  | .optional inner => inner.Proper
  | .union arms => arms ≠ [] ∧ AllProper arms
  | .range _ least greatest => FiniteBound least ∧ FiniteBound greatest

/-- All types of a list are proper. -/
def AllProper : List (FieldType ρ) → Prop
  | [] => True
  | type :: types => type.Proper ∧ AllProper types

end

theorem allProper_iff {types : List (FieldType ρ)} :
    AllProper types ↔ ∀ type ∈ types, type.Proper := by
  induction types with
  | nil => simp [AllProper]
  | cons type types ih =>
    rw [AllProper, ih, List.forall_mem_cons]

end FieldType

/-- A number as an argument is finite. -/
def Argument.Finite (argument : Argument) : Prop :=
  ∀ value, argument = .number value → value.isFinite = true

/-- The numbers among the arguments of a call are finite. -/
def Call.Finite (call : Call) : Prop := ∀ argument ∈ call.arguments, argument.Finite

/-- The name of a field is plain, and its type is proper. -/
structure Field.Proper (field : Field) : Prop where
  named : PlainName field.name
  typed : field.type.Proper

/-- The name of a record is plain, and its fields are proper with different names. -/
structure RecordDeclaration.Proper (content : RecordDeclaration) : Prop where
  named : PlainName content.name
  distinct : (content.fields.map Field.name).Nodup
  fields : ∀ field ∈ content.fields, field.Proper

/-- What a declaration can be relied on for. -/
def Declaration.Proper : Declaration → Prop
  | .moduleImport content => ∀ given, content.alias? = some given → PlainName given
  | .enumeration content => PlainName content.name
  | .record content => content.Proper
  | .entry content => content.Proper
  | .validation content => ∀ rule ∈ content.rules, ∀ call ∈ rule.calls, call.Finite

end SchemaLang
