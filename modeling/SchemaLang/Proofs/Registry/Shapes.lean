import SchemaLang.Proofs.Module.Origin
import SchemaLang.Proofs.Registry.Invariant

/-!
# The shapes of definitions

What the grammar says of declarations is still true of the definitions they become, however many
modules they come from: the members of enums and the fields of records are named by identifiers,
and a choice stands only at the top of the type of a field, or below the mark that makes it
optional.
-/

namespace SchemaLang

open Outcome List

/-- The members that a declaration lists. -/
def Declaration.members : Declaration → List String
  | .enumeration content => content.members
  | _ => []

/-- The members of an enum are plain names, and the fields of a record have identifiers and types
of the shape that the grammar gives them. -/
structure Declaration.Shaped (declaration : Declaration) : Prop where
  members : ∀ member ∈ declaration.members, PlainName member
  named : ∀ field ∈ declaration.fields, IsIdentifier field.name
  types : ∀ field ∈ declaration.fields, field.type.IsOfField

variable {tokens : List Token}

namespace Phrase

theorem Member.plain {member : String} (lexed : Lexed tokens)
    (phrase : Member tokens member) : PlainName member := by
  obtain ⟨isName, _⟩ := phrase
  exact (lexed _ mem_cons_self isName).plain

theorem Enumeration.plain {content : EnumDeclaration} (lexed : Lexed tokens)
    (phrase : Enumeration tokens content) : ∀ member ∈ content.members, PlainName member := by
  obtain ⟨_, _, listed, _, _, _⟩ := phrase
  intro member listedMember
  obtain ⟨used, isMember, among⟩ := listed.exists_phrase listedMember
  exact isMember.plain (lexed.mono fun token inside => by simp [among token inside])

variable {declaration decl : Declaration} (lexed : Lexed tokens)
include lexed

/-- The members that a declaration of lexed tokens lists are plain. -/
theorem DeclarationPhrase.plain (phrase : DeclarationPhrase tokens decl) :
    ∀ member ∈ decl.members, PlainName member := by
  cases phrase with
  | enumeration _ phrase => exact phrase.plain (lexed.mono fun _ => mem_cons_of_mem _)
  | _ => simp [Declaration.members]

theorem FieldPhrase.isIdentifier {field : Field} (phrase : FieldPhrase tokens field) :
    IsIdentifier field.name := by
  cases phrase with
  | mandatory isName _ _ _ | markedName isName _ _ _ _ | markedType isName _ _ _ _ =>
    exact lexed _ mem_cons_self isName

theorem Record.identifiers {content : RecordDeclaration} (phrase : Record tokens content) :
    ∀ field ∈ content.fields, IsIdentifier field.name := by
  obtain ⟨_, _, listed, _, _⟩ := phrase
  intro field member
  obtain ⟨used, isField, among⟩ := listed.exists_phrase member
  exact isField.isIdentifier (lexed.mono fun token inside => by simp [among token inside])

/-- The fields that a declaration of lexed tokens lists are named by identifiers. -/
theorem DeclarationPhrase.identifiers (phrase : DeclarationPhrase tokens decl) :
    ∀ field ∈ decl.fields, IsIdentifier field.name := by
  cases phrase with
  | record _ phrase | entry _ phrase =>
    exact phrase.identifiers (lexed.mono fun _ => mem_cons_of_mem _)
  | _ => simp [Declaration.fields]

end Phrase

/-- What a text declares is shaped. -/
theorem parse_shaped {source text : String} {decls : List Declaration}
    (done : parse source text = .ok decls) :
    ∀ decl ∈ decls, decl.Shaped := by
  intro decl member
  obtain ⟨lexemes, left, body, isCut, placed, isModule⟩ := module_of_parse done
  obtain ⟨used, phrase, among⟩ := isModule.exists_phrase member
  have lexed := (isCut.lexed placed).mono among
  exact ⟨phrase.plain lexed, phrase.identifiers lexed, isModule.isOfField decl member⟩

/-! ## Closures -/

/-- A property of everything that was read, and of everything that was contributed. -/
structure Closure.Holds (property : Declaration → Prop) (closure : Closure) : Prop where
  loaded : ∀ entry ∈ closure.loaded, ∀ declaration ∈ entry.2, property declaration
  declared : ∀ statement ∈ closure.declarations, property statement.declaration

namespace ImportContext

variable {ctx : ImportContext} {property : Declaration → Prop}

/-- A property that every text gives its declarations. -/
def GivenByTexts (property : Declaration → Prop) : Prop :=
  ∀ source text declarations, parse source text = .ok declarations →
    ∀ declaration ∈ declarations, property declaration

/-- A walk keeps what every text gives. -/
theorem keeps_holds (given : GivenByTexts property) :
    ctx.Keeps (fun _ => True) (fun decls => ∀ decl ∈ decls,
      property decl) (Closure.Holds property) where
  initial := ⟨by simp, by simp⟩
  unscoped := trivial
  parsed := given
  loads := by
    intro closure path decls loaded holds done
    obtain ⟨other, isLoaded, rfl⟩ | ⟨source, text, read, rfl⟩ := load_cases done
    · exact ⟨holds.loaded _ isLoaded, holds⟩
    · have own := given _ _ _ read
      refine ⟨own, fun entry member => ?_, holds.declared⟩
      rcases mem_append.mp member with old | new
      · exact holds.loaded entry old
      · rw [mem_singleton.mp new]
        exact own
  imports := fun _ _ _ _ _ _ => trivial
  contributes := by
    intro closure path scope? decls holds _ own
    refine ⟨holds.loaded, fun stmt member => ?_⟩
    rcases mem_append.mp member with old | new
    · exact holds.declared stmt old
    · obtain ⟨decl, listed, rfl⟩ := mem_map.mp new
      exact own decl (mem_of_mem_filter listed)

end ImportContext

/-! ## Registries -/

namespace FieldType

variable {ρ σ ε : Type} {replace : ρ → Except ε σ} {type : FieldType ρ} {linked : FieldType σ}

theorem link_isArm {type : FieldType ρ} {linked : FieldType σ}
    (done : type.link replace = .ok linked) (isArm : type.IsArm) : linked.IsArm := by
  induction type generalizing linked with
  | primitive _ | range _ _ _ =>
    cases done
    trivial
  | reference target =>
    obtain ⟨id, _, rfl⟩ := map_ok_iff.mp done
    trivial
  | array item ih =>
    obtain ⟨inner, found, rfl⟩ := map_ok_iff.mp done
    simp only [IsArm] at isArm ⊢
    exact ih found isArm
  | optional _ _ | union _ _ => cases isArm

theorem link_isExpression (done : type.link replace = .ok linked)
    (isExpression : type.IsExpression) : linked.IsExpression := by
  cases type with
  | union arms =>
    obtain ⟨types, pairwise, rfl⟩ := link_union_ok done
    refine ⟨pairwise.length_eq ▸ isExpression.1, fun type member => ?_⟩
    obtain ⟨arm, isArm, found⟩ := exists_left pairwise member
    exact link_isArm found (isExpression.2 arm isArm)
  | optional inner => cases isExpression
  | _ => exact (link_isArm done isExpression).isExpression

/-- Linking keeps the shape of the type of a field. -/
theorem link_isOfField (done : type.link replace = .ok linked) (isOfField : type.IsOfField) :
    linked.IsOfField := by
  cases type with
  | optional inner =>
    obtain ⟨found, linkedInner, rfl⟩ := map_ok_iff.mp done
    exact link_isExpression linkedInner isOfField
  | _ => exact (link_isExpression done isOfField).isOfField

/-- A type is a flat union of arms, or an arm. -/
theorem IsExpression.union_or_arm (isExpression : type.IsExpression) :
    (∃ arms, type = .union arms ∧ ∀ arm ∈ arms, arm.IsArm) ∨ type.IsArm := by
  cases type with
  | union arms => exact .inl ⟨arms, rfl, isExpression.2⟩
  | _ => exact .inr isExpression

/-- The type of a field when it is present is a flat union of arms, or an arm. -/
theorem IsOfField.required (isOfField : type.IsOfField) :
    (∃ arms, type.required = .union arms ∧ ∀ arm ∈ arms, arm.IsArm) ∨ type.required.IsArm := by
  cases type with
  | optional _ | _ => exact IsExpression.union_or_arm isOfField

end FieldType

/-- The members of enums are plain names, and the fields of records have identifiers and types of
the shape that the grammar gives them. -/
structure Registry.Shaped (registry : Registry) : Prop where
  members : ∀ definition ∈ registry.definitions, ∀ members,
    definition.body = .enumeration members → ∀ member ∈ members, PlainName member
  named : ∀ definition ∈ registry.definitions, ∀ field ∈ definition.fields, IsIdentifier field.name
  types : ∀ definition ∈ registry.definitions, ∀ field ∈ definition.fields, field.type.IsOfField

/-- A registry that was built from shaped declarations is shaped. -/
theorem Registry.build_shaped {decls : List ScopedDeclaration} {reg : Registry}
    (shaped : ∀ stmt ∈ decls, stmt.declaration.Shaped)
    (built : build decls = .ok reg) : reg.Shaped := by
  have written : ∀ defn ∈ reg.definitions, ∀ field ∈ defn.fields,
      IsIdentifier field.name ∧ field.type.IsOfField := by
    intro defn member field isField
    obtain ⟨outline, stated, _, links⟩ := build_origin built member
    obtain ⟨written, isWritten, done⟩ := exists_left links (mem_map_of_mem isField)
    obtain ⟨type, linked, same⟩ := bind_ok_iff.mp done
    have ofText := shaped _ stated
    have isSame := Except.ok.inj same
    have sameName : written.name = field.name := congrArg DefinedField.name isSame
    have sameType : type = field.type := congrArg DefinedField.type isSame
    rw [← sameName, ← sameType]
    exact ⟨ofText.named written isWritten,
      FieldType.link_isOfField linked (ofText.types written isWritten)⟩
  constructor
  case members =>
    intro defn member members body
    obtain ⟨stmt, stated, renders⟩ := exists_left (build_renders built) member
    have plain := (shaped stmt (mem_of_mem_filter stated)).members
    have rendered := renders.body
    generalize stmt.declaration = decl at plain rendered
    rw [body] at rendered
    cases rendered
    exact plain
  case named => exact fun defn member field isField =>
    (written defn member field isField).1
  case types => exact fun defn member field isField =>
    (written defn member field isField).2

/-- The registry of a closure is proper and shaped. -/
theorem Registry.sound_of_closure {ctx : ImportContext} {path : Path} {closure : Closure}
    (collected : ctx.closureOf path = .ok closure ∨
      ∃ text, ctx.closureOfText text path = .ok closure)
    {reg : Registry} (built : build closure.declarations = .ok reg) :
    reg.Proper ∧ reg.Shaped := by
  have clean : closure.Clean := by
    rcases collected with done | ⟨text, done⟩
    · exact ImportContext.closureOf_clean done
    · exact ImportContext.closureOfText_clean done
  refine ⟨build_proper clean.declared built, build_shaped ?_ built⟩
  have given : ImportContext.GivenByTexts Declaration.Shaped := fun _ _ _ => parse_shaped
  exact ((ImportContext.keeps_holds given).collected collected).declared

end SchemaLang
