import SchemaLang.JsonSchema.Document
import SchemaLang.JsonSchema.Violation
import SchemaLang.Proofs.Outcome

/-!
# Schemas member by member

A schema is checked, read and applied one member at a time, and no member depends on the
others: a shape is right if it is right at every member, a schema can be read if every member
can, and a value has no failures if no keyword finds one. So only the set of the members
of a schema counts, not their order.
-/

namespace SchemaLang.JsonSchema

open Outcome List

/-! ## Shapes -/

variable {draft : Draft} {members : Members}

/-- Members have the right shape exactly when each of them does. -/
theorem checkMembers_ok_iff :
    checkMembers draft members = .ok () ↔
      ∀ member ∈ members, checkMember draft member.1 member.2 = .ok () := by
  induction members with
  | nil => simp [checkMembers]
  | cons member members ih =>
    obtain ⟨name, value⟩ := member
    rw [checkMembers, then_ok_iff, forall_mem_cons, ih]

/-- Schemas under names have the right shape exactly when each of them does. -/
theorem checkNamed_ok_iff :
    checkNamed draft members = .ok () ↔ ∀ member ∈ members, checkShape draft member.2 = .ok () := by
  induction members with
  | nil => simp [checkNamed]
  | cons member members ih =>
    obtain ⟨name, value⟩ := member
    rw [checkNamed, then_ok_iff, forall_mem_cons, ih]

/-- Schemas in a list have the right shape exactly when each of them does. -/
theorem checkAll_ok_iff {values : List Json} :
    checkAll draft values = .ok () ↔ ∀ value ∈ values, checkShape draft value = .ok () := by
  induction values with
  | nil => simp [checkAll]
  | cons value values ih =>
    rw [checkAll, then_ok_iff, forall_mem_cons, ih]

/-! ## Readings -/

variable {keywords : List Keyword}

/-- In the seventh draft, in which documents are written, references stand alone. -/
theorem referenceAlone_draft7 : Draft.draft7.referenceAlone = true := rfl

/-- The conditions of members are read one after the other. -/
theorem keywordsOf_cons_ok_iff {name : String} {value : Json} :
    keywordsOf draft ((name, value) :: members) = .ok keywords ↔
      ∃ first others, keywordOf draft name value = .ok first ∧
        keywordsOf draft members = .ok others ∧
        keywords = first ++ others := by
  rw [keywordsOf, bind_ok_iff]
  constructor
  · rintro ⟨first, read, rest⟩
    obtain ⟨others, found, same⟩ := bind_ok_iff.mp rest
    cases same
    exact ⟨first, others, read, found, rfl⟩
  · rintro ⟨first, others, read, found, rfl⟩
    exact ⟨first, read, bind_ok_iff.mpr ⟨others, found, rfl⟩⟩

/-- Members can be read exactly when each of them can. -/
theorem keywordsOf_readable_iff :
    (∃ keywords, keywordsOf draft members = .ok keywords) ↔
      ∀ member ∈ members, ∃ keywords, keywordOf draft member.1 member.2 = .ok keywords := by
  induction members with
  | nil => simp [keywordsOf]
  | cons member members ih =>
    obtain ⟨name, value⟩ := member
    rw [forall_mem_cons, ← ih]
    constructor
    · rintro ⟨keywords, read⟩
      obtain ⟨first, others, here, there, _⟩ := keywordsOf_cons_ok_iff.mp read
      exact ⟨⟨first, here⟩, others, there⟩
    · rintro ⟨⟨first, here⟩, others, there⟩
      exact ⟨first ++ others, keywordsOf_cons_ok_iff.mpr ⟨first, others, here, there, rfl⟩⟩

/-- The conditions that are read are those of the members. -/
theorem mem_keywordsOf (read : keywordsOf draft members = .ok keywords) {keyword : Keyword} :
    keyword ∈ keywords ↔ ∃ member ∈ members, ∃ own, keywordOf draft member.1 member.2 = .ok own ∧
      keyword ∈ own := by
  induction members generalizing keywords with
  | nil =>
    cases read
    simp
  | cons member members ih =>
    obtain ⟨name, value⟩ := member
    obtain ⟨first, others, here, there, rfl⟩ := keywordsOf_cons_ok_iff.mp read
    simp only [mem_append, exists_mem_cons_iff, ih there, here, Except.ok.injEq, exists_eq_left']

/-- Two lists of members are read one after the other. -/
theorem keywordsOf_append_ok_iff {first second : Members} :
    keywordsOf draft (first ++ second) = .ok keywords ↔
      ∃ before after, keywordsOf draft first = .ok before ∧ keywordsOf draft second = .ok after ∧
        keywords = before ++ after := by
  induction first generalizing keywords with
  | nil => simp [keywordsOf]
  | cons member first ih =>
    obtain ⟨name, value⟩ := member
    simp only [cons_append, keywordsOf_cons_ok_iff, ih]
    constructor
    · rintro ⟨own, _, here, ⟨rest, others, there, after, rfl⟩, rfl⟩
      exact ⟨own ++ rest, others, ⟨own, rest, here, there, rfl⟩, after,
        (append_assoc own rest others).symm⟩
    · rintro ⟨_, others, ⟨own, rest, here, there, rfl⟩, after, rfl⟩
      exact ⟨own, rest ++ others, here, ⟨rest, others, there, after, rfl⟩,
        append_assoc own rest others⟩

end SchemaLang.JsonSchema
