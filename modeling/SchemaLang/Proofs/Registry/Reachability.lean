import Mathlib.Data.List.Chain
import SchemaLang.Proofs.FieldTypes
import SchemaLang.Registry.Reachability

/-!
# Reachability by value

The search for a definition decides whether there is a way to it. That it ends is the count of
the references that are left, which `Registry.search` is defined by. That it misses nothing is an
invariant of its turns: what is held by the definitions met so far has been met itself or still
waits. So a way that starts among the definitions met, and leads to one that has not been met,
passes through something that waits, and it does no harm to enter no definition twice.

The same number may wait many times, and numbers without a definition may wait as well. Such a
number is met like any other and holds nothing.
-/

namespace SchemaLang

open List Relation

namespace FieldType

variable {ρ : Type}

/-- A type refers to something outside all arrays: by itself, below marks that make a type
optional, or in an arm of a choice. -/
inductive Exposes : FieldType ρ → ρ → Prop where
  | reference {target : ρ} : Exposes (.reference target) target
  | optional {inner : FieldType ρ} {target : ρ} (inside : Exposes inner target) :
      Exposes (.optional inner) target
  | union {arms : List (FieldType ρ)} {arm : FieldType ρ} {target : ρ} (isArm : arm ∈ arms)
      (inside : Exposes arm target) : Exposes (.union arms) target

theorem mem_directReferencesOfAll {types : List (FieldType ρ)} {target : ρ} :
    target ∈ directReferencesOfAll types ↔ ∃ type ∈ types, target ∈ type.directReferences := by
  induction types with
  | nil => simp [directReferencesOfAll]
  | cons type types ih => rw [directReferencesOfAll, mem_append, ih, exists_mem_cons_iff]

/-- The references that are held by value are those outside all arrays. -/
theorem mem_directReferences {type : FieldType ρ} {target : ρ} :
    target ∈ type.directReferences ↔ type.Exposes target := by
  induction type with
  | reference own =>
    rw [directReferences, mem_singleton]
    constructor
    · rintro rfl
      exact .reference
    · rintro ⟨⟩
      rfl
  | optional inner ih =>
    rw [directReferences, ih]
    constructor
    · exact .optional
    · rintro ⟨⟩
      assumption
  | union arms each =>
    rw [directReferences, mem_directReferencesOfAll]
    constructor
    · rintro ⟨arm, isArm, member⟩
      exact .union isArm ((each arm isArm).mp member)
    · rintro ⟨⟩
      rename_i arm isArm inside
      exact ⟨arm, isArm, (each arm isArm).mpr inside⟩
  | array _ _ | primitive _ | range _ _ _ =>
    rw [directReferences]
    exact ⟨by rintro ⟨⟩, by rintro ⟨⟩⟩

end FieldType

namespace Registry

/-- A definition holds another by value: one of its fields refers to it outside all arrays. -/
def HoldsByValue (registry : Registry) (owner held : Nat) : Prop :=
  ∃ definition, registry.get? owner = some definition ∧
    ∃ field ∈ definition.fields, held ∈ field.type.directReferences

variable {reg : Registry}

theorem mem_heldByValue {owner held : Nat} :
    held ∈ reg.heldByValue owner ↔ reg.HoldsByValue owner held := by
  unfold heldByValue HoldsByValue
  cases reg.get? owner with
  | none | some _ => simp

/-! ## The invariant of the search -/

/-- Where a search for a definition stands: it has not been met, and what is held by the
definitions met has been met or waits. -/
structure Explored (registry : Registry) (target : Nat) (met waiting : List Nat) : Prop where
  missed : target ∉ met
  pending : ∀ owner ∈ met, ∀ held, registry.HoldsByValue owner held → held ∈ met ∨ held ∈ waiting

namespace Explored

variable {target id : Nat} {met waiting : List Nat}

theorem start (reg : Registry) (target source : Nat) :
    reg.Explored target [] [source] := ⟨not_mem_nil, by simp⟩

/-- A number that was met before is taken off the stack. -/
theorem skip (explored : reg.Explored target met (id :: waiting)) (isMet : id ∈ met) :
    reg.Explored target met waiting where
  missed := explored.missed
  pending owner isOwner held holds := by
    rcases explored.pending owner isOwner held holds with old | waits
    · exact .inl old
    · rcases mem_cons.mp waits with rfl | later
      · exact .inl isMet
      · exact .inr later

/-- A number that is met for the first time leaves what it holds on the stack. -/
theorem enter (explored : reg.Explored target met (id :: waiting)) (differs : id ≠ target) :
    reg.Explored target (id :: met) ((reg.heldByValue id).reverse ++ waiting) where
  missed isMet := by
    rcases mem_cons.mp isMet with rfl | old
    · exact differs rfl
    · exact explored.missed old
  pending owner isOwner held holds := by
    rw [mem_cons, mem_append, mem_reverse, mem_heldByValue]
    rcases mem_cons.mp isOwner with rfl | old
    · exact .inr (.inl holds)
    · rcases explored.pending owner old held holds with isMet | waits
      · exact .inl (.inr isMet)
      · rcases mem_cons.mp waits with rfl | later
        · exact .inl (.inl rfl)
        · exact .inr (.inr later)

/-- A way from something that was met passes through something that waits. -/
theorem passes (explored : reg.Explored target met waiting) {source : Nat}
    (isMet : source ∈ met) (path : ReflTransGen reg.HoldsByValue source target) :
    ∃ middle ∈ waiting, ReflTransGen reg.HoldsByValue middle target := by
  induction path using ReflTransGen.head_induction_on with
  | refl => exact absurd isMet explored.missed
  | @head owner held holds rest ih =>
    rcases explored.pending owner isMet held holds with old | waits
    · exact ih old
    · exact ⟨held, waits, rest⟩

end Explored

/-- The search finds what can be reached from something that waits, and nothing else. -/
theorem search_iff {target : Nat} {met waiting : List Nat}
    (explored : reg.Explored target met waiting) :
    reg.search target met waiting = true ↔
      ∃ source ∈ waiting, ReflTransGen reg.HoldsByValue source target := by
  fun_induction search reg target met waiting with
  | case1 => simp
  | case2 met waiting => exact ⟨fun _ => ⟨target, mem_cons_self, .refl⟩, fun _ => rfl⟩
  | case3 met id waiting differs isMet ih =>
    have member : id ∈ met := by simpa using isMet
    have skipped := explored.skip member
    rw [ih skipped, exists_mem_cons_iff]
    -- the way from this number goes on to something else that waits
    constructor
    · exact .inr
    · rintro (path | later)
      · exact skipped.passes member path
      · exact later
  | case4 met id waiting differs isNew ih =>
    rw [ih (explored.enter differs), exists_mem_cons_iff]
    constructor
    · rintro ⟨source, waits, path⟩
      rcases mem_append.mp waits with held | later
      · exact .inl (path.head (mem_heldByValue.mp (mem_reverse.mp held)))
      · exact .inr ⟨source, later, path⟩
    · rintro (path | ⟨source, later, path⟩)
      · -- the number is not the one looked for, so the way from it has a first step
        rcases ReflTransGen.cases_head path with same | ⟨held, holds, rest⟩
        · exact absurd same differs
        · refine ⟨held, mem_append_left _ (mem_reverse.mpr ?_), rest⟩
          exact mem_heldByValue.mpr holds
      · exact ⟨source, mem_append_right _ later, path⟩

theorem reaches_iff {source target : Nat} :
    reg.reaches source target = true ↔ ReflTransGen reg.HoldsByValue source target := by
  rw [reaches, search_iff (.start reg target source)]
  simp

/-! ## Chains of definitions -/

/-- A definition refers to another in one of its fields, outside all arrays. -/
def RefersTo (registry : Registry) (owner target : Nat) : Prop :=
  ∃ definition, registry.get? owner = some definition ∧
    ∃ field ∈ definition.fields, field.type.Exposes target

theorem holdsByValue_eq_refersTo (reg : Registry) : reg.HoldsByValue = reg.RefersTo := by
  funext owner target
  simp only [HoldsByValue, RefersTo, FieldType.mem_directReferences]

/-- Reachability by value is decided for all numbers, with a definition or not: a number reaches
another exactly if they are the same, or if there is a chain from the first to the second in which
every number has a definition that refers to the next one outside all arrays. -/
theorem reaches_decides_chains (registry : Registry) (source target : Nat) :
    registry.reaches source target = true ↔ source = target ∨
      ∃ between, List.IsChain registry.RefersTo (source :: (between ++ [target])) := by
  rw [reaches_iff, holdsByValue_eq_refersTo]
  constructor
  · intro path
    obtain ⟨others, chain, ends⟩ := List.exists_isChain_cons_of_relationReflTransGen path
    rcases List.eq_nil_or_concat' others with rfl | ⟨between, last, rfl⟩
    · exact .inl ends
    · obtain rfl : last = target := by simpa using ends
      exact .inr ⟨between, chain⟩
  · rintro (rfl | ⟨between, chain⟩)
    · exact .refl
    · exact List.relationReflTransGen_of_exists_isChain_cons _ chain (by simp)

end Registry

end SchemaLang
