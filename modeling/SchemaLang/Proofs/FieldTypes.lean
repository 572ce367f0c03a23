import SchemaLang.Bindings.TypeScript
import SchemaLang.JsonSchema.Document
import SchemaLang.Proofs.Outcome

/-!
# Types of fields

A union holds its arms in a list, so what runs over types has a companion that runs over lists of
them. The induction here speaks of every arm of a union, and a companion that stops at the first
fault is a step over a list. So a proof about types needs no companion of its own.
-/

namespace SchemaLang

open List Outcome

namespace FieldType

variable {ρ σ ε : Type}

@[elab_as_elim, induction_eliminator]
theorem induction {motive : FieldType ρ → Prop} (primitive : ∀ kind, motive (.primitive kind))
    (reference : ∀ target, motive (.reference target))
    (array : ∀ item, motive item → motive (.array item))
    (optional : ∀ inner, motive inner → motive (.optional inner))
    (union : ∀ arms, (∀ arm ∈ arms, motive arm) → motive (.union arms))
    (range : ∀ kind least greatest, motive (.range kind least greatest))
    (type : FieldType ρ) : motive type := by
  refine @FieldType.rec ρ motive (fun arms => ∀ arm ∈ arms, motive arm) primitive reference array
    optional union range ?_ ?_ type
  · simp
  · exact fun _ _ first rest => forall_mem_cons.mpr ⟨first, rest⟩

theorem linkAll_eq_mapM (replace : ρ → Except ε σ) (types : List (FieldType ρ)) :
    linkAll replace types = types.mapM (link replace) := by
  induction types with
  | nil => rfl
  | cons type types ih =>
    rw [linkAll, mapM_cons, ih]
    cases type.link replace <;> rfl

/-- The arms of a union that is linked. -/
theorem link_union_ok {replace : ρ → Except ε σ} {arms : List (FieldType ρ)} {linked : FieldType σ}
    (done : (union arms).link replace = .ok linked) :
    ∃ types, Forall₂ (fun arm type => arm.link replace = .ok type) arms types ∧
      linked = .union types := by
  obtain ⟨types, found, rfl⟩ := map_ok_iff.mp done
  rw [linkAll_eq_mapM] at found
  exact ⟨types, mapM_ok_iff.mp found, rfl⟩

end FieldType

theorem JsonSchema.ofArms_eq_mapM (reg : Registry) (arms : List (FieldType Nat)) :
    ofArms reg arms = arms.mapM fun arm => (ofType reg arm).map Json.object := by
  induction arms with
  | nil => rfl
  | cons arm arms ih =>
    rw [ofArms, mapM_cons, ih]
    cases ofType reg arm <;> rfl

theorem TypeScriptBindings.ofArms_eq_mapM (reg : Registry) (arms : List (FieldType Nat)) :
    ofArms reg arms = arms.mapM (ofType reg) := by
  induction arms with
  | nil => rfl
  | cons arm arms ih =>
    rw [ofArms, mapM_cons, ih]
    cases ofType reg arm <;> rfl

end SchemaLang
