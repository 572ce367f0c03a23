import SchemaLang.Registry.Definition

/-!
# Reachability by value

A definition holds another by value when one of its fields refers to it and no
array stands between. What can be reached in this way is searched depth first: the
references of a definition wait on a stack until their turn comes, and a definition
that has been met is not entered again. A reference may wait several times.

Each turn takes a reference off the stack. It puts others there only for a definition
that is met for the first time, so the references of the definitions not met yet,
together with those that wait, become fewer with every turn.
-/

namespace SchemaLang.Registry

/-- The definitions that a definition holds by value. -/
def heldByValue (registry : Registry) (id : Nat) : List Nat :=
  match registry.get? id with
  | some definition => definition.fields.flatMap fun field => field.type.directReferences
  | none => []

/-- How many references the definitions among some numbers have that have not been met. -/
def unmetAmong (registry : Registry) (met ids : List Nat) : Nat :=
  ((ids.filter fun id => !met.contains id).flatMap registry.heldByValue).length

/-- How many references all definitions have that have not been met. -/
def unexplored (registry : Registry) (met : List Nat) : Nat :=
  registry.unmetAmong met (List.range registry.size)

theorem unmetAmong_cons (registry : Registry) (met : List Nat) (id : Nat) (ids : List Nat) :
    registry.unmetAmong met (id :: ids) =
      (if met.contains id then 0 else (registry.heldByValue id).length) +
        registry.unmetAmong met ids := by
  unfold unmetAmong
  rw [List.filter_cons]
  cases met.contains id
  · exact List.length_append
  · exact (Nat.zero_add _).symm

/-- Meeting a definition leaves none more to be met. -/
theorem unmetAmong_meet_le (registry : Registry) (met : List Nat) (id : Nat) (ids : List Nat) :
    registry.unmetAmong (id :: met) ids ≤ registry.unmetAmong met ids := by
  induction ids with
  | nil => exact Nat.le_refl _
  | cons other ids inductionHypothesis =>
    rw [unmetAmong_cons, unmetAmong_cons, List.contains_cons]
    cases met.contains other <;> cases other == id <;> simp <;> omega

/-- Meeting a definition for the first time leaves its references out of the count. -/
theorem unmetAmong_meet (registry : Registry) {met : List Nat} {id : Nat}
    (isNew : met.contains id = false) {ids : List Nat} (member : id ∈ ids) :
    registry.unmetAmong (id :: met) ids + (registry.heldByValue id).length ≤
      registry.unmetAmong met ids := by
  induction ids with
  | nil => cases member
  | cons other ids inductionHypothesis =>
    rw [unmetAmong_cons, unmetAmong_cons, List.contains_cons]
    rcases List.mem_cons.mp member with rfl | later
    · have others := registry.unmetAmong_meet_le met id ids
      simp only [isNew, BEq.rfl, Bool.true_or, if_true, Bool.false_eq_true, if_false]
      omega
    · have others := inductionHypothesis later
      cases met.contains other <;> cases other == id <;> simp <;> omega

/-- A number without a definition holds nothing, and a definition that is met for the
first time puts no more on the stack than it leaves out of the count. -/
theorem unexplored_meet (registry : Registry) {met : List Nat} {id : Nat}
    (isNew : met.contains id = false) :
    registry.unexplored (id :: met) + (registry.heldByValue id).length ≤
      registry.unexplored met := by
  by_cases defined : id < registry.size
  · exact registry.unmetAmong_meet isNew (List.mem_range.mpr defined)
  · have holdsNothing : registry.heldByValue id = [] := by
      rw [heldByValue, get?, List.getElem?_eq_none (Nat.le_of_not_lt defined)]
    rw [holdsNothing]
    exact registry.unmetAmong_meet_le met id _

/-- Whether the search finds a definition, given what has been met and what waits. -/
def search (registry : Registry) (target : Nat) (met : List Nat) : List Nat → Bool
  | [] => false
  | id :: waiting =>
    if id = target then true
    else if met.contains id then search registry target met waiting
    else search registry target (id :: met) ((registry.heldByValue id).reverse ++ waiting)
termination_by waiting => registry.unexplored met + waiting.length
decreasing_by
  · exact Nat.lt_succ_self _
  · rename_i isNew
    have fewer := registry.unexplored_meet (Bool.eq_false_iff.mpr isNew)
    rw [List.length_append, List.length_reverse, List.length_cons]
    omega

/-- Whether the second definition can be reached from the first by value. Every
definition reaches itself. -/
def reaches (registry : Registry) (source target : Nat) : Bool :=
  registry.search target [] [source]

end SchemaLang.Registry
