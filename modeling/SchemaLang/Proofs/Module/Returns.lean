import SchemaLang.Proofs.Module.Resolution

/-!
# Coming back to a chain

A walk over modules that are known to be resolvable finds all of them and can read them. So nothing
but a cycle can stop it, and it is stopped by one as soon as an import leads to a module on the
chain.
-/

namespace SchemaLang

open List

variable {path : Path}

namespace ImportGraph

variable {graph : ImportGraph}

/-- An import leads to a resolvable module away from the root. -/
def LeadsSafely (graph : ImportGraph) (path : Path) (item : Import) : Prop :=
  ∃ target, graph.context.locateImport path item = .ok target ∧
    target.alike graph.root = false ∧ graph.Resolvable target

/-- An import that leads safely stops a walk only by a cycle. Otherwise it leads on to a module
whose imports lead safely too. -/
theorem LeadsSafely.step {item : Import} (safe : graph.LeadsSafely path item) (chain : List Path)
    (scope? : Option String) (closure : Closure) :
    (∃ cycle, graph.context.step chain path scope? closure item = .stop (.circularImport cycle)) ∨
      ∃ target imported, graph.context.Onward chain path item target imported ∧
        ∀ next ∈ importsOf imported, graph.LeadsSafely target next := by
  obtain ⟨target, located, away, resolvable⟩ := safe
  cases resolvable with
  | intro _ imported contents found nextAway next =>
    rw [graph.contents_of_away away] at contents
    by_cases back : chain.any (fun other => other.alike target) = true
    · left
      refine ⟨graph.context.cycle chain target, ?_⟩
      rw [ImportContext.step, located, ImportContext.stepTo, if_pos back]
    · right
      have fresh : ∀ other ∈ chain, other.alike target = false := by simpa using back
      refine ⟨target, imported, ⟨located, fresh, contents⟩, fun item member => ?_⟩
      obtain ⟨later, leads⟩ := found item member
      exact ⟨later, leads, nextAway item member later leads, next item member later leads⟩

end ImportGraph

namespace ImportContext

variable {graph : ImportGraph} {scope? : Option String} {outcome : Except Error Closure}

/-- A walk over imports that lead safely fails only by a cycle. -/
theorem Walk.safe (wellFormed : graph.context.tree.WellFormed) {chain : List Path} {path : Path}
    {items : List Import} {closure : Closure}
    (walk : graph.context.Walk chain path scope? items closure outcome)
    (safe : ∀ item ∈ items, graph.LeadsSafely path item)
    (faithful : closure.Faithful graph.context) :
    (∃ final, outcome = .ok final) ∨ ∃ cycle, outcome = .error (.circularImport cycle) := by
  induction walk with
  | done => exact .inl ⟨_, rfl⟩
  | @stopped chain path scope? item items closure fault stop =>
    rcases (safe item mem_cons_self).step chain scope? closure with
      ⟨cycle, back⟩ | ⟨target, imported, onward, _⟩
    · obtain rfl := ImportStep.stop.inj (stop.symm.trans back)
      exact .inr ⟨cycle, rfl⟩
    · rw [onward.step_eq wellFormed faithful] at stop
      split at stop <;> cases stop
  | skipped skip _ ih =>
    obtain ⟨_, _, onward, _, rfl⟩ := step_skip wellFormed faithful skip
    exact ih (fun item member => safe item (mem_cons_of_mem _ member))
      (onward.remember_faithful wellFormed faithful)
  | @failed chain path scope? item items closure target imported loaded fault enter _
      ih =>
    obtain ⟨onward, _, rfl⟩ := step_enter wellFormed faithful enter
    rcases (safe item mem_cons_self).step chain scope? closure with
      ⟨cycle, back⟩ | ⟨other, others, otherOnward, otherSafe⟩
    · cases enter.symm.trans back
    · obtain rfl := Except.ok.inj (onward.located.symm.trans otherOnward.located)
      obtain rfl := Except.ok.inj (onward.readable.symm.trans otherOnward.readable)
      exact ih otherSafe (onward.remember_faithful wellFormed faithful)
  | entered enter inner _ _ restHypothesis =>
    obtain ⟨onward, _, rfl⟩ := step_enter wellFormed faithful enter
    have inside := inner.faithful wellFormed (onward.remember_faithful wellFormed faithful)
    exact restHypothesis (fun item member => safe item (mem_cons_of_mem _ member)) inside

/-- A walk ends in a cycle if it meets an import of a module on the chain behind imports that lead
safely. -/
theorem Walk.returns (wellFormed : graph.context.tree.WellFormed) {chain : List Path}
    {path target : Path} {before after : List Import} {item : Import} {closure : Closure}
    (safe : ∀ earlier ∈ before, graph.LeadsSafely path earlier)
    (located : graph.context.locateImport path item = .ok target) (onChain : target ∈ chain)
    (faithful : closure.Faithful graph.context)
    (walk : graph.context.Walk chain path scope? (before ++ item :: after) closure outcome) :
    ∃ cycle, outcome = .error (.circularImport cycle) := by
  induction before generalizing closure with
  | nil =>
    have stop : graph.context.step chain path scope? closure item =
        .stop (.circularImport (graph.context.cycle chain target)) := by
      rw [step, located, stepTo, if_pos (any_eq_true.mpr ⟨target, onChain, by simp⟩)]
    cases walk with
    | stopped stopped =>
      obtain rfl := ImportStep.stop.inj (stopped.symm.trans stop)
      exact ⟨_, rfl⟩
    | skipped skip | failed skip | entered skip => cases stop.symm.trans skip
  | cons earlier others ih =>
    have othersSafe : ∀ other ∈ others, graph.LeadsSafely path other := fun other member =>
      safe other (mem_cons_of_mem earlier member)
    have first := safe earlier mem_cons_self
    have single {result : Except Error Closure}
        (walked : graph.context.Walk chain path scope? [earlier] closure result) :=
      walked.safe wellFormed (by simpa using first) faithful
    cases walk with
    | stopped stop =>
      obtain ⟨_, done⟩ | cycle := single (.stopped stop)
      · cases done
      · exact cycle
    | skipped skip rest =>
      obtain ⟨_, _, onward, _, rfl⟩ := step_skip wellFormed faithful skip
      exact ih othersSafe (onward.remember_faithful wellFormed faithful) rest
    | failed enter inner =>
      obtain ⟨_, done⟩ | cycle := single (.failed enter inner)
      · cases done
      · exact cycle
    | entered enter inner rest =>
      obtain ⟨onward, _, rfl⟩ := step_enter wellFormed faithful enter
      exact ih othersSafe
        (inner.faithful wellFormed (onward.remember_faithful wellFormed faithful)) rest

end ImportContext

end SchemaLang
