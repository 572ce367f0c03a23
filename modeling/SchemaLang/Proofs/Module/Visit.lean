import SchemaLang.Proofs.Distinct
import SchemaLang.Proofs.Module.Walk

/-!
# What a visit keeps

Two invariants carry every result about visits of an import graph. The first speaks of the
closure alone: the files it holds are those of the tree, its contributions are different
and away from the root, its declarations are those of its contributions in their order,
and its files are the modules of its contributions in the order they were first met.

The second relates the closure to the chain: a contribution whose module is not on the
chain is settled, that is, everything it brings has contributed already and its module is
resolvable. A contribution that is skipped has its module off the chain, so skipping it
hides neither a contribution nor a cycle.
-/

namespace SchemaLang

open List Closure ImportContext ImportGraph

namespace ImportGraph

/-- The declarations of a module that are no imports. -/
def ownOf (graph : ImportGraph) (path : Path) : List Declaration :=
  ((graph.contents path).toOption.getD []).filter fun declaration => declaration.import?.isNone

/-- The declarations of contributions one after the other, each with its scope and with the
number of the contribution as its unit. -/
def declarationsOf (graph : ImportGraph) (pairs : List Contribution) : List ScopedDeclaration :=
  pairs.zipIdx.flatMap fun (pair, unit) =>
    (graph.ownOf pair.1).map fun declaration => ⟨pair.2, unit, declaration⟩

end ImportGraph

/-- What holds of a closure at every point of a visit. `start` holds the root if it is a
file. -/
structure Closure.Accounts (closure : Closure) (graph : ImportGraph) (start : List Path) :
    Prop where
  faithful : closure.Faithful graph.context
  distinct : closure.visited.Nodup
  first : closure.visited.head? = some (graph.root, none)
  away : ∀ pair ∈ closure.visited.tail, pair.1.IsTrue ∧ pair.1.alike graph.root = false
  declarations : closure.declarations = graph.declarationsOf closure.visited
  modules : closure.modules = (start ++ closure.visited.tail.map Prod.fst).eraseDups

@[simp] theorem Closure.contribute_visited (closure : Closure) (path : Path)
    (scope? : Option String) (decls : List Declaration) :
    (closure.contribute path scope? decls).visited = closure.visited ++ [(path, scope?)] :=
  rfl

/-- The files after one more was met. -/
theorem Closure.remember_modules (closure : Closure) (path : Path)
    (decls : List Declaration) :
    (closure.remember path decls).modules =
      if path ∈ closure.modules then closure.modules else closure.modules ++ [path] := by
  unfold remember
  split
  · rfl
  · simp [modules]

/-- Remembering a file leaves the declarations as they are. -/
@[simp] theorem Closure.remember_declarations (closure : Closure) (path : Path)
    (decls : List Declaration) :
    (closure.remember path decls).declarations = closure.declarations := by
  unfold remember
  split <;> rfl

variable {chain : List Path} {path target : Path} {item : Import} {imported : List Declaration}

variable {ctx : ImportContext}

/-- A module that an import leads on to lies away from a root on the chain. -/
theorem ImportContext.Onward.away {root : Path}
    (onward : ctx.Onward chain path item target imported) (rootOn : root ∈ chain) :
    target.alike root = false := by
  rw [Path.alike_comm]
  exact onward.fresh root rootOn

variable {graph : ImportGraph}

/-- What an import leads on to has the contents that were read. -/
theorem ImportContext.Onward.contents {chain : List Path} {path : Path} {item : Import}
    {target : Path} {imported : List Declaration}
    (onward : graph.context.Onward chain path item target imported) (rootOn : graph.root ∈ chain) :
    graph.contents target = .ok imported := by
  rw [graph.contents_of_away (onward.away rootOn)]
  exact onward.readable

variable {scope? : Option String} {closure : Closure}

namespace Closure.Accounts

variable {closure : Closure} {graph : ImportGraph} {start : List Path}

/-- The contributions are that of the root and then the others. -/
theorem visited_eq (accounts : closure.Accounts graph start) :
    closure.visited = (graph.root, none) :: closure.visited.tail := by
  have first := accounts.first
  cases visited : closure.visited with
  | nil => simp [visited] at first
  | cons pair rest =>
    simp only [visited, head?_cons, Option.some.injEq] at first
    rw [first, tail_cons]

/-- Away from the root, having visited means having contributed. -/
theorem hasVisited_iff (accounts : closure.Accounts graph start) (isTrue : path.IsTrue)
    (away : path.alike graph.root = false) :
    closure.hasVisited path scope? = true ↔ (path, scope?) ∈ closure.visited.tail := by
  unfold hasVisited
  rw [accounts.visited_eq, tail_cons, any_cons]
  simp only [Path.alike_comm graph.root path, away, Bool.false_and, Bool.false_or, any_eq_true]
  constructor
  · rintro ⟨pair, member, same⟩
    simp only [Bool.and_eq_true, decide_eq_true_eq] at same
    have samePath := (accounts.away pair member).1.eq_of_alike isTrue same.1
    rw [← samePath, ← same.2]
    exact member
  · intro member
    exact ⟨_, member, by simp⟩

section

variable (wellFormed : graph.context.tree.WellFormed) (accounts : closure.Accounts graph start)
  (rootOn : graph.root ∈ chain) (onward : graph.context.Onward chain path item target imported)
include wellFormed accounts rootOn onward

/-- Skipping an import keeps the account: its module has been read. -/
theorem skip (visited : closure.hasVisited target scope? = true) :
    closure.remember target imported = closure := by
  have isTrue := locateImport_isTrue wellFormed onward.located
  have member := (accounts.hasVisited_iff isTrue (onward.away rootOn)).mp visited
  have known : target ∈ closure.modules := by
    rw [accounts.modules, mem_eraseDups]
    exact mem_append_right _ (mem_map_of_mem member)
  simp [remember, known]

/-- Entering a module keeps the account. -/
theorem enter (unvisited : closure.hasVisited target scope? = false) :
    ((closure.remember target imported).contribute target scope? imported).Accounts graph
      start := by
  have isTrue := locateImport_isTrue wellFormed onward.located
  have away := onward.away rootOn
  have someVisited : closure.visited ≠ [] := by
    rw [accounts.visited_eq]
    simp
  have isNew : (target, scope?) ∉ closure.visited := by
    rw [accounts.visited_eq, mem_cons, ← accounts.hasVisited_iff isTrue away, unvisited]
    rintro (same | impossible)
    · rw [(Prod.mk.inj same).1, Path.alike_refl] at away
      cases away
    · cases impossible
  have ownTarget : graph.ownOf target =
      imported.filter fun decl => decl.import?.isNone := by
    simp [ownOf, onward.contents rootOn, Except.toOption]
  constructor
  case faithful => exact onward.remember_faithful wellFormed accounts.faithful
  case distinct =>
    simp only [contribute, remember_visited, nodup_append]
    refine ⟨accounts.distinct, by simp, fun pair member last isLast same => ?_⟩
    rw [same, mem_singleton.mp isLast] at member
    exact isNew member
  case first =>
    simp [contribute, head?_append, accounts.first]
  case away =>
    intro pair member
    simp only [contribute, remember_visited,
      tail_append_of_ne_nil someVisited, mem_append, mem_singleton] at member
    rcases member with old | rfl
    · exact accounts.away pair old
    · exact ⟨isTrue, away⟩
  case declarations =>
    simp [contribute, remember_visited, remember_declarations, declarationsOf,
      zipIdx_append, ownTarget, accounts.declarations]
  case modules =>
    simp only [contribute, remember_visited, tail_append_of_ne_nil someVisited, map_append,
      map_singleton, ← append_assoc, Distinct.eraseDups_concat]
    rw [← accounts.modules]
    exact closure.remember_modules target imported

end

/-- A walk that succeeds, below a root on the chain, keeps the account. -/
theorem walk (wellFormed : graph.context.tree.WellFormed) {chain : List Path} {path : Path}
    {scope? : Option String} {items : List Import} {final : Closure}
    (walk : graph.context.Walk chain path scope? items closure (.ok final))
    (rootOn : graph.root ∈ chain) (accounts : closure.Accounts graph start) :
    final.Accounts graph start := by
  refine walk.keeps [graph.root] (·.Accounts graph start) ?_ ?_ (by simpa using rootOn) accounts
  · intro _ _ _ _ _ _ longer skip holds
    obtain ⟨_, _, onward, visited, rfl⟩ := step_skip wellFormed holds.faithful skip
    rw [holds.skip wellFormed (longer mem_cons_self) onward visited]
    exact holds
  · intro _ _ _ _ _ _ _ _ longer enter holds
    obtain ⟨onward, unvisited, rfl⟩ := step_enter wellFormed holds.faithful enter
    exact holds.enter wellFormed (longer mem_cons_self) onward unvisited

/-- A first contribution, with the root read or not, opens the account. -/
theorem initial {root : Path} {own : List Declaration} (faithful : closure.Faithful ctx)
    (unvisited : closure.visited = []) (undeclared : closure.declarations = [])
    (modules : closure.modules = start.eraseDups) :
    (closure.contribute root none own).Accounts ⟨ctx, root, own⟩ start := by
  constructor
  case faithful => exact faithful
  case distinct => simp [contribute, unvisited]
  case first => simp [contribute, unvisited]
  case away => simp [contribute, unvisited]
  case declarations =>
    simp [contribute, unvisited, undeclared, declarationsOf,
      ownOf, contents, Except.toOption]
  case modules => simpa [Closure.contribute, Closure.modules, unvisited] using modules

end Closure.Accounts

/-! ## Settled contributions -/

/-- A contribution is settled: its module is resolvable, and everything it brings has
contributed. -/
structure Closure.Settled (closure : Closure) (graph : ImportGraph)
    (pair : ImportGraph.Contribution) : Prop where
  resolvable : graph.Resolvable pair.1
  brought : ∀ later, Relation.ReflTransGen graph.Brings pair later → later ∈ closure.visited

/-- The modules of contributions that are not settled are on the chain. -/
def Closure.SettledOff (closure : Closure) (graph : ImportGraph) (chain : List Path) : Prop :=
  ∀ pair ∈ closure.visited, pair.1 ∉ chain → closure.Settled graph pair

variable {final : Closure} {closure : Closure}

/-- What is settled stays so when there are more contributions. -/
theorem Closure.Settled.mono {pair : Contribution}
    (settled : closure.Settled graph pair) (grows : closure.visited ⊆ final.visited) :
    final.Settled graph pair :=
  ⟨settled.resolvable, fun later brings => grows (settled.brought later brings)⟩

/-- A contribution is settled when it is there and all that it brings directly is settled
and away from the root. -/
theorem Closure.Settled.of_imports {decls : List Declaration}
    (contributed : (path, scope?) ∈ closure.visited)
    (contents : graph.contents path = .ok decls)
    (imports : ∀ item ∈ importsOf decls, ∃ target, graph.context.locateImport path item = .ok
      target ∧ target.alike graph.root = false ∧ closure.Settled graph (target, importScope scope?
      item)) : closure.Settled graph (path, scope?) := by
  have same : ∀ {item target other}, graph.context.locateImport path item = .ok target →
      graph.context.locateImport path item = .ok other → target = other :=
    fun first second => Except.ok.inj (first.symm.trans second)
  constructor
  · refine .intro path decls contents ?_ ?_ ?_
    · intro item member
      obtain ⟨target, located, _⟩ := imports item member
      exact ⟨target, located⟩
    · intro item member other located
      obtain ⟨target, first, away, _⟩ := imports item member
      exact same first located ▸ away
    · intro item member other located
      obtain ⟨target, first, _, settled⟩ := imports item member
      exact same first located ▸ settled.resolvable
  · intro later brings
    rcases Relation.ReflTransGen.cases_head brings with rfl | ⟨next, first, rest⟩
    · exact contributed
    · obtain ⟨others, sameContents, item, member, located, scope⟩ := first
      obtain rfl : decls = others := Except.ok.inj (contents.symm.trans sameContents)
      obtain ⟨target, found, _, settled⟩ := imports item member
      obtain rfl : (target, importScope scope? item) = next := Prod.ext (same found located) scope
      exact settled.brought later rest

/-- What a walk that succeeds has done: contributions were only added, those added lie off
the chain, all off the chain are settled, and so is all that the imports lead to. -/
structure Closure.Advances (closure final : Closure) (graph : ImportGraph) (chain : List Path)
    (path : Path) (scope? : Option String) (items : List Import) : Prop where
  grows : closure.visited ⊆ final.visited
  offChain : ∀ pair ∈ final.visited, pair ∉ closure.visited → pair.1 ∉ chain
  settledOff : final.SettledOff graph chain
  imports : ∀ item ∈ items, ∃ target, graph.context.locateImport path item = .ok target ∧
    target.alike graph.root = false ∧
      final.Settled graph (target, importScope scope? item)

/-- The walk over the imports of an entered module, seen from its importer: the new
contribution is settled, and all others off the shorter chain are too. -/
theorem Closure.Advances.leave {entered inside : Closure}
    (contents : graph.contents target = .ok imported) (settledOff : closure.SettledOff graph chain)
    (visited : entered.visited = closure.visited ++ [(target, scope?)])
    (inner : entered.Advances inside graph (chain ++ [target]) target scope? (importsOf imported)) :
    inside.Settled graph (target, scope?) ∧ inside.SettledOff graph chain := by
  have member : (target, scope?) ∈ entered.visited := by simp [visited]
  have own : inside.Settled graph (target, scope?) :=
    .of_imports (inner.grows member) contents inner.imports
  refine ⟨own, fun pair found off => ?_⟩
  by_cases isTarget : pair.1 = target
  · have before : pair ∈ entered.visited := by
      by_contra isNew
      exact inner.offChain pair found isNew (by simp [isTarget])
    rw [visited, mem_append, mem_singleton] at before
    rcases before with old | rfl
    · refine (settledOff pair old off).mono fun other member => inner.grows ?_
      rw [visited]
      exact mem_append_left _ member
    · exact own
  · exact inner.settledOff pair found (by simp [off, isTarget])

/-- Entering a module leaves everything settled that is off the longer chain. -/
theorem Closure.SettledOff.enter (settledOff : closure.SettledOff graph chain) (target : Path)
    (scope? : Option String) (imported : List Declaration) :
    ((closure.remember target imported).contribute target scope? imported).SettledOff graph
      (chain ++ [target]) := by
  intro pair member off
  rw [contribute_visited, remember_visited, mem_append, mem_singleton] at member
  rcases member with old | rfl
  · refine (settledOff pair old fun onChain => off (mem_append_left _ onChain)).mono ?_
    rw [contribute_visited, remember_visited]
    exact subset_append_left _ _
  · simp at off

variable {start : List Path}

/-- A contribution that is skipped is settled, since its module is off the chain. -/
theorem Closure.Accounts.settled_of_skip (wellFormed : graph.context.tree.WellFormed)
    (accounts : closure.Accounts graph start) (rootOn : graph.root ∈ chain)
    (settledOff : closure.SettledOff graph chain)
    (onward : graph.context.Onward chain path item target imported)
    (visited : closure.hasVisited target scope? = true) :
    closure.Settled graph (target, scope?) := by
  have isTrue := locateImport_isTrue wellFormed onward.located
  have contributed := (accounts.hasVisited_iff isTrue (onward.away rootOn)).mp visited
  exact settledOff _ (mem_of_mem_tail contributed) onward.isNew

/-- Following imports from an account with a settled rest advances it. The induction is on
the walk; the invariant for an entered module holds since only its own contribution is new
and its module is on the longer chain. -/
theorem ImportContext.Walk.advances (wellFormed : graph.context.tree.WellFormed)
    {items : List Import} (walk : graph.context.Walk chain path scope? items closure (.ok final))
    (rootOn : graph.root ∈ chain) (accounts : closure.Accounts graph start)
    (settledOff : closure.SettledOff graph chain) :
    closure.Advances final graph chain path scope? items := by
  generalize reached : Except.ok final = outcome at walk
  induction walk generalizing final with
  | done =>
    cases reached
    exact ⟨fun _ member => member, fun _ member isNew => absurd member isNew, settledOff, by simp⟩
  | stopped | failed => cases reached
  | @skipped chain path scope? item items closure loaded outcome skip rest ih =>
    obtain ⟨target, imported, onward, visited, rfl⟩ := step_skip wellFormed accounts.faithful skip
    rw [accounts.skip wellFormed rootOn onward visited] at ih
    have settled := accounts.settled_of_skip wellFormed rootOn settledOff onward visited
    have after := ih rootOn accounts settledOff reached
    refine ⟨after.grows, after.offChain, after.settledOff, fun other member => ?_⟩
    rcases mem_cons.mp member with rfl | later
    · exact ⟨target, onward.located, onward.away rootOn, settled.mono after.grows⟩
    · exact after.imports other later
  | @entered chain path scope? item items closure target imported loaded inside outcome enter
      inner rest innerHypothesis restHypothesis =>
    obtain ⟨onward, unvisited, rfl⟩ := step_enter wellFormed accounts.faithful enter
    have opened := accounts.enter wellFormed rootOn onward unvisited
    have longerRoot : graph.root ∈ chain ++ [target] := mem_append_left _ rootOn
    have below := innerHypothesis longerRoot opened (settledOff.enter target _ imported) rfl
    obtain ⟨settled, insideSettled⟩ := below.leave (onward.contents rootOn) settledOff (by simp)
    have after := restHypothesis rootOn (.walk wellFormed inner longerRoot opened)
      insideSettled reached
    refine ⟨fun pair member => after.grows (below.grows (by simp [member])), ?_,
      after.settledOff, ?_⟩
    · intro pair member isNew
      by_cases known : pair ∈ inside.visited
      · by_cases isTarget : pair = (target, importScope scope? item)
        · rw [isTarget]
          exact onward.isNew
        · intro onChain
          exact below.offChain pair known (by simp [isNew, isTarget])
            (mem_append_left _ onChain)
      · exact after.offChain pair member known
    · intro other member
      rcases mem_cons.mp member with rfl | later
      · exact ⟨target, onward.located, onward.away rootOn, settled.mono after.grows⟩
      · exact after.imports other later

/-- At the root nothing is off the chain yet. -/
theorem Closure.SettledOff.initial (unvisited : closure.visited = []) :
    (closure.contribute graph.root none graph.own).SettledOff graph [graph.root] := by
  intro pair member off
  rw [contribute_visited, unvisited, nil_append, mem_singleton] at member
  simp [member] at off

/-- A walk from the root that succeeds settles the root. -/
theorem ImportContext.Walk.settles_root (wellFormed : graph.context.tree.WellFormed)
    (unvisited : closure.visited = [])
    (accounts : (closure.contribute graph.root none graph.own).Accounts graph start)
    (walk : graph.context.Walk [graph.root] graph.root none (importsOf graph.own)
      (closure.contribute graph.root none graph.own) (.ok final)) :
    final.Settled graph (graph.root, none) := by
  have advances := walk.advances wellFormed mem_cons_self accounts (.initial unvisited)
  exact .of_imports (advances.grows (by simp)) graph.contents_root advances.imports

end SchemaLang
