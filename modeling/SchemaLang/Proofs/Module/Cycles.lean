import Mathlib.Data.List.Chain
import Mathlib.Data.List.TakeWhile
import SchemaLang.Proofs.Declaration.Texts
import SchemaLang.Proofs.Module.Resolution
import SchemaLang.Proofs.Relabelling

/-!
# Reported cycles

A resolution that ends in a circular import names a cycle of the import graph: a way from a module
back to it, along imports that stand in the modules, without a module twice, and in reach of the
root. So a module that is met again without being on the way, below another import or under another
alias, is never taken for a cycle.

The chain that a walk carries is such a way from the root to the module it is at. Entering a module
keeps that, and after it has been left the shorter chain is carried on, so one invariant of the
chain gives the report wherever the walk stops. The report starts at the module on the chain that
the last import leads back to; what is before it on the chain is no part of the cycle.
-/

namespace SchemaLang

open Outcome List

/-! ## Faults that are no cycles -/

/-- A text that cannot be parsed is never a circular import. -/
theorem parse_failsOnly (source text : String) :
    FailsOnly (·.kind ≠ .circularImport) (parse source text) := by
  intro fault failed
  obtain ⟨_, _, _, ⟨_, body, _, done⟩ | ⟨_, other, stuck, isFault⟩⟩ := tokenize_places source text
  · rw [parse, done] at failed
    obtain ⟨found, _, expected, rfl⟩ := parseTokens_refuses (by simp [isTerminated]) failed
    simp [Error.kind]
  · rw [parse, stuck] at failed
    cases failed
    rcases isFault with rfl | rfl <;> simp [Error.kind]

namespace ImportContext

variable (ctx : ImportContext)

theorem readModule_failsOnly (path : Path) :
    FailsOnly (·.kind ≠ .circularImport) (ctx.readModule path) := by
  unfold readModule
  split
  · exact .error (by simp [Error.kind])
  · exact parse_failsOnly _ _

theorem locate_failsOnly (candidate : Path) (requested : String) (location? : Option Location) :
    FailsOnly (·.kind ≠ .circularImport) (ctx.locate candidate requested location?) := by
  unfold locate
  split
  · exact .of_ok ⟨_, rfl⟩
  · exact .error (by simp [Error.kind])

end ImportContext

/-! ## Chains from the root -/

namespace ImportGraph

variable {graph : ImportGraph}

/-- A way along imports from the root to a module, on which no two modules are alike. -/
structure Trail (graph : ImportGraph) (chain : List Path) (path : Path) : Prop where
  rootOn : graph.root ∈ chain
  ends : chain.getLast? = some path
  imports : chain.IsChain graph.Edge
  distinct : chain.Pairwise fun one other => one.alike other = false
  reachable : ∀ other ∈ chain, graph.Reachable other
  located : ∀ other ∈ chain, other = graph.root ∨ other.IsTrue

/-- A cycle of imports, from a module on to others and back to it. Two paths that are alike are one
path in two spellings, and no two modules on the way are alike. -/
structure Cycle (graph : ImportGraph) (first : Path) (middle : List Path) (last : Path) :
    Prop where
  imports : (first :: middle ++ [last]).IsChain graph.Edge
  closes : first.alike last = true
  distinct : (first :: middle).Pairwise fun one other => one.alike other = false
  reachable : graph.Reachable first

theorem trail_root : graph.Trail [graph.root] graph.root where
  rootOn := mem_cons_self
  ends := rfl
  imports := .singleton _
  distinct := pairwise_singleton _ _
  reachable := forall_mem_singleton.mpr .refl
  located := forall_mem_singleton.mpr (.inl rfl)

namespace Trail

variable {chain : List Path} {path target : Path} (trail : graph.Trail chain path)
include trail

theorem mem : path ∈ chain := mem_of_getLast? trail.ends

/-- One import more goes on along the way. -/
theorem imports_concat (edge : graph.Edge path target) :
    (chain ++ [target]).IsChain graph.Edge := by
  refine isChain_append.mpr ⟨trail.imports, .singleton _, ?_⟩
  intro last isLast next isNext
  rw [trail.ends] at isLast
  cases isLast
  cases isNext
  exact edge

omit trail in
/-- An import that leads on makes the way longer. -/
theorem extend (wellFormed : graph.context.tree.WellFormed) (trail : graph.Trail chain path)
    {item : Import} {imported : List Declaration} (edge : graph.Edge path target)
    (onward : graph.context.Onward chain path item target imported) :
    graph.Trail (chain ++ [target]) target where
  rootOn := mem_append_left _ trail.rootOn
  ends := getLast?_concat
  imports := trail.imports_concat edge
  distinct := by
    refine pairwise_append.mpr ⟨trail.distinct, pairwise_singleton _ _, ?_⟩
    intro other onChain last isLast
    rw [mem_singleton.mp isLast]
    exact onward.fresh other onChain
  reachable := by
    refine forall_mem_append.mpr ⟨trail.reachable, forall_mem_singleton.mpr ?_⟩
    exact (trail.reachable path trail.mem).tail edge
  located := by
    refine forall_mem_append.mpr ⟨trail.located, forall_mem_singleton.mpr (.inr ?_)⟩
    exact ImportContext.locateImport_isTrue wellFormed onward.located

/-- An import that leads back to the way closes a cycle: the part of the way from the module that
the import leads to. -/
theorem cycle (edge : graph.Edge path target)
    (back : chain.any (fun other => other.alike target) = true) :
    ∃ first middle, (first = graph.root ∨ first.IsTrue) ∧
      graph.context.cycle chain target = (first :: middle ++ [target]).map graph.context.label ∧
      graph.Cycle first middle target := by
  have suffix := dropWhile_suffix (l := chain) fun other => !other.alike target
  have starts := head?_dropWhile_not (fun other => !other.alike target) chain
  have imports := trail.imports_concat edge
  unfold ImportContext.cycle
  cases around : chain.dropWhile fun other => !other.alike target with
  | nil =>
    obtain ⟨other, onChain, same⟩ := any_eq_true.mp back
    have away := dropWhile_eq_nil_iff.mp around other onChain
    rw [same] at away
    cases away
  | cons first middle =>
    rw [around] at suffix starts
    have onChain : first ∈ chain := suffix.subset mem_cons_self
    refine ⟨first, middle, trail.located first onChain, by simp, ?_⟩
    constructor
    case imports =>
      obtain ⟨before, whole⟩ := suffix
      rw [← whole, append_assoc] at imports
      exact imports.suffix (suffix_append _ _)
    case closes => simpa using starts
    case distinct => exact trail.distinct.sublist suffix.sublist
    case reachable => exact trail.reachable first onChain

end Trail

/-- A graph with a cycle is not without cycles. -/
theorem Cycle.not_acyclic {first last : Path} {middle : List Path}
    (cycle : graph.Cycle first middle last) : ¬ graph.Acyclic := by
  intro acyclic
  have leads : Relation.TransGen graph.Edge first last := by
    have imports := cycle.imports
    rw [cons_append] at imports
    cases around : middle ++ [last] with
    | nil => simp at around
    | cons next rest =>
      rw [around] at imports
      obtain ⟨edge, others⟩ := isChain_cons_cons.mp imports
      refine .head' edge (relationReflTransGen_of_exists_isChain_cons rest others ?_)
      simp only [← around, getLast_append_singleton]
  have differ := acyclic first last cycle.reachable leads
  rw [cycle.closes] at differ
  cases differ

end ImportGraph

/-! ## Walks that stop at a cycle -/

variable {closure : Closure} {names : List String}

namespace ImportContext

variable {scope? : Option String}

/-- A step stops with a cycle only if its import leads back to the chain. -/
theorem step_stop_cycle {ctx : ImportContext} (wellFormed : ctx.tree.WellFormed)
    {chain : List Path} {path : Path} {item : Import} (faithful : closure.Faithful ctx)
    (stop : ctx.step chain path scope? closure item = .stop (.circularImport names)) :
    ∃ target, ctx.locateImport path item = .ok target ∧
      chain.any (fun other => other.alike target) = true ∧ names = ctx.cycle chain target := by
  unfold step at stop
  cases located : ctx.locateImport path item with
  | error fault =>
    rw [located] at stop
    cases stop
    exact absurd rfl (ctx.locate_failsOnly _ _ _ _ located)
  | ok target =>
    rw [located, stepTo] at stop
    split at stop
    · rename_i back
      cases stop
      exact ⟨target, rfl, back, rfl⟩
    · rw [load_eq faithful (locateImport_isTrue wellFormed located)] at stop
      cases readable : ctx.readModule target with
      | error fault =>
        rw [readable] at stop
        cases stop
        exact absurd rfl (ctx.readModule_failsOnly _ _ readable)
      | ok imported =>
        rw [readable] at stop
        simp only [Except.map, ImportStep.ofLoaded] at stop
        split at stop <;> cases stop

/-- A walk that ends with a cycle, along a way from the root, stops at an import that leads back to
a way from the root. The induction is on the walk; only entering a module changes the way. -/
theorem Walk.stops_at_cycle {graph : ImportGraph} (wellFormed : graph.context.tree.WellFormed)
    {chain : List Path} {path : Path} {items : List Import} {decls : List Declaration}
    (walk : graph.context.Walk chain path scope? items closure (.error (.circularImport names)))
    (faithful : closure.Faithful graph.context) (trail : graph.Trail chain path)
    (contents : graph.contents path = .ok decls) (among : items ⊆ importsOf decls) :
    ∃ chain path target, graph.Trail chain path ∧ graph.Edge path target ∧ target.IsTrue ∧
      chain.any (fun other => other.alike target) = true ∧
      names = graph.context.cycle chain target := by
  generalize isFault : Except.error (Error.circularImport names) = outcome at walk
  induction walk generalizing decls with
  | done => cases isFault
  | stopped stop =>
    cases isFault
    obtain ⟨target, located, back, isCycle⟩ := step_stop_cycle wellFormed faithful stop
    have edge : graph.Edge _ target := ⟨decls, contents, _, among mem_cons_self, located⟩
    exact ⟨_, _, target, trail, edge, locateImport_isTrue wellFormed located, back, isCycle⟩
  | skipped skip _ ih =>
    obtain ⟨_, _, onward, _, rfl⟩ := step_skip wellFormed faithful skip
    exact ih (onward.remember_faithful wellFormed faithful) trail contents
      (subset_of_cons_subset among) isFault
  | failed enter _ ih =>
    obtain ⟨onward, _, rfl⟩ := step_enter wellFormed faithful enter
    have edge : graph.Edge _ _ := ⟨decls, contents, _, among mem_cons_self, onward.located⟩
    exact ih (onward.remember_faithful wellFormed faithful)
      (trail.extend wellFormed edge onward) (onward.contents trail.rootOn) (List.Subset.refl _)
      isFault
  | entered enter inner _ _ ih =>
    obtain ⟨onward, _, rfl⟩ := step_enter wellFormed faithful enter
    have inside := inner.faithful wellFormed (onward.remember_faithful wellFormed faithful)
    exact ih inside trail contents (subset_of_cons_subset among) isFault

/-- A walk from the root that ends with a cycle names a cycle of the graph. -/
theorem Walk.names_cycle (graph : ImportGraph) (wellFormed : graph.context.tree.WellFormed)
    (faithful : closure.Faithful graph.context)
    (walk : graph.context.Walk [graph.root] graph.root none (importsOf graph.own) closure
      (.error (.circularImport names))) :
    ∃ first middle last, names = (first :: middle ++ [last]).map graph.context.label ∧
      graph.Cycle first middle last ∧ (graph.root.IsTrue → first = last) := by
  obtain ⟨chain, path, target, trail, edge, isTrue, back, rfl⟩ := walk.stops_at_cycle wellFormed
    faithful ImportGraph.trail_root graph.contents_root (List.Subset.refl _)
  obtain ⟨first, middle, located, spelled, cycle⟩ := trail.cycle edge back
  refine ⟨first, middle, target, spelled, cycle, fun rootTrue => ?_⟩
  rcases located with rfl | firstTrue
  · exact rootTrue.eq_of_alike isTrue cycle.closes
  · exact firstTrue.eq_of_alike isTrue cycle.closes

/-- A resolution that fails with a circular import names a cycle of the import graph, for a root in
a file and for a root given as a text. So it never fails in this way when no chain of imports comes
back, however many chains and aliases lead to a module. -/
theorem circularImport_names_cycle (context : ImportContext)
    (wellFormed : context.tree.WellFormed) :
    (∀ path names, context.closureOf path = .error (.circularImport names) →
      ∃ root own first middle, context.locate path path.text none = .ok root ∧
        context.readModule root = .ok own ∧
        names = (first :: middle ++ [first]).map context.label ∧
        (ImportGraph.mk context root own).Cycle first middle first ∧
        ¬ (ImportGraph.mk context root own).Acyclic) ∧
    (∀ text path names, context.closureOfText text path = .error (.circularImport names) →
      ∃ own first middle last, parse (context.label path) text = .ok own ∧
        names = (first :: middle ++ [last]).map context.label ∧
        (ImportGraph.mk context path own).Cycle first middle last ∧
        ¬ (ImportGraph.mk context path own).Acyclic) := by
  constructor
  · intro path names fails
    have resolves := resolves_closureOf wellFormed path
    rw [fails] at resolves
    cases resolves with
    | unlocated notFound => exact absurd rfl (context.locate_failsOnly _ _ _ _ notFound)
    | unread _ unreadable => exact absurd rfl (context.readModule_failsOnly _ _ unreadable)
    | @walked root own _ located readable walk =>
      obtain ⟨first, middle, last, spelled, cycle, closed⟩ :=
        Walk.names_cycle ⟨context, root, own⟩ wellFormed
          (root_accounts wellFormed located readable).faithful walk
      obtain rfl := closed (locate_isTrue wellFormed located)
      exact ⟨root, own, first, middle, located, readable, spelled, cycle, cycle.not_acyclic⟩
  · intro text path names fails
    have resolves := resolvesText_closureOfText wellFormed text path
    rw [fails] at resolves
    cases resolves with
    | unparsed malformed => exact absurd rfl (parse_failsOnly _ _ _ malformed)
    | @walked own _ parsed walk =>
      obtain ⟨first, middle, last, spelled, cycle, _⟩ :=
        Walk.names_cycle ⟨context, path, own⟩ wellFormed
          (text_accounts context path own).faithful walk
      exact ⟨own, first, middle, last, parsed, spelled, cycle, cycle.not_acyclic⟩

/-- A root that reaches one module along three chains, twice under aliases, and then two modules
that import each other. -/
def diamondAndCycle : ImportContext where
  tree := ⟨[(["main.sdl"], .file (.text
      "import \"./left\" as l import \"./left\" as r import \"./shared\" import \"./a\"")),
    (["left.sdl"], .file (.text "import \"./shared\"")),
    (["shared.sdl"], .file (.text "type T \x7b x: integer \x7d")),
    (["a.sdl"], .file (.text "import \"./shared\" as s import \"./b\"")),
    (["b.sdl"], .file (.text "import \"./shared\" import \"./a\" as again"))], []⟩
  root := ⟨"/"⟩
  entryFileName := "index.sdl"

/-- The report leaves out the root and the module that is met again and again. -/
theorem diamondAndCycle_names :
    diamondAndCycle.tree.WellFormed ∧
      diamondAndCycle.closureOf ⟨"/main.sdl"⟩ =
        .error (.circularImport ["a.sdl", "b.sdl", "a.sdl"]) ∧
      ∃ root own first middle, diamondAndCycle.locate ⟨"/main.sdl"⟩ "/main.sdl" none = .ok root ∧
        diamondAndCycle.readModule root = .ok own ∧
        ["a.sdl", "b.sdl", "a.sdl"] = (first :: middle ++ [first]).map diamondAndCycle.label ∧
        (ImportGraph.mk diamondAndCycle root own).Cycle first middle first ∧
        ¬ (ImportGraph.mk diamondAndCycle root own).Acyclic := by
  have wellFormed : diamondAndCycle.tree.WellFormed := ⟨by simp [diamondAndCycle, Place.Proper]⟩
  have fails : diamondAndCycle.closureOf ⟨"/main.sdl"⟩ =
      .error (.circularImport ["a.sdl", "b.sdl", "a.sdl"]) := by
    have report : (diamondAndCycle.closureOf ⟨"/main.sdl"⟩).map (fun _ => ()) =
        .error (.circularImport ["a.sdl", "b.sdl", "a.sdl"]) := by decide +kernel
    generalize diamondAndCycle.closureOf ⟨"/main.sdl"⟩ = outcome at report
    cases outcome with
    | ok => cases report
    | error => cases report; rfl
  exact ⟨wellFormed, fails, (circularImport_names_cycle _ wellFormed).1 _ _ fails⟩

end ImportContext

end SchemaLang
