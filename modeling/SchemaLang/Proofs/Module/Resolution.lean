import SchemaLang.Proofs.Module.Visit

/-!
# Resolution of imports

Resolving a root locates it, reads it and follows its imports as deep as they go. `Resolves`
says this with no bound anywhere: a derivation is a resolution that ends. Over a well-formed
tree every resolution ends, with the outcome that the closure functions compute, and it
succeeds exactly when all modules of the import graph can be read, all their imports can be
located, and no chain of imports comes back. Aliases do not enter into this: they are no
part of the graph.
-/

namespace SchemaLang

open List Closure

variable {path : Path} {graph : ImportGraph}

namespace ImportContext

variable {ctx : ImportContext}

/-- Resolving the module at a path ends with an outcome. -/
inductive Resolves (context : ImportContext) (path : Path) : Except Error Closure → Prop where
  | unlocated {fault} (notFound : context.locate path path.text none = .error fault) :
      Resolves context path (.error fault)
  | unread {root fault} (located : context.locate path path.text none = .ok root)
      (unreadable : context.readModule root = .error fault) :
      Resolves context path (.error fault)
  | walked {root own outcome} (located : context.locate path path.text none = .ok root)
      (readable : context.readModule root = .ok own)
      (walk : context.Walk [root] root none (importsOf own)
        (contribute ⟨[(root, own)], [], []⟩ root none own) outcome) :
      Resolves context path outcome

/-- Resolving a text that stands for the module at a path ends with an outcome. -/
inductive ResolvesText (context : ImportContext) (text : String) (path : Path) :
    Except Error Closure → Prop where
  | unparsed {fault} (malformed : parse (context.label path) text = .error fault) :
      ResolvesText context text path (.error fault)
  | walked {own outcome} (parsed : parse (context.label path) text = .ok own)
      (walk : context.Walk [path] path none (importsOf own)
        (contribute {} path none own) outcome) :
      ResolvesText context text path outcome

variable {path : Path} {first second : Except Error Closure}

/-- A resolution has one outcome. -/
theorem Resolves.unique (resolves : ctx.Resolves path first)
    (other : ctx.Resolves path second) : first = second := by
  cases resolves with
  | unlocated _ | unread _ _ => cases other <;> simp_all
  | walked located readable walk =>
    cases other with
    | walked otherLocated otherReadable otherWalk =>
      obtain rfl := Except.ok.inj (located.symm.trans otherLocated)
      obtain rfl := Except.ok.inj (readable.symm.trans otherReadable)
      exact walk.unique otherWalk
    | _ => simp_all

/-- A resolution of a text has one outcome. -/
theorem ResolvesText.unique {text : String} (resolves : ctx.ResolvesText text path first)
    (other : ctx.ResolvesText text path second) : first = second := by
  cases resolves with
  | unparsed malformed => cases other <;> simp_all
  | walked parsed walk =>
    cases other with
    | unparsed otherMalformed => simp_all
    | walked otherParsed otherWalk =>
      obtain rfl := Except.ok.inj (parsed.symm.trans otherParsed)
      exact walk.unique otherWalk

variable {root : Path} {own : List Declaration}

/-- A root that was just read is all that is held of the tree. -/
theorem root_faithful (wellFormed : ctx.tree.WellFormed)
    (located : ctx.locate path path.text none = .ok root)
    (readable : ctx.readModule root = .ok own) :
    Closure.Faithful ⟨[(root, own)], [], []⟩ ctx := by
  intro entry member
  cases mem_singleton.mp member
  exact ⟨locate_isTrue wellFormed located, readable⟩

/-- The closure of a module is the outcome of its resolution. -/
theorem resolves_closureOf (wellFormed : ctx.tree.WellFormed) (path : Path) :
    ctx.Resolves path (ctx.closureOf path) := by
  unfold closureOf
  cases located : ctx.locate path path.text none with
  | error fault => exact .unlocated located
  | ok root =>
    have loaded : ctx.load {} root = (ctx.readModule root).map fun decls =>
        (decls, remember {} root decls) :=
      load_eq (by simp [Closure.Faithful]) (locate_isTrue wellFormed located)
    simp only [bind, Except.bind, loaded]
    cases readable : ctx.readModule root with
    | error fault => exact .unread located readable
    | ok own =>
      exact .walked located readable
        (walk_of_visit wellFormed (root_faithful wellFormed located readable) rfl)

/-- The closure of a text is the outcome of its resolution. -/
theorem resolvesText_closureOfText (wellFormed : ctx.tree.WellFormed) (text : String)
    (path : Path) : ctx.ResolvesText text path (ctx.closureOfText text path) := by
  unfold closureOfText
  cases parsed : parse (ctx.label path) text with
  | error fault => exact .unparsed parsed
  | ok own => exact .walked parsed (walk_of_visit wellFormed (by simp [Closure.Faithful]) rfl)

variable {decls : List Declaration}

/-- In a complete graph without cycles every import leads on, whatever chain led to it. -/
theorem onward_of_acyclic (complete : graph.Complete) (acyclic : graph.Acyclic)
    {chain : List Path} {item : Import} (rootOn : graph.root ∈ chain)
    (leads : ∀ other ∈ chain, graph.Reachable other ∧ Relation.ReflTransGen graph.Edge other path)
    (contents : graph.contents path = .ok decls) (member : item ∈ importsOf decls) :
    ∃ target imported, graph.Edge path target ∧
      graph.context.Onward chain path item target imported := by
  have reachable : graph.Reachable path := (leads graph.root rootOn).2
  obtain ⟨others, sameContents, located⟩ := complete path reachable
  obtain rfl : decls = others := Except.ok.inj (contents.symm.trans sameContents)
  obtain ⟨target, found⟩ := located item member
  have edge : graph.Edge path target := ⟨decls, contents, item, member, found⟩
  have fresh : ∀ other ∈ chain, other.alike target = false := fun other onChain =>
    acyclic other target (leads other onChain).1
      (Relation.TransGen.tail' (leads other onChain).2 edge)
  have away : target.alike graph.root = false := by
    rw [Path.alike_comm]
    exact fresh graph.root rootOn
  obtain ⟨imported, readable, _⟩ := complete target (reachable.tail edge)
  rw [graph.contents_of_away away] at readable
  exact ⟨target, imported, edge, found, fresh, readable⟩

variable {outcome : Except Error Closure}

/-- In a complete graph without cycles every walk succeeds. -/
theorem Walk.succeeds (wellFormed : graph.context.tree.WellFormed) (complete : graph.Complete)
    (acyclic : graph.Acyclic) {chain : List Path} {scope? : Option String} {items : List Import}
    {closure : Closure} (walk : graph.context.Walk chain path scope? items closure outcome)
    (faithful : closure.Faithful graph.context) (rootOn : graph.root ∈ chain)
    (leads : ∀ other ∈ chain, graph.Reachable other ∧ Relation.ReflTransGen graph.Edge other path)
    (contents : graph.contents path = .ok decls) (among : items ⊆ importsOf decls) :
    ∃ final, outcome = .ok final := by
  have leadsOn : ∀ {chain path target}, graph.root ∈ chain →
      (∀ other ∈ chain, graph.Reachable other ∧ Relation.ReflTransGen graph.Edge other path) →
      graph.Edge path target → ∀ other ∈ chain ++ [target],
        graph.Reachable other ∧ Relation.ReflTransGen graph.Edge other target := by
    intro chain path target rootOn leads edge other member
    rcases mem_append.mp member with old | new
    · exact ⟨(leads other old).1, (leads other old).2.tail edge⟩
    · cases mem_singleton.mp new
      exact ⟨(leads graph.root rootOn).2.tail edge, .refl⟩
  induction walk generalizing decls with
  | done => exact ⟨_, rfl⟩
  | stopped stop =>
    obtain ⟨target, imported, _, onward⟩ := onward_of_acyclic complete acyclic rootOn leads
      contents (among mem_cons_self)
    rw [onward.step_eq wellFormed faithful] at stop
    split at stop <;> cases stop
  | skipped skip _ ih =>
    obtain ⟨_, _, onward, _, rfl⟩ := step_skip wellFormed faithful skip
    exact ih (onward.remember_faithful wellFormed faithful) rootOn leads contents
      (subset_of_cons_subset among)
  | failed enter _ innerHypothesis =>
    obtain ⟨onward, _, rfl⟩ := step_enter wellFormed faithful enter
    have edge : graph.Edge _ _ := ⟨_, contents, _, among mem_cons_self, onward.located⟩
    obtain ⟨_, impossible⟩ := innerHypothesis (onward.remember_faithful wellFormed faithful)
      (mem_append_left _ rootOn) (leadsOn rootOn leads edge) (onward.contents rootOn)
      (List.Subset.refl _)
    cases impossible
  | entered enter inner _ _ restHypothesis =>
    obtain ⟨onward, _, rfl⟩ := step_enter wellFormed faithful enter
    have inside := inner.faithful wellFormed (onward.remember_faithful wellFormed faithful)
    exact restHypothesis inside rootOn leads contents (subset_of_cons_subset among)

/-- The walk from a root succeeds exactly when the graph is complete and has no cycle. -/
theorem walk_ok_iff (wellFormed : graph.context.tree.WellFormed) {start : List Path}
    {closure : Closure} (unvisited : closure.visited = [])
    (accounts : (closure.contribute graph.root none graph.own).Accounts graph start)
    (walk : graph.context.Walk [graph.root] graph.root none (importsOf graph.own)
      (closure.contribute graph.root none graph.own) outcome) :
    (∃ final, outcome = .ok final) ↔ graph.Complete ∧ graph.Acyclic := by
  constructor
  · rintro ⟨final, rfl⟩
    have settled := walk.settles_root wellFormed unvisited accounts
    exact ⟨settled.resolvable.complete, settled.resolvable.acyclic wellFormed⟩
  · rintro ⟨complete, acyclic⟩
    refine walk.succeeds wellFormed complete acyclic accounts.faithful mem_cons_self ?_
      graph.contents_root (List.Subset.refl _)
    intro other member
    rw [mem_singleton.mp member]
    exact ⟨.refl, .refl⟩

/-- Once the root is located and read, a resolution is the walk over its imports. -/
theorem Resolves.walk (resolves : ctx.Resolves path outcome)
    (located : ctx.locate path path.text none = .ok root)
    (readable : ctx.readModule root = .ok own) :
    ctx.Walk [root] root none (importsOf own)
      (contribute ⟨[(root, own)], [], []⟩ root none own) outcome := by
  cases resolves with
  | unlocated notFound => cases notFound.symm.trans located
  | unread otherLocated unreadable =>
    obtain rfl := Except.ok.inj (otherLocated.symm.trans located)
    cases unreadable.symm.trans readable
  | walked otherLocated otherReadable walk =>
    obtain rfl := Except.ok.inj (otherLocated.symm.trans located)
    obtain rfl := Except.ok.inj (otherReadable.symm.trans readable)
    exact walk

/-- Once a text is parsed, its resolution is the walk over its imports. -/
theorem ResolvesText.walk {text : String} (resolves : ctx.ResolvesText text path outcome)
    (parsed : parse (ctx.label path) text = .ok own) :
    ctx.Walk [path] path none (importsOf own) (contribute {} path none own)
      outcome := by
  cases resolves with
  | unparsed malformed => cases malformed.symm.trans parsed
  | walked otherParsed walk =>
    obtain rfl := Except.ok.inj (otherParsed.symm.trans parsed)
    exact walk

/-- The account of a root that was just read. -/
theorem root_accounts (wellFormed : ctx.tree.WellFormed)
    (located : ctx.locate path path.text none = .ok root)
    (readable : ctx.readModule root = .ok own) :
    (contribute ⟨[(root, own)], [], []⟩ root none own).Accounts ⟨ctx, root, own⟩
      [root] :=
  .initial (root_faithful wellFormed located readable) rfl rfl
    (by simp [modules, eraseDups_cons])

/-- The account of a root that is a text. -/
theorem text_accounts (ctx : ImportContext) (path : Path) (own : List Declaration) :
    (contribute {} path none own).Accounts ⟨ctx, path, own⟩ [] :=
  .initial (by simp [Closure.Faithful]) rfl rfl rfl

/-- Resolution always ends, and it succeeds exactly when the import graph is complete and
has no cycle. The closure functions compute the outcome of the resolution without bounds,
for a root in a file and for a root given as a text. -/
theorem resolution_ends_and_detects_cycles (context : ImportContext)
    (wellFormed : context.tree.WellFormed) :
    (∀ path,
      (∀ outcome, context.Resolves path outcome ↔ context.closureOf path = outcome) ∧
      ((∃ closure, context.closureOf path = .ok closure) ↔
        ∃ root own, context.locate path path.text none = .ok root ∧
          context.readModule root = .ok own ∧
          (ImportGraph.mk context root own).Complete ∧
          (ImportGraph.mk context root own).Acyclic)) ∧
    (∀ text path,
      (∀ outcome,
        context.ResolvesText text path outcome ↔ context.closureOfText text path = outcome) ∧
      ((∃ closure, context.closureOfText text path = .ok closure) ↔
        ∃ own, parse (context.label path) text = .ok own ∧
          (ImportGraph.mk context path own).Complete ∧
          (ImportGraph.mk context path own).Acyclic)) := by
  refine ⟨fun path => ?_, fun text path => ?_⟩
  · have resolves := resolves_closureOf wellFormed path
    refine ⟨fun outcome => ⟨resolves.unique, fun same => same ▸ resolves⟩, ?_, ?_⟩
    · rintro ⟨closure, done⟩
      rw [done] at resolves
      cases resolves with
      | walked located readable walk =>
        exact ⟨_, _, located, readable, (walk_ok_iff wellFormed rfl
          (root_accounts wellFormed located readable) walk).mp ⟨closure, rfl⟩⟩
    · rintro ⟨root, own, located, readable, holds⟩
      exact (walk_ok_iff wellFormed rfl (root_accounts wellFormed located readable)
        (resolves.walk located readable)).mpr holds
  · have resolves := resolvesText_closureOfText wellFormed text path
    refine ⟨fun outcome => ⟨resolves.unique, fun same => same ▸ resolves⟩, ?_, ?_⟩
    · rintro ⟨closure, done⟩
      rw [done] at resolves
      cases resolves with
      | walked parsed walk =>
        exact ⟨_, parsed, (walk_ok_iff wellFormed rfl (text_accounts context path _) walk).mp
          ⟨closure, rfl⟩⟩
    · rintro ⟨own, parsed, holds⟩
      exact (walk_ok_iff wellFormed rfl (text_accounts context path own)
        (resolves.walk parsed)).mpr holds

/-- Two modules that import each other, one of them under an alias. -/
def mutualImports : ImportContext where
  tree := ⟨[(["a.sdl"], .file (.text "import \"./b\" as b")),
    (["b.sdl"], .file (.text "import \"./a\""))], []⟩
  root := ⟨"/"⟩
  entryFileName := "index.sdl"

/-- The alias on a cycle does not hide it: the resolution ends and fails, so the graph is not
both complete and without cycles. -/
theorem mutualImports_cycle :
    mutualImports.tree.WellFormed ∧
      ¬ ∃ root own, mutualImports.locate ⟨"/a.sdl"⟩ "/a.sdl" none = .ok root ∧
        mutualImports.readModule root = .ok own ∧
        (ImportGraph.mk mutualImports root own).Complete ∧
        (ImportGraph.mk mutualImports root own).Acyclic := by
  have wellFormed : mutualImports.tree.WellFormed := ⟨by simp [mutualImports, Place.Proper]⟩
  refine ⟨wellFormed, fun holds => ?_⟩
  obtain ⟨closure, done⟩ :=
    ((resolution_ends_and_detects_cycles mutualImports wellFormed).1 ⟨"/a.sdl"⟩).2.mpr holds
  have fails : (mutualImports.closureOf ⟨"/a.sdl"⟩).toOption.isNone = true := by decide +kernel
  rw [done] at fails
  cases fails

end ImportContext

end SchemaLang
