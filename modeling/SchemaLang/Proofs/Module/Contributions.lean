import SchemaLang.Proofs.Module.Resolution

/-!
# The contributions of a closure

The tour of a module unfolds its imports completely: each import is followed by the tour of
its module, imports in the order of the text, whatever has been met before. A visit skips
what has contributed already, and it skips a whole subtour at once. Since everything that a
skipped contribution brings has contributed by then, the visit is the tour with all
repetitions left out: the contributions stand in the order in which a depth-first tour first
meets them, and none is lost.
-/

namespace SchemaLang

open List

namespace ImportGraph

/-- The complete unfolding of imports of the module at `path` in a scope: the contribution
of each import, then the unfolding of its module, then the further imports. -/
inductive Tour (graph : ImportGraph) :
    Path → Option String → List Import → List Contribution → Prop where
  | done {path scope?} : Tour graph path scope? [] []
  | next {path scope? item items target imported below after}
      (located : graph.context.locateImport path item = .ok target)
      (contents : graph.contents target = .ok imported)
      (inner : Tour graph target (ImportContext.importScope scope? item) (importsOf imported) below)
      (rest : Tour graph path scope? items after) :
      Tour graph path scope? (item :: items)
        ((target, ImportContext.importScope scope? item) :: below ++ after)

variable {graph : ImportGraph}

/-- Everything on a tour is brought by the module it starts from. -/
theorem Tour.brought {path : Path} {scope? : Option String} {items : List Import}
    {tour : List Contribution} {decls : List Declaration}
    (isTour : graph.Tour path scope? items tour)
    (contents : graph.contents path = .ok decls) (among : items ⊆ importsOf decls)
    {pair : Contribution} (member : pair ∈ tour) :
    Relation.ReflTransGen graph.Brings (path, scope?) pair := by
  induction isTour generalizing decls with
  | done => cases member
  | @next path scope? item items target imported below after located targetContents _ _
      innerHypothesis restHypothesis =>
    have brings : graph.Brings (path, scope?) (target, ImportContext.importScope scope? item) :=
      ⟨decls, contents, item, among mem_cons_self, located, rfl⟩
    rw [cons_append, mem_cons, mem_append] at member
    rcases member with rfl | inside | later
    · exact .single brings
    · exact .head brings (innerHypothesis targetContents (List.Subset.refl _) inside)
    · exact restHypothesis contents (subset_of_cons_subset among) later

/-- A resolvable module has a tour in every scope. -/
theorem Resolvable.tour {path : Path} {decls : List Declaration}
    (resolvable : graph.Resolvable path) (contents : graph.contents path = .ok decls)
    (scope? : Option String) : ∃ tour, graph.Tour path scope? (importsOf decls) tour := by
  induction resolvable generalizing decls scope? with
  | intro path others sameContents locates _ next ih =>
    obtain rfl : others = decls := Except.ok.inj (sameContents.symm.trans contents)
    have tours : ∀ items, items ⊆ importsOf others → ∃ tour, graph.Tour path scope? items tour := by
      intro items
      induction items with
      | nil => exact fun _ => ⟨[], .done⟩
      | cons item items itemsHypothesis =>
        intro among
        have member := among mem_cons_self
        obtain ⟨target, located⟩ := locates item member
        obtain ⟨after, rest⟩ := itemsHypothesis (subset_of_cons_subset among)
        cases next item member target located with
        | intro _ imported targetContents _ _ _ =>
          obtain ⟨below, inner⟩ := ih item member target located targetContents
            (ImportContext.importScope scope? item)
          exact ⟨_, .next located targetContents inner rest⟩
    exact tours (importsOf others) (List.Subset.refl _)

end ImportGraph

open ImportContext in
/-- A walk that succeeds adds the tour of its imports without repetitions. A skipped import
has its whole subtour among the contributions, so leaving the subtour out changes nothing. -/
theorem ImportContext.Walk.tour {graph : ImportGraph} {start : List Path}
    (wellFormed : graph.context.tree.WellFormed) {chain : List Path} {path : Path}
    {scope? : Option String} {items : List Import} {closure final : Closure}
    (walk : graph.context.Walk chain path scope? items closure (.ok final))
    (rootOn : graph.root ∈ chain) (accounts : closure.Accounts graph start)
    (settledOff : closure.SettledOff graph chain) :
    ∃ tour, graph.Tour path scope? items tour ∧
      final.visited = (closure.visited ++ tour).eraseDups := by
  generalize reached : Except.ok final = outcome at walk
  induction walk generalizing final with
  | done =>
    cases reached
    refine ⟨[], .done, ?_⟩
    rw [append_nil, Distinct.eraseDups_of_nodup accounts.distinct]
  | stopped | failed => cases reached
  | @skipped chain path scope? item items closure loaded outcome skip rest ih =>
    obtain ⟨target, imported, onward, visited, rfl⟩ := step_skip wellFormed accounts.faithful skip
    rw [accounts.skip wellFormed rootOn onward visited] at ih
    obtain ⟨after, isAfter, found⟩ := ih rootOn accounts settledOff reached
    have contents := onward.contents rootOn
    have settled := accounts.settled_of_skip wellFormed rootOn settledOff onward visited
    obtain ⟨below, isBelow⟩ := settled.resolvable.tour contents (importScope scope? item)
    refine ⟨_, .next onward.located contents isBelow isAfter, ?_⟩
    have known : (target, importScope scope? item) :: below ⊆ closure.visited := by
      intro pair member
      rcases mem_cons.mp member with rfl | inside
      · exact settled.brought _ .refl
      · exact settled.brought pair (isBelow.brought contents (List.Subset.refl _) inside)
    rw [Distinct.eraseDups_append_of_subset after known, found]
  | @entered chain path scope? item items closure target imported loaded inside outcome enter
      inner rest innerHypothesis restHypothesis =>
    obtain ⟨onward, unvisited, rfl⟩ := step_enter wellFormed accounts.faithful enter
    have opened := accounts.enter wellFormed rootOn onward unvisited
    have longerRoot : graph.root ∈ chain ++ [target] := mem_append_left _ rootOn
    have openedSettled := settledOff.enter target (importScope scope? item) imported
    have advances := inner.advances wellFormed longerRoot opened openedSettled
    obtain ⟨_, insideSettled⟩ := advances.leave (onward.contents rootOn) settledOff (by simp)
    obtain ⟨below, isBelow, first⟩ := innerHypothesis longerRoot opened openedSettled rfl
    obtain ⟨after, isAfter, second⟩ := restHypothesis rootOn
      (.walk wellFormed inner longerRoot opened) insideSettled reached
    refine ⟨_, .next onward.located (onward.contents rootOn) isBelow isAfter, ?_⟩
    rw [second, first, Distinct.eraseDups_eraseDups_append]
    simp

/-- What a closure holds of an import graph: the contributions in the order of the tour from
the root, each of them once, and their declarations one after the other. -/
structure Closure.Merges (closure : Closure) (graph : ImportGraph) : Prop where
  order : ∃ tour, graph.Tour graph.root none (importsOf graph.own) tour ∧
    closure.visited = ((graph.root, none) :: tour).eraseDups
  distinct : closure.visited.Nodup
  contributions : ∀ pair, pair ∈ closure.visited ↔ graph.Contributes pair
  readable : ∀ pair ∈ closure.visited, ∃ declarations, graph.contents pair.1 = .ok declarations
  declarations : closure.declarations = graph.declarationsOf closure.visited

/-- A walk from the root that succeeds merges the graph. -/
theorem ImportContext.Walk.merges {graph : ImportGraph} {start : List Path}
    (wellFormed : graph.context.tree.WellFormed) {closure final : Closure}
    (unvisited : closure.visited = [])
    (accounts : (closure.contribute graph.root none graph.own).Accounts graph start)
    (walk : graph.context.Walk [graph.root] graph.root none (importsOf graph.own)
      (closure.contribute graph.root none graph.own) (.ok final)) : final.Merges graph := by
  have settled := walk.settles_root wellFormed unvisited accounts
  have finalAccounts := accounts.walk wellFormed walk mem_cons_self
  obtain ⟨tour, isTour, visited⟩ := walk.tour wellFormed mem_cons_self accounts (.initial unvisited)
  rw [Closure.contribute_visited, unvisited, nil_append, singleton_append] at visited
  have contributions : ∀ pair, pair ∈ final.visited ↔ graph.Contributes pair := by
    refine fun pair => ⟨fun member => ?_, settled.brought pair⟩
    rw [visited, mem_eraseDups, mem_cons] at member
    rcases member with rfl | onTour
    · exact .refl
    · exact isTour.brought graph.contents_root (List.Subset.refl _) onTour
  refine ⟨⟨tour, isTour, visited⟩, finalAccounts.distinct, contributions, fun pair member => ?_,
    finalAccounts.declarations⟩
  have reachable := ((contributions pair).mp member).reachable
  obtain ⟨decls, contents, _⟩ := settled.resolvable.complete pair.1 reachable
  exact ⟨decls, contents⟩

/-- The modules of the contributions are the reachable ones. -/
theorem Closure.Merges.mem_paths_iff {closure : Closure} {graph : ImportGraph}
    (merges : closure.Merges graph) (path : Path) :
    path ∈ closure.visited.map Prod.fst ↔ graph.Reachable path := by
  constructor
  · intro member
    obtain ⟨pair, found, rfl⟩ := mem_map.mp member
    exact ((merges.contributions pair).mp found).reachable
  · intro reachable
    obtain ⟨scope?, contributes⟩ := reachable.contributes
    exact mem_map.mpr ⟨_, (merges.contributions _).mpr contributes, rfl⟩

/-- With a root that is a file, the files are those of the contributions. -/
theorem Closure.Accounts.modules_of_file {closure : Closure} {graph : ImportGraph}
    (accounts : closure.Accounts graph [graph.root]) :
    closure.modules = (closure.visited.map Prod.fst).eraseDups := by
  rw [accounts.modules, accounts.visited_eq]
  rfl

/-- With a root that is a text, the root and the files are those of the contributions. -/
theorem Closure.Accounts.modules_of_text {closure : Closure} {graph : ImportGraph}
    (accounts : closure.Accounts graph []) :
    graph.root :: closure.modules = (closure.visited.map Prod.fst).eraseDups := by
  have kept : (closure.visited.tail.map Prod.fst).filter (fun file => !file == graph.root) =
      closure.visited.tail.map Prod.fst := by
    refine filter_eq_self.mpr fun file member => ?_
    obtain ⟨pair, found, rfl⟩ := mem_map.mp member
    have differs : pair.1 ≠ graph.root := by
      intro same
      have away := (accounts.away pair found).2
      simp [same] at away
    simpa using differs
  rw [accounts.modules, nil_append]
  nth_rewrite 2 [accounts.visited_eq]
  rw [map_cons, eraseDups_cons, kept]

namespace ImportContext

/-- A closure was computed for the graph of a root, which is a file or a text. -/
inductive Resolved (context : ImportContext) : ImportGraph → Closure → Prop where
  | file {path root own closure} (located : context.locate path path.text none = .ok root)
      (readable : context.readModule root = .ok own)
      (done : context.closureOf path = .ok closure) :
      Resolved context ⟨context, root, own⟩ closure
  | text {text path own closure} (parsed : parse (context.label path) text = .ok own)
      (done : context.closureOfText text path = .ok closure) :
      Resolved context ⟨context, path, own⟩ closure

/-- A closure that was computed merges its graph. -/
theorem Resolved.merges {ctx : ImportContext} (wellFormed : ctx.tree.WellFormed)
    {graph : ImportGraph} {closure : Closure} (resolved : ctx.Resolved graph closure) :
    closure.Merges graph := by
  cases resolved with
  | @file path root own _ located readable done =>
    have resolves := resolves_closureOf wellFormed path
    rw [done] at resolves
    exact (resolves.walk located readable).merges wellFormed rfl
      (root_accounts wellFormed located readable)
  | @text text path own _ parsed done =>
    have resolves := resolvesText_closureOfText wellFormed text path
    rw [done] at resolves
    exact (resolves.walk parsed).merges wellFormed rfl (text_accounts ctx path own)

/-- The merged declarations lose and repeat nothing. A closure that could be computed has
the contributions of its import graph in the order of the tour from the root, each once,
with their declarations under their scopes and numbers, and the files it lists are the
modules of the contributions in that order, each once, which are exactly the reachable ones;
a root given as a text is no file. -/
theorem closure_merges_graph (context : ImportContext) (wellFormed : context.tree.WellFormed) :
    (∀ path closure, context.closureOf path = .ok closure →
      ∃ root own, context.locate path path.text none = .ok root ∧
        context.readModule root = .ok own ∧
        closure.Merges ⟨context, root, own⟩ ∧
        closure.modules = (closure.visited.map Prod.fst).eraseDups ∧
        closure.modules.Nodup ∧
        ∀ file, file ∈ closure.modules ↔ (ImportGraph.mk context root own).Reachable file) ∧
    (∀ text path closure, context.closureOfText text path = .ok closure →
      ∃ own, parse (context.label path) text = .ok own ∧
        closure.Merges ⟨context, path, own⟩ ∧
        path :: closure.modules = (closure.visited.map Prod.fst).eraseDups ∧
        closure.modules.Nodup ∧
        ∀ file, file ∈ closure.modules ↔
          file ≠ path ∧ (ImportGraph.mk context path own).Reachable file) := by
  constructor
  · intro path closure done
    have resolves := resolves_closureOf wellFormed path
    rw [done] at resolves
    cases resolves with
    | @walked root own _ located readable walk =>
      have accounts := root_accounts wellFormed located readable
      have merges := Resolved.merges wellFormed (.file located readable done)
      have modules := (accounts.walk wellFormed walk List.mem_cons_self).modules_of_file
      refine ⟨root, own, located, readable, merges, modules, ?_, fun file => ?_⟩
      · rw [modules]
        exact Distinct.nodup_eraseDups _
      · rw [modules, List.mem_eraseDups]
        exact merges.mem_paths_iff file
  · intro text path closure done
    have resolves := resolvesText_closureOfText wellFormed text path
    rw [done] at resolves
    cases resolves with
    | @walked own _ parsed walk =>
      have accounts := text_accounts context path own
      have merges := Resolved.merges wellFormed (.text parsed done)
      have modules := (accounts.walk wellFormed walk List.mem_cons_self).modules_of_text
      have distinct : (path :: closure.modules).Nodup := modules ▸ Distinct.nodup_eraseDups _
      refine ⟨own, parsed, merges, modules, (List.nodup_cons.mp distinct).2, fun file => ?_⟩
      have reached : file ∈ path :: closure.modules ↔
          (ImportGraph.mk context path own).Reachable file := by
        rw [modules, List.mem_eraseDups]
        exact merges.mem_paths_iff file
      rw [← reached, List.mem_cons]
      constructor
      · intro member
        exact ⟨fun same => (List.nodup_cons.mp distinct).1 (same ▸ member), .inr member⟩
      · rintro ⟨notPath, same | member⟩
        · exact absurd same notPath
        · exact member

/-- A module that is imported twice under the same alias, directly and through another that
is itself imported with and without an alias. -/
def diamondImports : ImportContext where
  tree := ⟨[
    (["a.sdl"], .file (.text
      "import \"./b\"\nimport \"./c\" as c\nimport \"./b\" as b\nentry A \x7b \x7d")),
    (["b.sdl"], .file (.text "import \"./c\" as c\ntype B \x7b \x7d")),
    (["c.sdl"], .file (.text "type C \x7b \x7d"))], []⟩
  root := ⟨"/"⟩
  entryFileName := "index.sdl"

/-- The diamond has five contributions and three files, and they are what its graph says. -/
theorem diamondImports_contributions :
    diamondImports.tree.WellFormed ∧ ∃ closure,
      diamondImports.closureOf ⟨"/a.sdl"⟩ = .ok closure ∧
      closure.visited = [(⟨"/a.sdl"⟩, none), (⟨"/b.sdl"⟩, none), (⟨"/c.sdl"⟩, some "c"),
        (⟨"/b.sdl"⟩, some "b"), (⟨"/c.sdl"⟩, some "b.c")] ∧
      ∃ root own, diamondImports.locate ⟨"/a.sdl"⟩ "/a.sdl" none = .ok root ∧
        diamondImports.readModule root = .ok own ∧
        closure.Merges ⟨diamondImports, root, own⟩ := by
  have wellFormed : diamondImports.tree.WellFormed := ⟨by simp [diamondImports, Place.Proper]⟩
  have visits : (diamondImports.closureOf ⟨"/a.sdl"⟩).toOption.map (·.visited) =
      some [(⟨"/a.sdl"⟩, none), (⟨"/b.sdl"⟩, none), (⟨"/c.sdl"⟩, some "c"),
        (⟨"/b.sdl"⟩, some "b"), (⟨"/c.sdl"⟩, some "b.c")] := by decide +kernel
  obtain ⟨closure, done, visited⟩ := Outcome.ok_of_view visits
  obtain ⟨root, own, located, readable, merges, _⟩ :=
    (closure_merges_graph diamondImports wellFormed).1 _ closure done
  exact ⟨wellFormed, closure, done, visited, root, own, located, readable, merges⟩

end ImportContext

end SchemaLang
