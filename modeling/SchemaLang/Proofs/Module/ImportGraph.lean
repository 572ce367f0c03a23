import Mathlib.Logic.Relation
import SchemaLang.Module.Closure
import SchemaLang.Proofs.Files.Canonical

/-!
# The graph of imports

Looking up imports and reading files are functions of the context, so the modules that a
root imports, directly or through others, form a graph over paths that is there before
anything is visited. An edge leads from a module to each path that one of its imports is
located at. The root is given with its declarations, since it may be a text that is no
file.

A graph can be resolved when every module in it can be read and has all its imports
located, and when no chain of imports comes back to a path that is like one on the chain.
`Resolvable` says the same by induction: a module is resolvable when its imports are.
Scopes are carried along the edges, so a module has one contribution for each scope that
some chain of imports gives it.
-/

namespace SchemaLang

/-- The imports among declarations, in the order of the text. -/
def importsOf (declarations : List Declaration) : List Import :=
  declarations.filterMap Declaration.import?

/-- A path that spells a proper place. All located paths of a well-formed tree do. -/
def Path.IsTrue (path : Path) : Prop := ∃ place, Place.Proper place ∧ path = Path.ofPlace place

/-- True paths that are alike are the same. -/
theorem Path.IsTrue.eq_of_alike {path other : Path} (isTrue : path.IsTrue)
    (otherTrue : other.IsTrue) (same : path.alike other = true) : path = other := by
  obtain ⟨place, proper, rfl⟩ := isTrue
  obtain ⟨otherPlace, otherProper, rfl⟩ := otherTrue
  rw [Path.eq_of_alike proper otherProper same]

variable {path : Path}

theorem Path.IsTrue.alike_iff {other : Path} (isTrue : path.IsTrue)
    (otherTrue : other.IsTrue) : path.alike other = true ↔ path = other := by
  constructor
  · exact isTrue.eq_of_alike otherTrue
  · rintro rfl
    exact path.alike_refl

variable {context ctx : ImportContext}

namespace ImportContext

/-- The declarations of the file at a path. -/
def readModule (context : ImportContext) (path : Path) : Except Error (List Declaration) :=
  match context.tree.read path with
  | .error fault => .error (.moduleNotFound (context.label path) fault none)
  | .ok text => parse (context.label path) text

/-- Whatever is located has a true path. -/
theorem locate_isTrue (wellFormed : ctx.tree.WellFormed) {candidate : Path} {requested : String}
    {location? : Option Location}
    (located : ctx.locate candidate requested location? = .ok path) : path.IsTrue := by
  unfold locate at located
  split at located
  · rename_i found resolved
    cases located
    obtain ⟨place, reached, rfl⟩ := Outcome.map_ok_iff.mp resolved
    exact ⟨place, FileTree.resolve_proper wellFormed reached, rfl⟩
  · cases located

/-- The path that an import is located at is a true one. -/
theorem locateImport_isTrue (wellFormed : ctx.tree.WellFormed) {importer : Path} {item : Import}
    (located : ctx.locateImport importer item = .ok path) : path.IsTrue :=
  locate_isTrue wellFormed located

/-- A module that can be read lies at a place of the tree. -/
theorem node_of_readModule {decls : List Declaration} (isTrue : path.IsTrue)
    (readable : ctx.readModule path = .ok decls) :
    ∃ place ∈ ctx.tree.nodes.map Prod.fst, path = Path.ofPlace place := by
  obtain ⟨place, proper, rfl⟩ := isTrue
  unfold readModule at readable
  split at readable
  · cases readable
  · rename_i text content
    exact ⟨place, FileTree.node_of_read proper content, rfl⟩

end ImportContext

/-- A root module, given by its path and its declarations, and where its imports are
looked up. -/
structure ImportGraph where
  context : ImportContext
  root : Path
  own : List Declaration

namespace ImportGraph

variable (graph : ImportGraph)

/-- The declarations of a module. A path like that of the root means the root itself. -/
def contents (path : Path) : Except Error (List Declaration) :=
  if path.alike graph.root then .ok graph.own else graph.context.readModule path

/-- The first module has an import that is located at the second. -/
def Edge (importer target : Path) : Prop :=
  ∃ declarations, graph.contents importer = .ok declarations ∧
    ∃ item ∈ importsOf declarations, graph.context.locateImport importer item = .ok target

/-- A chain of imports leads from the root to the module. -/
def Reachable (path : Path) : Prop := Relation.ReflTransGen graph.Edge graph.root path

/-- Every module of the graph can be read, and all its imports can be located. -/
def Complete : Prop :=
  ∀ path, graph.Reachable path → ∃ declarations, graph.contents path = .ok declarations ∧
    ∀ item ∈ importsOf declarations, ∃ target, graph.context.locateImport path item = .ok target

/-- No chain of imports comes back to where it started. -/
def Acyclic : Prop :=
  ∀ path target, graph.Reachable path → Relation.TransGen graph.Edge path target →
    path.alike target = false

/-- A module in a scope. -/
abbrev Contribution := Path × Option String

/-- One contribution brings another: the module of the first has an import of the module
of the second, and the import leads to its scope. -/
def Brings (importer target : Contribution) : Prop :=
  ∃ declarations, graph.contents importer.1 = .ok declarations ∧
    ∃ item ∈ importsOf declarations,
      graph.context.locateImport importer.1 item = .ok target.1 ∧
        ImportContext.importScope importer.2 item = target.2

/-- Some chain of imports from the root gives the module that scope. -/
def Contributes (pair : Contribution) : Prop :=
  Relation.ReflTransGen graph.Brings (graph.root, none) pair

/-- The contents of the root are its own declarations. -/
theorem contents_root : graph.contents graph.root = .ok graph.own := by
  simp [contents]

/-- Away from the root, the contents are those of the file. -/
theorem contents_of_away (away : path.alike graph.root = false) :
    graph.contents path = graph.context.readModule path := by
  simp [contents, away]

/-- A contribution brings contributions of the modules that its own module imports. -/
theorem Brings.edge {graph : ImportGraph} {importer target : Contribution}
    (brings : graph.Brings importer target) : graph.Edge importer.1 target.1 := by
  obtain ⟨decls, contents, item, member, located, _⟩ := brings
  exact ⟨decls, contents, item, member, located⟩

/-- Contributions are those of reachable modules. -/
theorem Contributes.reachable {graph : ImportGraph} {pair : Contribution}
    (contributes : graph.Contributes pair) : graph.Reachable pair.1 := by
  induction contributes with
  | refl => exact Relation.ReflTransGen.refl
  | tail _ brings ih => exact ih.tail brings.edge

/-- Every reachable module contributes in some scope. -/
theorem Reachable.contributes {graph : ImportGraph} {path : Path}
    (reachable : graph.Reachable path) : ∃ scope?, graph.Contributes (path, scope?) := by
  induction reachable with
  | refl => exact ⟨none, Relation.ReflTransGen.refl⟩
  | @tail importer target _ edge ih =>
    obtain ⟨scope?, contributes⟩ := ih
    obtain ⟨decls, contents, item, member, located⟩ := edge
    exact ⟨ImportContext.importScope scope? item,
      contributes.tail ⟨decls, contents, item, member, located, rfl⟩⟩

/-- A module is resolvable when it can be read, its imports are located away from the
root, and the modules they are located at are resolvable. -/
inductive Resolvable : Path → Prop where
  | intro (path : Path) (declarations : List Declaration)
      (contents : graph.contents path = .ok declarations)
      (located : ∀ item ∈ importsOf declarations,
        ∃ target, graph.context.locateImport path item = .ok target)
      (away : ∀ item ∈ importsOf declarations, ∀ target,
        graph.context.locateImport path item = .ok target → target.alike graph.root = false)
      (next : ∀ item ∈ importsOf declarations, ∀ target,
        graph.context.locateImport path item = .ok target → Resolvable target) :
      Resolvable path

namespace Resolvable

variable {graph} {target : Path}

/-- What a resolvable module imports is resolvable and lies away from the root. -/
theorem edge {path : Path} (resolvable : graph.Resolvable path) (edge : graph.Edge path target) :
    graph.Resolvable target ∧ target.alike graph.root = false := by
  cases resolvable with
  | intro _ decls contents _ away next =>
    obtain ⟨others, sameContents, item, member, located⟩ := edge
    obtain rfl : decls = others := Except.ok.inj (contents.symm.trans sameContents)
    exact ⟨next item member target located, away item member target located⟩

/-- Everything that chains of imports lead to from a resolvable module is resolvable. -/
theorem reach (resolvable : graph.Resolvable path)
    (reaches : Relation.ReflTransGen graph.Edge path target) : graph.Resolvable target := by
  induction reaches with
  | refl => exact resolvable
  | tail _ edge ih => exact (ih.edge edge).1

/-- No chain of imports leads from a resolvable module back to the same path. The
induction descends along the chain: its second module would be on the same cycle. -/
theorem irreflexive (resolvable : graph.Resolvable path) :
    ¬ Relation.TransGen graph.Edge path path := by
  induction resolvable with
  | intro path decls contents _ _ _ ih =>
    intro cycle
    obtain ⟨second, first, rest⟩ := Relation.TransGen.head'_iff.mp cycle
    have returns := Relation.TransGen.tail' rest first
    obtain ⟨others, sameContents, item, member, located⟩ := first
    obtain rfl : decls = others := Except.ok.inj (contents.symm.trans sameContents)
    exact ih item member second located returns

/-- A resolvable root has a complete graph. -/
theorem complete (resolvable : graph.Resolvable graph.root) : graph.Complete := by
  intro path reachable
  cases resolvable.reach reachable with
  | intro _ decls contents located _ _ => exact ⟨decls, contents, located⟩

/-- A resolvable root has an acyclic graph. A chain from the root ends away from it; any
other chain starts and ends at true paths, so coming back means ending at the same one. -/
theorem acyclic (wellFormed : graph.context.tree.WellFormed)
    (resolvable : graph.Resolvable graph.root) : graph.Acyclic := by
  intro path target reachable cycle
  have isTrue : ∀ {first last : Path}, Relation.TransGen graph.Edge first last → last.IsTrue := by
    intro first last chain
    obtain ⟨_, _, _, _, _, _, located⟩ := Relation.TransGen.tail'_iff.mp chain
    exact ImportContext.locateImport_isTrue wellFormed located
  rcases Relation.reflTransGen_iff_eq_or_transGen.mp reachable with rfl | chain
  · obtain ⟨before, reaches, last⟩ := Relation.TransGen.tail'_iff.mp cycle
    rw [Path.alike_comm]
    exact ((resolvable.reach reaches).edge last).2
  · by_contra back
    have same : path = target := (isTrue chain).eq_of_alike (isTrue cycle) (by simpa using back)
    exact (resolvable.reach reachable).irreflexive (same ▸ cycle)

end Resolvable

end ImportGraph

end SchemaLang
