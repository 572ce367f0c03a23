import SchemaLang.Declaration.Grammar
import SchemaLang.Module.Scope

/-!
# Import closures

The closure of a module is the module itself and all it imports, directly or through
others. Modules are visited depth first, and each file is read once. A module
contributes its declarations once for each scope it is imported into, so the same
module may contribute several times under different aliases.

A chain of imports that comes back to a module on the chain is an error. A chain
that does not come back has at most as many modules as there are files, and one more
for a module that is no file; that bounds the depth of the visit.
-/

namespace SchemaLang

/-- Where imports are looked up. -/
structure ImportContext where
  tree : FileTree
  /-- Where paths with the root marker start. -/
  root : Path
  /-- The file that stands for a directory. -/
  entryFileName : String

/-- What has been visited so far. -/
structure Closure where
  /-- The files that were read with their declarations, in that order. -/
  loaded : List (Path × List Declaration) := []
  /-- The modules that have contributed, with the scopes they did so in. -/
  visited : List (Path × Option String) := []
  /-- All contributions one after the other. -/
  declarations : List ScopedDeclaration := []

namespace Closure

/-- The files that were read. -/
def modules (closure : Closure) : List Path := closure.loaded.map (·.1)

/-- Whether a module has contributed to a scope. -/
def hasVisited (closure : Closure) (path : Path) (scope? : Option String) : Bool :=
  closure.visited.any fun (other, otherScope?) => other.alike path && otherScope? = scope?

/-- Add the contribution of a module to a scope. -/
def contribute (closure : Closure) (path : Path) (scope? : Option String)
    (declarations : List Declaration) : Closure :=
  let unit := closure.visited.length
  let own := declarations.filter fun declaration => declaration.import?.isNone
  { closure with
    visited := closure.visited ++ [(path, scope?)]
    declarations := closure.declarations ++ own.map fun declaration => ⟨scope?, unit, declaration⟩ }

end Closure

namespace ImportContext

/-- The context for a project root, by its true path if it has one. -/
def make (tree : FileTree) (root : Path) (entryFileName : String) : ImportContext :=
  ⟨tree, (tree.canonical root).toOption.getD root, entryFileName⟩

/-- The extension of source files. -/
def sourceExtension : String := "sdl"

/-- The start of an import path that is relative to the root. -/
def rootMarker : String := "@/"

/-- How messages name a module: its path from the root, if it lies below it. -/
def label (context : ImportContext) (path : Path) : String :=
  ((context.root.relativeTo? path).getD path).text

/-- The path to try for a candidate: a directory stands for its entry file, and a
missing path without an extension gets the one of sources. -/
def completed (context : ImportContext) (candidate : Path) : Path :=
  if context.tree.isDirectory candidate then candidate.join ⟨context.entryFileName⟩
  else if !context.tree.holds candidate && candidate.extension?.isNone then
    candidate.withExtension sourceExtension
  else candidate

/-- The true path of a candidate. -/
def locate (context : ImportContext) (candidate : Path) (requested : String)
    (location? : Option Location) : Except Error Path :=
  match context.tree.canonical (context.completed candidate) with
  | .ok path => .ok path
  | .error fault => .error (.moduleNotFound requested fault location?)

/-- The text after a marker at the start, if the text starts with it. -/
def afterMarker? (marker text : String) : Option String :=
  if marker.toList.isPrefixOf text.toList then
    some (String.ofList (text.toList.drop marker.length))
  else none

/-- The path that an import names, before it is completed. -/
def candidate (context : ImportContext) (importer : Path) (path : String) : Path :=
  match afterMarker? rootMarker path with
  | some rest => context.root.join ⟨rest⟩
  | none => (importer.parent?.getD context.root).join ⟨path⟩

/-- The true path of an import. -/
def locateImport (context : ImportContext) (importer : Path) (item : Import) :
    Except Error Path :=
  context.locate (context.candidate importer item.path) item.path (some item.location)

/-- The declarations of a file, which is read unless it has been read before. -/
def load (context : ImportContext) (closure : Closure) (path : Path) :
    Except Error (List Declaration × Closure) :=
  match closure.loaded.find? fun (other, _) => other.alike path with
  | some (_, declarations) => .ok (declarations, closure)
  | none =>
    match context.tree.read path with
    | .error fault => .error (.moduleNotFound (context.label path) fault none)
    | .ok text => do
      let declarations ← parse (context.label path) text
      return (declarations, { closure with loaded := closure.loaded ++ [(path, declarations)] })

/-- The chain from the module that an import comes back to, with that module at both
ends. -/
def cycle (context : ImportContext) (chain : List Path) (target : Path) : List String :=
  (chain.dropWhile fun path => !path.alike target).map context.label ++ [context.label target]

/-- The scope of an import: its alias inside the scope of the importer. Without an
alias the declarations go to no scope at all. -/
def importScope (scope? : Option String) (item : Import) : Option String :=
  item.alias?.map (qualify scope?)

/-- Visit a module in a scope, and then what it imports. `chain` holds the modules
from the first to the importer. -/
def visit (context : ImportContext) :
    Nat → List Path → Path → Option String → List Declaration → Closure → Except Error Closure
  | 0, chain, path, _, _, _ => .error (.circularImport ((chain ++ [path]).map context.label))
  | depth + 1, chain, path, scope?, declarations, closure =>
    if closure.hasVisited path scope? then .ok closure
    else
      let chain := chain ++ [path]
      let visitImport (closure : Closure) (item : Import) : Except Error Closure := do
        let target ← context.locateImport path item
        if chain.any fun other => other.alike target then
          .error (.circularImport (context.cycle chain target))
        else
          let (imported, closure) ← context.load closure target
          visit context depth chain target (importScope scope? item) imported closure
      (declarations.filterMap Declaration.import?).foldlM visitImport
        (closure.contribute path scope? declarations)

/-- How long a chain of imports can get. -/
def depthLimit (context : ImportContext) : Nat := context.tree.nodes.length + 2

/-- The closure of the module at a path. -/
def closureOf (context : ImportContext) (path : Path) : Except Error Closure := do
  let path ← context.locate path path.text none
  let (declarations, closure) ← context.load {} path
  context.visit context.depthLimit [] path none declarations closure

/-- The closure of a text that stands for the module at a path. -/
def closureOfText (context : ImportContext) (text : String) (path : Path) :
    Except Error Closure := do
  let declarations ← parse (context.label path) text
  context.visit context.depthLimit [] path none declarations {}

end ImportContext

end SchemaLang
