import SchemaLang.Bindings.Generate
import SchemaLang.Compilation.Settings
import SchemaLang.JsonSchema.Document
import SchemaLang.Module.Closure
import SchemaLang.Registry.Build

/-!
# Compilation

From a module to everything that is made of it: the registry of its closure, the
schema document, and the bindings that the settings ask for. Nothing is written
here.
-/

namespace SchemaLang

/-- What a compilation makes. -/
structure Compilation where
  registry : Registry
  schema : Json
  bindings : List (Target × String)
  /-- The files that were read. -/
  modules : List Path

namespace Compilation

/-- What is made of a closure. -/
def ofClosure (settings : Settings) (closure : Closure) : Except Error Compilation := do
  let registry ← Registry.build closure.declarations
  let schema ← JsonSchema.ofRegistry registry
  let bindings ← Target.generateAll settings.targets registry
  return ⟨registry, schema, bindings, closure.modules⟩

/-- The directory that a module's path starts from: the path itself if it is a
directory, or else the directory it lies in. -/
def baseOf (tree : FileTree) (path : Path) : Path :=
  if tree.isDirectory path then path
  else
    match path.parent? with
    | some parent => if parent.text = "" then ⟨"."⟩ else parent
    | none => ⟨"."⟩

/-- Compile the module at a path. -/
def ofFile (tree : FileTree) (settings : Settings) (path : Path) : Except Error Compilation := do
  let root := settings.projectRoot?.getD (baseOf tree path)
  let context := ImportContext.make tree root settings.entryFileName
  ofClosure settings (← context.closureOf path)

/-- The name of a module that is a text only. -/
def textModule : Path := ⟨"<input>.sdl"⟩

/-- Compile a text. Its imports start from the project root, or else from the working
directory. -/
def ofText (tree : FileTree) (settings : Settings) (text : String) :
    Except Error Compilation := do
  let root := settings.projectRoot?.getD ⟨"."⟩
  let base := (tree.canonical root).toOption.getD root
  let context := ImportContext.make tree root settings.entryFileName
  ofClosure settings (← context.closureOfText text (base.join textModule))

end Compilation

end SchemaLang
