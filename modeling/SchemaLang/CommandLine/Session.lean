import SchemaLang.Baseline
import SchemaLang.CommandLine.Command
import SchemaLang.Compilation.Compile
import SchemaLang.Files.Storage
import SchemaLang.JsonSchema.Violation
import SchemaLang.Registry.Inspection

/-!
# Sessions

Running a command over a file tree. A run leaves a tree, lines for the reader and
notes beside them, and a status. When something fails the run stops there: what it
has written and said before stays.
-/

namespace SchemaLang.CommandLine

/-- What a run has done so far. -/
structure Session where
  tree : FileTree
  output : List String := []
  notes : List String := []

/-- A step of a run. -/
abbrev Run (α : Type) := ExceptT Error (StateM Session) α

/-- What a run leaves. -/
structure Outcome where
  status : Nat
  output : List String
  notes : List String
  failure? : Option Error
  tree : FileTree

namespace Run

/-- Say a line to the reader. -/
def say (line : String) : Run Unit :=
  modify fun session => { session with output := session.output ++ [line] }

/-- Say a line beside the output. -/
def note (line : String) : Run Unit :=
  modify fun session => { session with notes := session.notes ++ [line] }

/-- A step that looks at the tree only. -/
def look {α : Type} (step : FileTree → Except Error α) : Run α := do
  liftExcept (step (← get).tree)

/-- A step that changes the tree as far as it gets. -/
def advance (step : FileTree → FileTree × Option FileFault) : Run Unit := do
  let session ← get
  let (tree, fault?) := step session.tree
  set { session with tree := tree }
  match fault? with
  | none => pure ()
  | some fault => throw (.file fault)

/-- The text of a file. -/
def readFile (path : Path) : Run String :=
  look fun tree => (tree.read path).mapError .file

end Run

open Run

/-- The settings of a run: those of the file, with the root of the command line
before its own. -/
def loadSettings (settings? root? : Option Path) : Run Settings := do
  let settings ←
    match settings? with
    | some path => look fun tree => Settings.load tree path
    | none => pure {}
  match root? with
  | some root => return { settings with projectRoot? := some root }
  | none => return settings

/-- Add the targets that a user names to those there already. -/
def addTargets (targets : List Target) : List String → Except Error (List Target)
  | [] => .ok targets
  | name :: names =>
    match Target.named name with
    | .error error => .error error
    | .ok target =>
      addTargets (if targets.contains target then targets else targets ++ [target]) names

/-- The ending of schema files. -/
def schemaSuffix : String := ".schema.json"

/-- Where the schema of a source goes unless the user says so. -/
def defaultOutput (tree : FileTree) (source : Path) : Path :=
  let directory := if tree.isDirectory source then source else source.parent?.getD ⟨""⟩
  directory.join ⟨source.stem?.getD "schema" ++ schemaSuffix⟩

/-- A name without the ending of schema files, if something remains. -/
def withoutSchemaSuffix? (name : String) : Option String :=
  if schemaSuffix.toList.isSuffixOf name.toList then
    let stem := String.ofList (name.toList.take (name.length - schemaSuffix.length))
    if stem = "" then none else some stem
  else none

/-- The name of binding files beside a schema file, without the extension. -/
def bindingsStem (output : Path) : String :=
  (withoutSchemaSuffix? (output.fileName?.getD "")).getD (output.stem?.getD "schema")

/-- Say how a schema differs from the baseline in a file. -/
def reportBaseline (schema : Json) (path : Path) : Run Unit := do
  let text ← readFile path
  match Json.read text with
  | .error fault => throw (.configuration path.text (.json fault))
  | .ok baseline =>
    let report := BaselineReport.compare schema baseline
    report.added.forM fun name => note s!"baseline: added field {name}"
    report.removed.forM fun name => note s!"baseline: removed field {name}"
    report.changed.forM fun name => note s!"baseline: changed field {name}"

/-- Write the bindings for one target. -/
def writeBindings (storage : Storage) (directory : Path) (stem : String) (target : Target)
    (text : String) : Run Unit := do
  let path := directory.join ⟨stem ++ "." ++ target.extension⟩
  advance fun tree => storage.write tree path text
  say s!"Generated {target.name} bindings → {path.text}"

/-- Write all that is made of a module: the schema, and the bindings in their directory. -/
def writeArtifacts (storage : Storage) (source output directory : Path)
    (compilation : Compilation) : Run Unit := do
  advance fun tree => storage.write tree output compilation.schema.indented
  say s!"Compiled {source.text} → {output.text}"
  if !compilation.bindings.isEmpty then
    advance fun tree => tree.makeDirectories directory
  compilation.bindings.forM fun (target, text) =>
    writeBindings storage directory (bindingsStem output) target text

/-- Compile a module, and then write all that is made of it. -/
def runCompile (storage : Storage) (options : CompileOptions) : Run Unit := do
  let settings ← loadSettings options.settings? options.root?
  let targets ← liftExcept (addTargets settings.targets options.targets)
  let settings := { settings with targets := targets }
  let output := options.output?.getD (defaultOutput (← get).tree options.source)
  let directory := options.outputDirectory?.getD (output.parent?.getD ⟨""⟩)
  let compilation ← look fun tree => Compilation.ofFile tree settings options.source
  match options.baseline? with
  | some path => reportBaseline compilation.schema path
  | none => pure ()
  writeArtifacts storage options.source output directory compilation

/-- Compile a module and write nothing. -/
def runSource (source : Path) (root? : Option Path) : Run Compilation := do
  let settings ← loadSettings none root?
  look fun tree => Compilation.ofFile tree settings source

/-- Run a command; the answer is its status. -/
def runCommand (storage : Storage) : Command → Run Nat
  | .compile options => do
    runCompile storage options
    return 0
  | .check source root? => do
    let _ ← runSource source root?
    return 0
  | .inspect source root? => do
    say (← runSource source root?).registry.json.indented
    return 0
  | .validate schema document => do
    let schema ← readFile schema
    let document ← readFile document
    match ← liftExcept (JsonSchema.validateText schema document) with
    | [] =>
      say "valid"
      return 0
    | violations =>
      violations.forM fun violation => say violation.display
      return 1

/-- The status of a command line that is no command. -/
def badUsage : Nat := 2

/-- Run a command over a tree whose files are kept in a storage. -/
def runOn (storage : Storage) (tree : FileTree) (command : Command) : Outcome :=
  match (runCommand storage command).run.run { tree := tree } with
  | (.ok status, session) => ⟨status, session.output, session.notes, none, session.tree⟩
  | (.error error, session) => ⟨1, session.output, session.notes, some error, session.tree⟩

/-- Run a command over a tree in which every file has one name and takes all that is written to
it. -/
def run (tree : FileTree) (command : Command) : Outcome := runOn {} tree command

end SchemaLang.CommandLine
