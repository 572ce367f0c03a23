import SchemaLang.CommandLine.Arguments
import SchemaLang.Files.Path

/-!
# Commands

What a command line asks for. There are four commands; each has its own options and
operands, and a switch for more messages that may stand before or after the name of
the command. A command line that does not fit is no command at all.
-/

namespace SchemaLang.CommandLine

/-- The options of a compilation. -/
structure CompileOptions where
  source : Path
  output? : Option Path := none
  targets : List String := []
  outputDirectory? : Option Path := none
  root? : Option Path := none
  baseline? : Option Path := none
  settings? : Option Path := none
deriving DecidableEq, Repr

/-- A command. -/
inductive Command where
  | compile (options : CompileOptions)
  | check (source : Path) (root? : Option Path)
  | inspect (source : Path) (root? : Option Path)
  | validate (schema document : Path)
deriving DecidableEq, Repr

/-- The switch for more messages. -/
def verboseShape : OptionShape :=
  { name := "verbose", letter? := some 'v', takesValue := false }

/-- The option for the project root. -/
def rootShape : OptionShape := { name := "root" }

/-- What `compile` knows. -/
def compileShapes : List OptionShape :=
  [verboseShape, rootShape,
    { name := "output", letter? := some 'o' },
    { name := "target", letter? := some 't', repeatable := true },
    { name := "out-dir" },
    { name := "baseline" },
    { name := "watch", takesValue := false },
    { name := "config" }]

/-- What `check` and `inspect` know. -/
def sourceShapes : List OptionShape := [verboseShape, rootShape]

/-- What `validate` knows. -/
def validateShapes : List OptionShape :=
  [verboseShape, { name := "schema", letter? := some 's' },
    { name := "instance", letter? := some 'i' }]

/-- The path that a text names; no path is empty. -/
def path? (text : String) : Option Path := if text = "" then none else some ⟨text⟩

/-- The path that an option gives, if the option is there. None if it is there with an
empty value. -/
def optionPath (arguments : List Argument) (name : String) : Option (Option Path) :=
  match values arguments name with
  | [] => some none
  | value :: _ => (path? value).map some

/-- The words after a command, sorted, if no option is given too often. -/
def sorted (shapes : List OptionShape) (words : List String) : Option (List Argument) := do
  let arguments ← sort shapes words
  if isModest shapes arguments then some arguments else none

/-- The only operand, as a path. -/
def onlyOperand (arguments : List Argument) : Option Path :=
  match operands arguments with
  | [text] => path? text
  | _ => none

/-- The command of a name and the words after it. -/
def Command.ofWords (name : String) (words : List String) : Option Command :=
  match name with
  | "compile" => do
    let arguments ← sorted compileShapes words
    return .compile {
      source := ← onlyOperand arguments
      output? := ← optionPath arguments "output"
      targets := values arguments "target"
      outputDirectory? := ← optionPath arguments "out-dir"
      root? := ← optionPath arguments "root"
      baseline? := ← optionPath arguments "baseline"
      settings? := ← optionPath arguments "config" }
  | "check" => do
    let arguments ← sorted sourceShapes words
    return .check (← onlyOperand arguments) (← optionPath arguments "root")
  | "inspect" => do
    let arguments ← sorted sourceShapes words
    return .inspect (← onlyOperand arguments) (← optionPath arguments "root")
  | "validate" => do
    let arguments ← sorted validateShapes words
    if !(operands arguments).isEmpty then none
    else
      match values arguments "schema", values arguments "instance" with
      | [schema], [document] => return .validate (← path? schema) (← path? document)
      | _, _ => none
  | _ => none

/-- The command of a command line. Before the name only the switch for more messages
may stand, once. -/
def Command.ofLine : List String → Option Command
  | [] => none
  | word :: words =>
    if word = "-v" ∨ word = "--verbose" then
      match words with
      | [] => none
      | name :: words => if looksLikeOption name then none else ofWords name words
    else if looksLikeOption word then none
    else ofWords word words

end SchemaLang.CommandLine
