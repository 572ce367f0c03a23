/-!
# Arguments

The words of a command line, sorted by what they are: switches, options with their
values, and operands. A value follows its option as the next word, or is attached to
it, after an equals sign or, for a letter, directly. Letters of switches may stand
together. Two hyphens end the options. Words that look like options are never
values.
-/

namespace SchemaLang.CommandLine

/-- An option or a switch that a command knows. -/
structure OptionShape where
  name : String
  letter? : Option Char := none
  takesValue : Bool := true
  repeatable : Bool := false
deriving DecidableEq, Repr

/-- A sorted argument. -/
inductive Argument where
  | switch (name : String)
  | option (name value : String)
  | operand (text : String)
deriving DecidableEq, Repr

/-- What one word is by itself. -/
inductive Word where
  | unknown
  | complete (arguments : List Argument)
  /-- An option, after some switches, whose value is the next word. -/
  | needsValue (switches : List Argument) (name : String)
deriving DecidableEq, Repr

/-- Whether a word looks like an option. A lone hyphen does not. -/
def looksLikeOption (word : String) : Bool :=
  match word.toList with
  | '-' :: _ :: _ => true
  | _ => false

/-- What a word after two hyphens is. -/
def longWord (shapes : List OptionShape) (chars : List Char) : Word :=
  let name := String.ofList (chars.takeWhile (· ≠ '='))
  let attached := chars.dropWhile (· ≠ '=')
  match shapes.find? fun shape => shape.name = name with
  | none => .unknown
  | some shape =>
    match shape.takesValue, attached with
    | true, [] => .needsValue [] name
    | true, _ :: value => .complete [.option name (String.ofList value)]
    | false, [] => .complete [.switch name]
    | false, _ :: _ => .unknown

/-- What the letters after one hyphen are. -/
def shortWord (shapes : List OptionShape) (switches : List Argument) : List Char → Word
  | [] => .complete switches
  | letter :: rest =>
    match shapes.find? fun shape => shape.letter? = some letter with
    | none => .unknown
    | some shape =>
      if shape.takesValue then
        match rest with
        | [] => .needsValue switches shape.name
        | '=' :: value => .complete (switches ++ [.option shape.name (String.ofList value)])
        | value => .complete (switches ++ [.option shape.name (String.ofList value)])
      else shortWord shapes (switches ++ [.switch shape.name]) rest

/-- What a word is. -/
def word (shapes : List OptionShape) (text : String) : Word :=
  match text.toList with
  | '-' :: '-' :: chars => longWord shapes chars
  | '-' :: letter :: letters => shortWord shapes [] (letter :: letters)
  | _ => .complete [.operand text]

/-- Sort the words after a command. None if one is unknown or lacks its value. -/
def sort (shapes : List OptionShape) : List String → Option (List Argument)
  | [] => some []
  | text :: rest =>
    if text = "--" then some (rest.map .operand)
    else
      match word shapes text with
      | .unknown => none
      | .complete arguments => (sort shapes rest).map (arguments ++ ·)
      | .needsValue switches name =>
        match rest with
        | [] => none
        | value :: rest =>
          if looksLikeOption value then none
          else (sort shapes rest).map (switches ++ .option name value :: ·)

/-- The operands among arguments. -/
def operands (arguments : List Argument) : List String :=
  arguments.filterMap fun argument =>
    match argument with
    | .operand text => some text
    | _ => none

/-- The values of an option among arguments. -/
def values (arguments : List Argument) (name : String) : List String :=
  arguments.filterMap fun argument =>
    match argument with
    | .option other value => if other = name then some value else none
    | _ => none

/-- How often a switch stands among arguments. -/
def switchCount (arguments : List Argument) (name : String) : Nat :=
  arguments.countP fun argument => argument = .switch name

/-- Whether no option is given more often than it may be. -/
def isModest (shapes : List OptionShape) (arguments : List Argument) : Bool :=
  shapes.all fun shape =>
    shape.repeatable ||
      ((values arguments shape.name).length ≤ 1 && switchCount arguments shape.name ≤ 1)

end SchemaLang.CommandLine
