import SchemaLang.Error

/-!
# Settings

What a compilation can be told: where the project starts, which bindings to make,
and which file stands for a directory. Settings are read from a JSON file, either an
object, whose members may be left out but not be unknown or repeated, or an array
with the values in order.
-/

namespace SchemaLang

/-- The file that stands for a directory unless settings name another. -/
def defaultEntryFile : String := "index.sdl"

/-- What a compilation is told. -/
structure Settings where
  projectRoot? : Option Path := none
  targets : List Target := []
  entryFileName : String := defaultEntryFile
deriving DecidableEq, Repr

namespace Settings

/-- The parts of settings. -/
inductive Part where
  | projectRoot
  | targets
  | entryFileName
deriving DecidableEq, Repr

/-- The name of a part in a file. -/
def Part.name : Part → String
  | .projectRoot => "project_root"
  | .targets => "targets"
  | .entryFileName => "entry_file_name"

/-- The parts in their order. -/
def parts : List Part := [.projectRoot, .targets, .entryFileName]

/-- The target that a value names: its name, or an object with that name and nothing
in it. -/
def target (value : Json) : Except SettingsFault Target :=
  let named (name : String) : Except SettingsFault Target :=
    match [Target.rust, Target.typeScript].find? fun target => target.name = name with
    | some target => .ok target
    | none => .error .unknownTarget
  match value with
  | .string name => named name
  | .object [(name, .null)] => named name
  | _ => .error .unknownTarget

/-- Set a part to a value. -/
def setPart (settings : Settings) (part : Part) (value : Json) : Except SettingsFault Settings :=
  match part, value with
  | .projectRoot, .null => .ok { settings with projectRoot? := none }
  | .projectRoot, .string text => .ok { settings with projectRoot? := some ⟨text⟩ }
  | .targets, .array items =>
    (items.mapM target).map fun targets => { settings with targets := targets }
  | .entryFileName, .string text => .ok { settings with entryFileName := text }
  | part, _ => .error (.wrongType part.name)

/-- Set the parts that members name, each at most once. -/
def ofMembers (settings : Settings) (earlier : List Part) :
    List (String × Json) → Except SettingsFault Settings
  | [] => .ok settings
  | (name, value) :: members =>
    match parts.find? fun part => part.name = name with
    | none => .error (.unknownField name)
    | some part =>
      if earlier.contains part then .error (.repeatedField name)
      else
        match settings.setPart part value with
        | .error fault => .error fault
        | .ok settings => ofMembers settings (part :: earlier) members

/-- Set the parts in order to values. -/
def ofItems (settings : Settings) : List Part → List Json → Except SettingsFault Settings
  | _, [] => .ok settings
  | [], _ :: _ => .error .tooManyFields
  | part :: parts, value :: values =>
    match settings.setPart part value with
    | .error fault => .error fault
    | .ok settings => ofItems settings parts values

/-- The settings that a text holds. -/
def read (text : String) : Except SettingsFault Settings :=
  match Json.readMembers text with
  | .error fault => .error (.json fault)
  | .ok (.object members) => ofMembers {} [] members
  | .ok (.array items) => ofItems {} parts items
  | .ok _ => .error (.wrongType "settings")

/-- The settings in the file at a path. -/
def load (tree : FileTree) (path : Path) : Except Error Settings :=
  match tree.read path with
  | .error fault => .error (.file fault)
  | .ok text =>
    match read text with
    | .ok settings => .ok settings
    | .error fault => .error (.configuration path.text fault)

end Settings

end SchemaLang
