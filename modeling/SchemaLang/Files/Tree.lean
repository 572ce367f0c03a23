import SchemaLang.Files.Path

/-!
# File trees

A file tree is a finite set of directories and files, together with the working
directory from which relative paths start. A place is the list of names from the
root; the root itself is always a directory. Directories have one place each, and
which places are names of one file is said where files are kept.

Walking a path checks each step: it starts from a directory, the name is not too
long, and something stands there. `resolve` walks a whole path; reading and making
directories build on it. Each fails as the system would.
-/

namespace SchemaLang

/-- Why an operation on files fails. -/
inductive FileFault where
  | noSuchEntry
  | alreadyExists
  | notADirectory
  | isADirectory
  | nameTooLong
  | zeroInName
  | notText
  | noSpace
deriving DecidableEq, Repr

/-- The words of the system for a fault. -/
def FileFault.message : FileFault → String
  | noSuchEntry => "No such file or directory (os error 2)"
  | alreadyExists => "File exists (os error 17)"
  | notADirectory => "Not a directory (os error 20)"
  | isADirectory => "Is a directory (os error 21)"
  | nameTooLong => "File name too long (os error 36)"
  | zeroInName => "file name contained an unexpected NUL byte"
  | notText => "stream did not contain valid UTF-8"
  | noSpace => "No space left on device (os error 28)"

/-- What a file holds: text, or bytes that are no text. -/
inductive FileContent where
  | text (text : String)
  | bytes (bytes : List UInt8)
deriving DecidableEq, Repr

/-- What stands at a place. -/
inductive FileNode where
  | directory
  | file (content : FileContent)
deriving DecidableEq, Repr

/-- The names from the root. -/
abbrev Place := List String

/-- The path that spells a place. -/
def Path.ofPlace (place : Place) : Path := ⟨"/" ++ "/".intercalate place⟩

/-- Directories and files by place, and the place where relative paths start. -/
structure FileTree where
  nodes : List (Place × FileNode)
  workingDirectory : Place
deriving DecidableEq, Repr

namespace FileTree

/-- What stands at a place. -/
def node? (tree : FileTree) (place : Place) : Option FileNode :=
  if place = [] then some .directory else tree.nodes.lookup place

/-- The longest name, in bytes. -/
def nameLimit : Nat := 255

/-- The longest path, in bytes. -/
def pathLimit : Nat := 4095

/-- The names a walk goes through: the pieces between slashes that are not
empty. -/
def steps (path : Path) : List String :=
  (Path.pieces 0 path.text.toList).filterMap fun (_, piece) =>
    if piece.isEmpty then none else some (String.ofList piece)

/-- Whether a directory is meant, since the path ends in a slash. -/
def endsInSlash (path : Path) : Bool := path.text.toList.getLast? == some '/'

/-- One step of a walk. -/
def step (tree : FileTree) (place : Place) (name : String) : Except FileFault Place :=
  if tree.node? place != some .directory then .error .notADirectory
  else if name = "." then .ok place
  else if name = ".." then .ok place.dropLast
  else if nameLimit < name.utf8ByteSize then .error .nameTooLong
  else match tree.node? (place ++ [name]) with
    | some _ => .ok (place ++ [name])
    | none => .error .noSuchEntry

/-- Where a walk starts. -/
def start (tree : FileTree) (path : Path) : Place :=
  if path.isAbsolute then [] else tree.workingDirectory

/-- What is wrong with the text of a path before any walk. -/
def textFault? (path : Path) : Option FileFault :=
  if path.text.toList.any (·.toNat == 0) then some .zeroInName
  else if path.text.isEmpty then some .noSuchEntry
  else if pathLimit < path.text.utf8ByteSize then some .nameTooLong
  else none

/-- The place a path leads to. -/
def resolve (tree : FileTree) (path : Path) : Except FileFault Place :=
  match textFault? path with
  | some fault => .error fault
  | none => do
    let place ← (steps path).foldlM tree.step (tree.start path)
    if endsInSlash path && tree.node? place != some .directory then .error .notADirectory
    else return place

/-- The one true path of what a path leads to. -/
def canonical (tree : FileTree) (path : Path) : Except FileFault Path :=
  (tree.resolve path).map Path.ofPlace

/-- What a path leads to, if it leads to anything. -/
def find? (tree : FileTree) (path : Path) : Option FileNode :=
  match tree.resolve path with
  | .ok place => tree.node? place
  | .error _ => none

/-- Whether a path leads to a directory. -/
def isDirectory (tree : FileTree) (path : Path) : Bool := tree.find? path == some .directory

/-- Whether a path leads to anything. -/
def holds (tree : FileTree) (path : Path) : Bool := (tree.find? path).isSome

/-- The text of the file a path leads to. -/
def read (tree : FileTree) (path : Path) : Except FileFault String := do
  let place ← tree.resolve path
  match tree.node? place with
  | some (.file (.text text)) => return text
  | some (.file (.bytes _)) => .error .notText
  | some .directory => .error .isADirectory
  | none => .error .noSuchEntry

/-- The place of an entry to be made: the directory it goes into and its name. A
path that ends in a point, two points or at the root names a directory that is
there already. -/
def target (tree : FileTree) (path : Path) : Except FileFault (Place × Option String) :=
  match textFault? path with
  | some fault => .error fault
  | none => do
    let names := steps path
    let directory ← names.dropLast.foldlM tree.step (tree.start path)
    if tree.node? directory != some .directory then .error .notADirectory
    else match names.getLast? with
      | none => return (directory, none)
      | some name =>
        if name = "." || name = ".." then return (directory, none)
        else if nameLimit < name.utf8ByteSize then .error .nameTooLong
        else return (directory, some name)

/-- Set the node at a place. -/
def put (tree : FileTree) (place : Place) (node : FileNode) : FileTree :=
  if tree.nodes.any (·.1 == place) then
    { tree with
      nodes := tree.nodes.map fun entry => if entry.1 == place then (place, node) else entry }
  else { tree with nodes := tree.nodes ++ [(place, node)] }

/-- Make one directory. -/
def makeDirectory (tree : FileTree) (path : Path) : Except FileFault FileTree := do
  match ← tree.target path with
  | (_, none) => .error .alreadyExists
  | (directory, some name) =>
    if (tree.node? (directory ++ [name])).isSome then .error .alreadyExists
    else return tree.put (directory ++ [name]) .directory

/-- Make one directory unless there is one already. -/
def ensureDirectory (tree : FileTree) (path : Path) : FileTree × Option FileFault :=
  match tree.makeDirectory path with
  | .ok made => (made, none)
  | .error fault => (tree, if tree.isDirectory path then none else some fault)

/-- Make a directory and those above it that are missing; what was made before a
fault stays. The first argument bounds how many are missing. -/
def makeDirectoriesUpTo : Nat → FileTree → Path → FileTree × Option FileFault
  | 0, tree, _ => (tree, some .noSuchEntry)
  | fuel + 1, tree, path =>
    if path.text.isEmpty then (tree, none)
    else match tree.makeDirectory path with
      | .error .noSuchEntry => match path.parent? with
        | none => (tree, some .noSuchEntry)
        | some parent => match makeDirectoriesUpTo fuel tree parent with
          | (above, some fault) => (above, some fault)
          | (above, none) => above.ensureDirectory path
      | _ => tree.ensureDirectory path

/-- Make a directory and those above it that are missing. A path has no more
directories above it than characters. -/
def makeDirectories (tree : FileTree) (path : Path) : FileTree × Option FileFault :=
  makeDirectoriesUpTo (path.text.length + 1) tree path

end FileTree

end SchemaLang
