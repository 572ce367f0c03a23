import SchemaLang.Files.Tree

/-!
# Where files are kept

A file tree says what stands at each place. Two things about its files show only when they are
written to. A file may have several names: what is written under one of them stands under all.
And a file may take no more than some number of bytes. Both are said by a storage, beside the
tree.

To write a text is to open a file, which makes it if there is none and empties it if there is
one, and then to put the text into it. The first step fails before anything has changed. When the
second fails the file keeps what it took until then.
-/

namespace SchemaLang

/-- The bytes of a text. -/
def FileContent.bytesOf (text : String) : List UInt8 := text.toUTF8.data.toList

/-- The content that bytes make. -/
def FileContent.ofBytes (bytes : List UInt8) : FileContent :=
  match String.fromUTF8? ⟨bytes.toArray⟩ with
  | some decoded => .text decoded
  | none => .bytes bytes

/-- What is known of files beside what they hold: their further names, each with the name of the
file that it stands for, and how many bytes they take, where that is bounded. -/
structure Storage where
  links : List (Place × Place) := []
  room : List (Place × Nat) := []
deriving DecidableEq, Repr

namespace Storage

/-- The name that stands for the file with a name. -/
def home (storage : Storage) (name : Place) : Place := (storage.links.lookup name).getD name

/-- All names of the file with a name. -/
def names (storage : Storage) (name : Place) : List Place :=
  (storage.home name :: storage.links.map (·.1)).filter (storage.home · == storage.home name)

/-- Give the file with a name a content. It stands under all its names, except where a directory
does. -/
def fill (storage : Storage) (tree : FileTree) (name : Place) (content : FileContent) : FileTree :=
  ((storage.names name).filter (tree.node? · != some .directory)).foldl
    (fun tree place => tree.put place (.file content)) tree

/-- Open the file at a path to write to it, and say its name. It is empty then. -/
def create (storage : Storage) (tree : FileTree) (path : Path) :
    Except FileFault (FileTree × Place) := do
  match ← tree.target path with
  | (_, none) => .error .isADirectory
  | (directory, some name) =>
    if FileTree.endsInSlash path then .error .isADirectory
    else if tree.node? (directory ++ [name]) == some .directory then .error .isADirectory
    else return (storage.fill tree (directory ++ [name]) (.text ""), directory ++ [name])

/-- How much of a text the file with a name takes, if it does not take all of it. -/
def taken? (storage : Storage) (name : Place) (text : String) : Option Nat :=
  (storage.room.lookup (storage.home name)).filter (· < (FileContent.bytesOf text).length)

/-- Put a text into an open file, as far as it takes it. -/
def writeAll (storage : Storage) (tree : FileTree) (name : Place) (text : String) :
    FileTree × Option FileFault :=
  match storage.taken? name text with
  | none => (storage.fill tree name (.text text), none)
  | some count =>
    let beginning := (FileContent.bytesOf text).take count
    (storage.fill tree name (.ofBytes beginning), some .noSpace)

/-- Write a text to the file at a path. -/
def write (storage : Storage) (tree : FileTree) (path : Path) (text : String) :
    FileTree × Option FileFault :=
  match storage.create tree path with
  | .error fault => (tree, some fault)
  | .ok (opened, name) => storage.writeAll opened name text

end Storage

end SchemaLang
