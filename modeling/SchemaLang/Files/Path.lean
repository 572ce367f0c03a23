/-!
# Paths

A path is text, and is shown as it was given. It is read as components: slashes
separate them, repeated slashes count as one, and a lone point means nothing
except at the start of a relative path. Two paths are alike when their
components are the same.

Operations that cut a path (`parent?`, `withExtension`, `relativeTo?`) cut the
text at the boundary of a component and leave the rest of it as written.
-/

namespace SchemaLang

/-- A path, as written. -/
structure Path where
  text : String
deriving DecidableEq, Repr

/-- What stands between the slashes of a path. -/
inductive PathComponent where
  | root
  | here
  | up
  | name (text : String)
deriving DecidableEq, Repr

/-- A component with the stretch of the text it takes. -/
structure PathPart where
  component : PathComponent
  start : Nat
  stop : Nat
deriving DecidableEq, Repr

namespace Path

/-- The pieces of a text between slashes, empty ones included, each with the
offset where it starts. -/
def pieces (offset : Nat) : List Char → List (Nat × List Char)
  | [] => [(offset, [])]
  | c :: rest =>
    if c = '/' then (offset, []) :: pieces (offset + 1) rest
    else match pieces (offset + 1) rest with
      | [] => [(offset, [c])]
      | (_, piece) :: others => (offset, c :: piece) :: others

/-- The part a piece makes, if it makes one. A lone point counts only where
`first` holds. -/
def partOfPiece (first : Bool) (start : Nat) (piece : List Char) : Option PathPart :=
  let part (component : PathComponent) : Option PathPart :=
    some ⟨component, start, start + piece.length⟩
  if piece.isEmpty then none
  else if piece = ['.'] then (if first then part .here else none)
  else if piece = ['.', '.'] then part .up
  else part (.name (String.ofList piece))

/-- Whether the path starts at the root. -/
def isAbsolute (path : Path) : Bool := path.text.toList.head? == some '/'

/-- The parts of a path, in order. -/
def parts (path : Path) : List PathPart :=
  match pieces 0 path.text.toList with
  | [] => []
  | (start, piece) :: rest =>
    let others := rest.filterMap fun (start, piece) => partOfPiece false start piece
    if path.isAbsolute then ⟨.root, 0, 1⟩ :: others
    else (partOfPiece true start piece).toList ++ others

/-- The components of a path, in order. -/
def components (path : Path) : List PathComponent := path.parts.map (·.component)

/-- Whether two paths have the same components. -/
def alike (a b : Path) : Bool := a.components == b.components

/-- The stretch of the text between two offsets. -/
def slice (path : Path) (start stop : Nat) : Path :=
  ⟨String.ofList ((path.text.toList.take stop).drop start)⟩

/-- The path without its last component. The root and the empty path have none. -/
def parent? (path : Path) : Option Path :=
  match path.parts.reverse with
  | [] => none
  | last :: before =>
    if last.component = .root then none
    else match before with
      | [] => some ⟨""⟩
      | previous :: _ => some (path.slice 0 previous.stop)

/-- The part that names the file, when the last component is a name. -/
def filePart? (path : Path) : Option (PathPart × String) :=
  match path.parts.getLast? with
  | some part => match part.component with
    | .name text => some (part, text)
    | _ => none
  | none => none

/-- The last component, when it is a name. -/
def fileName? (path : Path) : Option String := path.filePart?.map (·.2)

/-- A name cut at its last point: the stem and what follows. A point at the start
is part of the stem. -/
def splitName (name : List Char) : List Char × Option (List Char) :=
  let after := (name.reverse.takeWhile (· ≠ '.')).reverse
  let stem := name.take (name.length - after.length - 1)
  if after.length = name.length || stem.isEmpty then (name, none) else (stem, some after)

/-- The file name without its extension. -/
def stem? (path : Path) : Option String :=
  path.fileName?.map fun name => String.ofList (splitName name.toList).1

/-- What follows the last point of the file name. -/
def extension? (path : Path) : Option String :=
  path.fileName?.bind fun name => (splitName name.toList).2.map String.ofList

/-- The path with its extension set. Whatever follows the stem is replaced; a path
without file name stays as it is. -/
def withExtension (path : Path) (extension : String) : Path :=
  match path.filePart? with
  | none => path
  | some (part, name) =>
    let stop := part.start + (splitName name.toList).1.length
    ⟨(path.slice 0 stop).text ++ "." ++ extension⟩

/-- One path after another. An absolute second path stands for itself. -/
def join (base path : Path) : Path :=
  if path.isAbsolute then path
  else if base.text.isEmpty || base.text.toList.getLast? == some '/' then ⟨base.text ++ path.text⟩
  else ⟨base.text ++ "/" ++ path.text⟩

/-- The rest of a path after a base whose components it starts with. -/
def relativeTo? (base path : Path) : Option Path :=
  if base.components.isPrefixOf path.components then
    let rest := path.parts.drop base.parts.length
    match rest.head?, rest.getLast? with
    | some first, some last => some (path.slice first.start last.stop)
    | _, _ => some ⟨""⟩
  else none

end Path

end SchemaLang
