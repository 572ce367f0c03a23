import SchemaLang.CommandLine.Demand

/-!
# The command line

Reading files, printing lines and writing files back. Files are read as the command
asks for them; all else happens on the tree.
-/

namespace SchemaLang.CommandLine

/-- What the system has at a place. A directory is told by the refusal to read it. -/
def probe (place : Place) : IO (Option FileNode) := do
  try
    let bytes ← IO.FS.readBinFile (Path.ofPlace place).text
    match String.fromUTF8? bytes with
    | some text => return some (.file (.text text))
    | none => return some (.file (.bytes bytes.toList))
  catch
    | .inappropriateType .. => return some .directory
    | _ => return none

/-- Look at every place that the command asks for, until it asks for no more. -/
partial def gather (tree : FileTree) (known : List Place) (command : Command) : IO FileTree := do
  match openPlaces tree known command with
  | [] => return tree
  | places =>
    let mut tree := tree
    for place in places do
      if let some node ← probe place then
        tree := tree.put place node
    gather tree (known ++ places) command

/-- Write what a run has made or changed. -/
def store (old new : FileTree) : IO Unit := do
  for (place, node) in new.nodes do
    if old.node? place ≠ some node then
      match node with
      | .directory => IO.FS.createDir (Path.ofPlace place).text
      | .file (.text text) => IO.FS.writeFile (Path.ofPlace place).text text
      | .file (.bytes _) => pure ()

/-- The working directory with the directories above it. -/
def startingTree : IO FileTree := do
  let path : Path := ⟨(← IO.currentDir).toString⟩
  let place := FileTree.steps path
  let nodes := (List.range place.length).map fun count =>
    (place.take (count + 1), FileNode.directory)
  return ⟨nodes, place⟩

/-- Run a command on the files of the system. -/
def runHere (command : Command) : IO UInt32 := do
  let start ← startingTree
  let tree ← gather start (start.nodes.map (·.1)) command
  let outcome := run tree command
  store tree outcome.tree
  for line in outcome.output do
    IO.println line
  for line in outcome.notes do
    IO.eprintln line
  if let some error := outcome.failure? then
    IO.eprintln s!"error: {error.message}"
  return outcome.status.toUInt32

/-- How the command line is used. -/
def usage : String :=
  "usage: bsdl compile SOURCE [-o FILE] [-t TARGET]... [--out-dir DIR] [--root DIR] " ++
    "[--baseline FILE] [--config FILE]\n" ++
    "       bsdl check SOURCE [--root DIR]\n" ++
    "       bsdl inspect SOURCE [--root DIR]\n" ++
    "       bsdl validate -s FILE -i FILE"

end SchemaLang.CommandLine

open SchemaLang.CommandLine in
/-- Run the command line. -/
def main (words : List String) : IO UInt32 := do
  match Command.ofLine words with
  | some command => runHere command
  | none =>
    IO.eprintln usage
    return badUsage.toUInt32
