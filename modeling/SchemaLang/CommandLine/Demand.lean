import SchemaLang.CommandLine.Session

/-!
# Demands

Which paths a command may look at, as far as the files known so far tell. A tree
that holds everything there is at these paths, and from which no further demands
arise, gives a command the same answers as the whole system of files.
-/

namespace SchemaLang.CommandLine

/-- A candidate for a module and what it may be completed to. -/
def completions (context : ImportContext) (candidate : Path) : List Path :=
  [candidate, candidate.join ⟨context.entryFileName⟩,
    candidate.withExtension ImportContext.sourceExtension]

/-- The candidates for the imports of a file. -/
def importDemands (context : ImportContext) (place : Place) (text : String) : List Path :=
  let path := Path.ofPlace place
  match parse path.text text with
  | .error _ => []
  | .ok declarations =>
    (declarations.filterMap Declaration.import?).flatMap fun item =>
      completions context (context.candidate path item.path)

/-- The paths that a compilation may look at. -/
def sourceDemands (tree : FileTree) (settings : Settings) (source : Path) : List Path :=
  let root := settings.projectRoot?.getD (Compilation.baseOf tree source)
  let context := ImportContext.make tree root settings.entryFileName
  let imports := tree.nodes.flatMap fun (place, node) =>
    match node with
    | .file (.text text) => importDemands context place text
    | _ => []
  root :: completions context source ++ imports

/-- The paths that a command may look at. -/
def demands (tree : FileTree) : Command → List Path
  | .compile options =>
    let settings? := options.settings?.bind fun path => (Settings.load tree path).toOption
    let settings := settings?.getD {}
    let settings := { settings with projectRoot? := options.root? <|> settings.projectRoot? }
    let output := options.output?.getD (defaultOutput tree options.source)
    let directory := options.outputDirectory?.getD (output.parent?.getD ⟨""⟩)
    let stem := bindingsStem output
    options.settings?.toList ++ options.baseline?.toList ++
      [output, directory, directory.join ⟨stem ++ ".rs"⟩, directory.join ⟨stem ++ ".ts"⟩] ++
      sourceDemands tree settings options.source
  | .check source root? => sourceDemands tree { projectRoot? := root? } source
  | .inspect source root? => sourceDemands tree { projectRoot? := root? } source
  | .validate schema document => [schema, document]

/-- The places on the way along a path, without looking at what stands there. -/
def placesAlong (tree : FileTree) (path : Path) : List Place :=
  ((FileTree.steps path).foldl next ([], tree.start path)).1
where
  /-- One more step of the way. -/
  next (way : List Place × Place) (name : String) : List Place × Place :=
    let place :=
      if name = "." then way.2 else if name = ".." then way.2.dropLast else way.2 ++ [name]
    (way.1 ++ [place], place)

/-- The places that a command may look at and that have not been looked at yet. -/
def openPlaces (tree : FileTree) (known : List Place) (command : Command) : List Place :=
  ((demands tree command).flatMap (placesAlong tree)).eraseDups.filter fun place =>
    place ≠ [] && !known.contains place

end SchemaLang.CommandLine
