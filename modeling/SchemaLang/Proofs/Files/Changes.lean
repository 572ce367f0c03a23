import SchemaLang.Files.Storage
import SchemaLang.Proofs.Outcome

/-!
# What writing changes

Writing to a path changes one file, under all its names, and that path leads there from then on.
Making directories changes no file. So what a sequence of such steps leaves is known from the
contents that it wrote, file by file: where it wrote, the last content stands, and every other
file is as before. Directories stay, and paths that led somewhere still lead there.

A file with several names is spoken of by the name that stands for it.
-/

namespace SchemaLang.FileTree

open Outcome List

/-- The content of the file at a place. -/
def file? (tree : FileTree) (place : Place) : Option FileContent :=
  match tree.node? place with
  | some (.file content) => some content
  | _ => none

variable {tree : FileTree} {place : Place}

/-- A file is a node that is no directory. -/
theorem file?_eq_some {content : FileContent} :
    tree.file? place = some content ↔ tree.node? place = some (.file content) := by
  unfold file?
  split
  · rename_i found
    rw [found, Option.some.injEq, Option.some.injEq, FileNode.file.injEq]
  · rename_i noFile
    exact ⟨nofun, fun found => absurd found (noFile content)⟩

/-- Where nothing or a directory stands, there is no file. -/
theorem file?_eq_none (noFile : tree.node? place = none ∨ tree.node? place = some .directory) :
    tree.file? place = none := by
  unfold file?
  rcases noFile with isMissing | isDirectory
  · rw [isMissing]
  · rw [isDirectory]

variable {path : Path} {text : String}

/-- Replacing the node at a place is seen at that place only, and if there was one. -/
theorem lookup_set (nodes : List (Place × FileNode)) (place other : Place) (node : FileNode) :
    (nodes.map fun entry => if entry.1 == place then (place, node) else entry).lookup other =
      if other = place then (if nodes.any (·.1 == place) then some node else none)
      else nodes.lookup other := by
  induction nodes with
  | nil => simp
  | cons entry rest ih =>
    obtain ⟨key, value⟩ := entry
    rw [map_cons, lookup_cons, lookup_cons, ih, any_cons]
    by_cases isKey : key = place
    · subst isKey
      by_cases same : other = key
      · simp [same]
      · simp [same, beq_false_of_ne same]
    · by_cases same : other = place
      · have apart : (key == place) = false := by simp [isKey]
        rw [apart, Bool.false_or, if_pos same]
        simp [same, beq_false_of_ne (Ne.symm isKey)]
      · simp [same, isKey]

/-- Below the root a node stands where it was put, and all else stands as before. -/
theorem node?_put (tree : FileTree) (below : place ≠ []) (node : FileNode) (other : Place) :
    (tree.put place node).node? other = if other = place then some node else tree.node? other := by
  unfold node?
  by_cases atRoot : other = []
  · rw [if_pos atRoot, if_pos atRoot, if_neg (atRoot ▸ Ne.symm below)]
  · rw [if_neg atRoot, if_neg atRoot]
    unfold put
    split
    · rename_i known
      rw [lookup_set, known, if_pos rfl]
    · rename_i unknown
      rw [lookup_append]
      by_cases same : other = place
      · have missing : tree.nodes.lookup place = none := by
          rw [lookup_eq_none_iff]
          intro entry member
          simp only [any_eq_true, beq_iff_eq, not_exists, not_and] at unknown
          simpa using Ne.symm (unknown entry member)
        simp [same, missing]
      · simp [same, lookup_cons, beq_false_of_ne same]

/-- The working directory is not part of the nodes. -/
@[simp] theorem put_workingDirectory (tree : FileTree) (place : Place) (node : FileNode) :
    (tree.put place node).workingDirectory = tree.workingDirectory := by
  unfold put
  split <;> rfl

/-- A file that is put at several places stands at each of them. -/
theorem node?_putAll (tree : FileTree) {places : List Place} (below : [] ∉ places)
    (node : FileNode) (other : Place) :
    (places.foldl (fun tree place => tree.put place node) tree).node? other =
      if other ∈ places then some node else tree.node? other := by
  induction places generalizing tree with
  | nil => simp
  | cons place rest ih =>
    rw [mem_cons, not_or] at below
    rw [foldl_cons, ih _ below.2, tree.node?_put (Ne.symm below.1)]
    by_cases later : other ∈ rest
    · rw [if_pos later, if_pos (mem_cons_of_mem place later)]
    · simp only [mem_cons, later, if_false, or_false]

end SchemaLang.FileTree

namespace SchemaLang.Storage

open Outcome List FileTree

/-! ## Contents put over a tree -/

/-- The last of the contents that were written to a file. -/
def latest (contents : List (Place × FileContent)) (file : Place) : Option FileContent :=
  contents.reverse.lookup file

/-- What is filled later counts. -/
theorem latest_append (contents others : List (Place × FileContent)) (file : Place) :
    latest (contents ++ others) file = (latest others file).or (latest contents file) := by
  rw [latest, reverse_append, lookup_append]
  rfl

variable {contents : List (Place × FileContent)} {file : Place}

/-- One tree becomes another by giving files contents, one after the other, and by making
directories where nothing stood. -/
structure Rewritten (storage : Storage) (before : FileTree) (contents : List (Place × FileContent))
    (after : FileTree) : Prop where
  files : ∀ place, after.node? place ≠ some .directory →
    after.file? place = (latest contents (storage.home place)).or (before.file? place)
  directories : ∀ place, before.node? place = some .directory →
    after.node? place = some .directory
  made : ∀ place, after.node? place = some .directory → before.file? place = none
  workingDirectory : after.workingDirectory = before.workingDirectory

variable {storage : Storage} {place : Place} {path : Path}

namespace Rewritten

variable {before middle after : FileTree} {contents others : List (Place × FileContent)}

/-- Nothing happens. -/
theorem refl (storage : Storage) (tree : FileTree) : storage.Rewritten tree [] tree where
  files _ _ := rfl
  directories _ isDirectory := isDirectory
  made _ isDirectory := file?_eq_none (.inr isDirectory)
  workingDirectory := rfl

/-- What is filled first and what is filled then are filled in this order. -/
theorem trans (first : storage.Rewritten before contents middle)
    (second : storage.Rewritten middle others after) :
    storage.Rewritten before (contents ++ others) after where
  files place noDirectory := by
    have notBefore := fun isDirectory => noDirectory (second.directories place isDirectory)
    rw [second.files place noDirectory, first.files place notBefore, latest_append, Option.or_assoc]
  directories place isDirectory := second.directories place (first.directories place isDirectory)
  made place isDirectory := by
    -- A directory that the second part made stands where the first part left no file.
    by_cases already : middle.node? place = some .directory
    · exact first.made place already
    · have noFile := second.made place isDirectory
      rw [first.files place already, Option.or_eq_none_iff] at noFile
      exact noFile.2
  workingDirectory := second.workingDirectory.trans first.workingDirectory

/-- Only the last content of each file matters. -/
theorem congr (rewritten : storage.Rewritten before contents after)
    (same : ∀ file, latest others file = latest contents file) :
    storage.Rewritten before others after :=
  { rewritten with files := fun place noDirectory => same _ ▸ rewritten.files place noDirectory }

variable (rewritten : storage.Rewritten before contents after)
include rewritten

/-- A file stays a file. -/
theorem file?_some {content : FileContent} (found : before.file? place = some content) :
    ∃ other, after.file? place = some other := by
  have noDirectory : after.node? place ≠ some .directory := fun isDirectory => by
    rw [rewritten.made place isDirectory] at found
    cases found
  rw [rewritten.files place noDirectory, found]
  cases latest contents (storage.home place) with
  | none => exact ⟨content, rfl⟩
  | some other => exact ⟨other, rfl⟩

/-- What stood somewhere still stands there, if only as another file. -/
theorem isSome_node? {node : FileNode} (found : before.node? place = some node) :
    ∃ other, after.node? place = some other := by
  cases node with
  | directory => exact ⟨_, rewritten.directories place found⟩
  | file content =>
    obtain ⟨other, held⟩ := rewritten.file?_some (file?_eq_some.mpr found)
    exact ⟨_, file?_eq_some.mp held⟩

/-- A step down a name needs something there, which still stands. -/
theorem step_ok {next : Place} {name : String} (stepped : before.step place name = .ok next) :
    after.step place name = .ok next := by
  unfold step at stepped ⊢
  split at stepped
  · cases stepped
  rename_i isDirectory
  have stillDirectory := rewritten.directories place (by simpa using isDirectory)
  rw [if_neg (by simpa using stillDirectory)]
  split at stepped
  · rename_i here
    rwa [if_pos here]
  rename_i notHere
  rw [if_neg notHere]
  split at stepped
  · rename_i up
    rwa [if_pos up]
  rename_i notUp
  rw [if_neg notUp]
  split at stepped
  · cases stepped
  rename_i short
  rw [if_neg short]
  cases found : before.node? (place ++ [name]) with
  | none =>
    rw [found] at stepped
    cases stepped
  | some node =>
    rw [found] at stepped
    obtain ⟨other, stands⟩ := rewritten.isSome_node? found
    rw [stands]
    exact stepped

/-- Along several names, step by step. -/
theorem walk_ok {names : List String} {start : Place}
    (walked : names.foldlM before.step start = .ok place) :
    names.foldlM after.step start = .ok place := by
  induction names generalizing start with
  | nil => exact walked
  | cons name rest ih =>
    rw [foldlM_cons] at walked ⊢
    obtain ⟨next, stepped, remaining⟩ := bind_ok_iff.mp walked
    exact bind_ok_iff.mpr ⟨next, rewritten.step_ok stepped, ih remaining⟩

/-- Paths start where they did. -/
theorem start_eq (path : Path) : after.start path = before.start path := by
  rw [start, start, rewritten.workingDirectory]

/-- A path that led somewhere still leads there. -/
theorem resolve_ok (resolved : before.resolve path = .ok place) :
    after.resolve path = .ok place := by
  unfold resolve at resolved ⊢
  cases fault : textFault? path with
  | some fault =>
    rw [fault] at resolved
    cases resolved
  | none =>
    rw [fault] at resolved
    obtain ⟨reached, walked, checked⟩ := bind_ok_iff.mp resolved
    refine bind_ok_iff.mpr ⟨reached, ?_, ?_⟩
    · rw [rewritten.start_eq]
      exact rewritten.walk_ok walked
    · split at checked
      · cases checked
      rename_i fits
      rw [if_neg]
      · exact checked
      intro misfits
      rw [Bool.and_eq_true, bne_iff_ne] at misfits
      refine fits ?_
      rw [Bool.and_eq_true, bne_iff_ne]
      exact ⟨misfits.1, fun isDirectory => misfits.2 (rewritten.directories _ isDirectory)⟩

end Rewritten

/-! ## The steps -/

variable {tree : FileTree}

/-- The names of a file are those that share its home. -/
theorem mem_names {name other : Place} :
    other ∈ storage.names name ↔ storage.home other = storage.home name := by
  unfold names
  rw [mem_filter, beq_iff_eq]
  refine and_iff_right_of_imp fun same => ?_
  -- A name that is no link stands for itself.
  cases linked : storage.links.lookup other with
  | none =>
    have itself : storage.home other = other := by rw [home, linked, Option.getD_none]
    rw [← same, itself]
    exact mem_cons_self
  | some target =>
    obtain ⟨before, after, split, _⟩ := lookup_eq_some_iff.mp linked
    rw [split]
    simp

/-- A content stands under all names of its file where no directory does, and all else is as
before. -/
theorem node?_fill (storage : Storage) (tree : FileTree) (name : Place) (content : FileContent)
    (other : Place) :
    (storage.fill tree name content).node? other =
      if storage.home other = storage.home name ∧ tree.node? other ≠ some .directory then
        some (.file content)
      else tree.node? other := by
  unfold fill
  rw [tree.node?_putAll]
  · simp only [mem_filter, mem_names, bne_iff_ne]
  · simp [mem_filter, node?]

/-- Filling a file puts nodes only. -/
@[simp] theorem fill_workingDirectory (tree : FileTree) (name : Place) (content : FileContent) :
    (storage.fill tree name content).workingDirectory = tree.workingDirectory := by
  unfold fill
  generalize (storage.names name).filter _ = places
  induction places generalizing tree with
  | nil => rfl
  | cons place rest ih => rw [foldl_cons, ih, put_workingDirectory]

/-- Filling a file is all that changes: its other names are names of the same file. -/
theorem fill_rewritten (storage : Storage) (tree : FileTree) (name : Place)
    (content : FileContent) :
    storage.Rewritten tree [(storage.home name, content)] (storage.fill tree name content) where
  files place noDirectory := by
    have stands := storage.node?_fill tree name content place
    have notBefore : tree.node? place ≠ some .directory := fun isDirectory => by
      rw [isDirectory] at stands
      exact noDirectory (by simpa using stands)
    by_cases same : storage.home place = storage.home name
    · rw [if_pos ⟨same, notBefore⟩] at stands
      rw [file?_eq_some.mpr stands, same]
      simp [latest]
    · rw [if_neg (fun both => same both.1)] at stands
      unfold file?
      rw [stands]
      simp [latest, lookup_cons, beq_false_of_ne same]
  directories place isDirectory := by
    rw [storage.node?_fill, if_neg (fun both => both.2 isDirectory), isDirectory]
  made place isDirectory := by
    rw [storage.node?_fill] at isDirectory
    split at isDirectory
    · cases isDirectory
    · exact file?_eq_none (.inr isDirectory)
  workingDirectory := fill_workingDirectory tree name content

/-- Putting a directory where nothing stands changes no file. -/
theorem put_directory (below : place ≠ []) (missing : tree.node? place = none) :
    storage.Rewritten tree [] (tree.put place .directory) where
  files other noDirectory := by
    have stands := tree.node?_put below .directory other
    by_cases same : other = place
    · rw [if_pos same] at stands
      exact absurd stands noDirectory
    · rw [if_neg same] at stands
      unfold file?
      rw [stands]
      rfl
  directories other isDirectory := by
    rw [tree.node?_put below]
    split
    · rfl
    · exact isDirectory
  made other isDirectory := by
    by_cases same : other = place
    · exact file?_eq_none (.inl (same ▸ missing))
    · rw [tree.node?_put below, if_neg same] at isDirectory
      exact file?_eq_none (.inr isDirectory)
  workingDirectory := tree.put_workingDirectory place _

/-- Where an entry would be made: the walk along all names but the last ends in a directory, and
the last is a name that the directory can hold. -/
theorem target_ok {directory : Place} {name : String}
    (aimed : tree.target path = .ok (directory, some name)) :
    textFault? path = none ∧
      ∃ names, steps path = names ++ [name] ∧
        names.foldlM tree.step (tree.start path) = .ok directory ∧
        tree.node? directory = some .directory ∧
        name ≠ "." ∧ name ≠ ".." ∧ ¬ nameLimit < name.utf8ByteSize := by
  unfold target at aimed
  cases fault : textFault? path with
  | some fault =>
    rw [fault] at aimed
    cases aimed
  | none =>
    rw [fault] at aimed
    obtain ⟨reached, walked, checked⟩ := bind_ok_iff.mp aimed
    split at checked
    · cases checked
    rename_i isDirectory
    cases last : (steps path).getLast? with
    | none =>
      rw [last] at checked
      cases checked
    | some final =>
      rw [last] at checked
      simp only at checked
      split at checked
      · cases checked
      rename_i noPoints
      split at checked
      · cases checked
      rename_i short
      cases checked
      rw [Bool.or_eq_true, decide_eq_true_eq, decide_eq_true_eq, not_or] at noPoints
      exact ⟨rfl, (steps path).dropLast, (dropLast_append_getLast? name last).symm, walked,
        by simpa using isDirectory, noPoints.1, noPoints.2, short⟩

/-- The name of the file that a path leads to: the one that stands for it. -/
def fileAt? (storage : Storage) (tree : FileTree) (path : Path) : Option Place :=
  match tree.resolve path with
  | .ok place => if (tree.file? place).isSome then some (storage.home place) else none
  | .error _ => none

/-- The file that a path leads to, whatever it holds. -/
theorem fileAt?_eq_some :
    storage.fileAt? tree path = some file ↔ ∃ place content, tree.resolve path = .ok place ∧
      tree.file? place = some content ∧ storage.home place = file := by
  unfold fileAt?
  cases tree.resolve path with
  | error fault => simp
  | ok place => cases held : tree.file? place <;> simp [held]

/-- A path that leads to a file leads to the same file after others were written. -/
theorem Rewritten.fileAt?_some {before after : FileTree}
    (rewritten : storage.Rewritten before contents after)
    (leads : storage.fileAt? before path = some file) : storage.fileAt? after path = some file := by
  obtain ⟨place, content, resolved, held, isFile⟩ := fileAt?_eq_some.mp leads
  obtain ⟨other, stillHeld⟩ := rewritten.file?_some held
  exact fileAt?_eq_some.mpr ⟨place, other, rewritten.resolve_ok resolved, stillHeld, isFile⟩

/-- Opening a file empties it and changes nothing else, and the path leads to it. -/
theorem create_ok {opened : FileTree} {name : Place}
    (done : storage.create tree path = .ok (opened, name)) :
    storage.Rewritten tree [(storage.home name, .text "")] opened ∧
      storage.fileAt? opened path = some (storage.home name) := by
  obtain ⟨⟨directory, name?⟩, aimed, checked⟩ := bind_ok_iff.mp done
  cases name? with
  | none => cases checked
  | some name =>
    obtain ⟨noFault, names, spelled, walked, isDirectory, notHere, notUp, short⟩ := target_ok aimed
    simp only at checked
    split at checked
    · cases checked
    rename_i noSlash
    split at checked
    · cases checked
    rename_i noDirectory
    cases checked
    have rewritten := storage.fill_rewritten tree (directory ++ [name]) (.text "")
    have stands : (storage.fill tree (directory ++ [name]) (.text "")).node? (directory ++ [name]) =
        some (.file (.text "")) := by
      rw [storage.node?_fill, if_pos ⟨rfl, by simpa using noDirectory⟩]
    refine ⟨rewritten, fileAt?_eq_some.mpr ⟨_, _, ?_, file?_eq_some.mpr stands, rfl⟩⟩
    have stepped : (storage.fill tree (directory ++ [name]) (.text "")).step directory name =
        .ok (directory ++ [name]) := by
      unfold step
      rw [if_neg (by simpa using rewritten.directories _ isDirectory), if_neg notHere,
        if_neg notUp, if_neg short, stands]
    -- The walk to the directory goes as before, and its last step finds the file.
    unfold resolve
    rw [noFault]
    refine bind_ok_iff.mpr ⟨directory ++ [name], ?_, ?_⟩
    · rw [spelled, foldlM_append, rewritten.start_eq]
      refine bind_ok_iff.mpr ⟨directory, rewritten.walk_ok walked, ?_⟩
      exact bind_ok_iff.mpr ⟨_, stepped, rfl⟩
    · rw [if_neg]
      · rfl
      simp [noSlash]

/-- A directory is made only where nothing stands. -/
theorem makeDirectory_ok {next : FileTree} (done : tree.makeDirectory path = .ok next) :
    storage.Rewritten tree [] next := by
  obtain ⟨⟨directory, name?⟩, _, checked⟩ := bind_ok_iff.mp done
  cases name? with
  | none => cases checked
  | some name =>
    simp only at checked
    split at checked
    · cases checked
    rename_i missing
    cases checked
    exact put_directory (by simp) (by simpa using missing)

/-- A directory that cannot be made leaves all as it was. -/
theorem ensureDirectory_rewritten (tree : FileTree) (path : Path) :
    storage.Rewritten tree [] (tree.ensureDirectory path).1 := by
  unfold ensureDirectory
  cases made : tree.makeDirectory path with
  | ok next => exact makeDirectory_ok made
  | error fault => exact .refl storage tree

/-- By induction on the steps, from the deepest directory that is there. -/
theorem makeDirectoriesUpTo_rewritten (fuel : Nat) (tree : FileTree) (path : Path) :
    storage.Rewritten tree [] (makeDirectoriesUpTo fuel tree path).1 := by
  induction fuel generalizing path with
  | zero => exact .refl storage tree
  | succ fuel ih =>
    unfold makeDirectoriesUpTo
    split
    · exact .refl storage tree
    split
    · split
      · exact .refl storage tree
      · rename_i parent _
        have above := ih parent
        split
        · rename_i stopped
          rwa [stopped] at above
        · rename_i made
          rw [made] at above
          exact above.trans (ensureDirectory_rewritten _ path)
    · exact ensureDirectory_rewritten tree path

/-! ## Contents written to paths -/

/-- One tree becomes another by writing contents to paths, one after the other, and by making
directories where nothing stood. Every path leads to the file that its content was written to. -/
def Writes (storage : Storage) (before : FileTree) (contents : List (Path × FileContent))
    (after : FileTree) : Prop :=
  ∃ filled : List (Place × FileContent), storage.Rewritten before filled after ∧
    Forall₂ (fun written entry => storage.fileAt? after written.1 = some entry.1 ∧
      entry.2 = written.2) contents filled

namespace Writes

variable {before middle after : FileTree} {contents others : List (Path × FileContent)}
  {text : String}

/-- A change that fills no file writes to no path. -/
theorem of_rewritten (rewritten : storage.Rewritten before [] after) :
    storage.Writes before [] after :=
  ⟨[], rewritten, .nil⟩

/-- Nothing is written. -/
theorem refl (storage : Storage) (tree : FileTree) : storage.Writes tree [] tree :=
  of_rewritten (.refl storage tree)

/-- Paths that led to written files still lead there after more is written. -/
theorem trans (first : storage.Writes before contents middle)
    (second : storage.Writes middle others after) :
    storage.Writes before (contents ++ others) after := by
  obtain ⟨filled, rewritten, led⟩ := first
  obtain ⟨otherFilled, otherRewritten, otherLed⟩ := second
  refine ⟨filled ++ otherFilled, rewritten.trans otherRewritten, rel_append ?_ otherLed⟩
  exact led.imp fun _ _ leads => ⟨otherRewritten.fileAt?_some leads.1, leads.2⟩

/-- An open file that is filled holds what it was filled with, and not that it was empty. -/
theorem of_fill {opened : FileTree} {name : Place} (content : FileContent)
    (created : storage.create before path = .ok (opened, name)) :
    storage.Writes before [(path, content)] (storage.fill opened name content) := by
  obtain ⟨emptied, leads⟩ := create_ok created
  have filled := storage.fill_rewritten opened name content
  have rewritten : storage.Rewritten before [(storage.home name, content)]
      (storage.fill opened name content) := by
    refine (emptied.trans filled).congr fun file => ?_
    by_cases same : file = storage.home name
    · simp [latest, same]
    · simp [latest, lookup_cons, beq_false_of_ne same]
  exact ⟨_, rewritten, .cons ⟨filled.fileAt?_some leads, rfl⟩ .nil⟩

end Writes

/-- Making directories writes nothing, whether all of them can be made or not. -/
theorem makeDirectories_writes (storage : Storage) (tree : FileTree) (path : Path) :
    storage.Writes tree [] (tree.makeDirectories path).1 :=
  .of_rewritten (makeDirectoriesUpTo_rewritten _ tree path)

/-- How writing a text to a path may end. The file cannot be opened, and nothing has changed; it
takes a beginning of the text and no more; or it takes all of it. -/
theorem write_cases (storage : Storage) (tree : FileTree) (path : Path) (text : String) :
    (∃ fault, storage.write tree path text = (tree, some fault)) ∨
    (∃ beginning after, beginning <+: FileContent.bytesOf text ∧
      beginning ≠ FileContent.bytesOf text ∧
      storage.write tree path text = (after, some .noSpace) ∧
      storage.Writes tree [(path, .ofBytes beginning)] after) ∨
    ∃ after, storage.write tree path text = (after, none) ∧
      storage.Writes tree [(path, .text text)] after := by
  unfold write
  cases created : storage.create tree path with
  | error fault => exact .inl ⟨fault, rfl⟩
  | ok made =>
    obtain ⟨opened, name⟩ := made
    refine .inr ?_
    simp only
    unfold writeAll
    cases bound : storage.taken? name text with
    | none => exact .inr ⟨_, rfl, .of_fill _ created⟩
    | some count =>
      obtain ⟨_, short⟩ := Option.filter_eq_some_iff.mp bound
      refine .inl ⟨_, _, take_prefix count _, fun whole => ?_, rfl, .of_fill _ created⟩
      have length := congrArg length whole
      rw [length_take] at length
      simp only [decide_eq_true_eq] at short
      omega

end SchemaLang.Storage
