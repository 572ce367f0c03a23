import SchemaLang.Files.Tree
import SchemaLang.Proofs.Outcome

/-!
# True paths

A place is proper when each step of it is a name that a file can have. The path that
spells a proper place reads back as that place: its steps are the names, and its
components are the root and the names. So two true paths are alike only if they are
equal, which is why a set of visited files may be kept by path.

Walking a path keeps places proper as long as the walk starts at a proper one. Absolute
paths start at the root; relative ones start at the working directory, and a tree is
well formed when that directory is a proper place.
-/

namespace SchemaLang

open Outcome List

/-- The names that a file can have in its directory. -/
def IsFileName (name : String) : Prop :=
  name ≠ "" ∧ '/' ∉ name.toList ∧ name ≠ "." ∧ name ≠ ".."

instance (name : String) : Decidable (IsFileName name) :=
  inferInstanceAs (Decidable (_ ∧ _ ∧ _ ∧ _))

/-- Every step of the place is a file name. -/
def Place.Proper (place : Place) : Prop := ∀ name ∈ place, IsFileName name

/-- Relative paths start from a place that can exist. -/
structure FileTree.WellFormed (tree : FileTree) : Prop where
  workingDirectory : Place.Proper tree.workingDirectory

variable {place : Place} {name : String}

namespace Path

/-- The pieces of a text are what stands between its slashes. -/
theorem pieces_snd (offset : Nat) (chars : List Char) :
    (pieces offset chars).map Prod.snd = chars.splitOn '/' := by
  induction chars generalizing offset with
  | nil => rfl
  | cons c rest ih =>
    have tail := ih (offset + 1)
    rw [splitOn_cons_eq_if_modifyHead, ← tail]
    by_cases slash : c = '/'
    · simp [pieces, slash]
    · cases found : pieces (offset + 1) rest with
      | nil =>
        rw [found] at tail
        exact absurd tail.symm (splitOn_ne_nil '/' rest)
      | cons first others => simp [pieces, slash, found]

/-- No piece holds a slash. -/
theorem pieces_noSlash (offset : Nat) (chars : List Char) :
    ∀ piece ∈ pieces offset chars, '/' ∉ piece.2 := by
  induction chars generalizing offset with
  | nil => simp [pieces]
  | cons c rest ih =>
    have later := ih (offset + 1)
    intro piece member
    by_cases slash : c = '/'
    · rw [pieces, if_pos slash] at member
      rcases mem_cons.mp member with rfl | member
      · simp
      · exact later piece member
    · rw [pieces, if_neg slash] at member
      cases found : pieces (offset + 1) rest with
      | nil =>
        obtain rfl : piece = (offset, [c]) := by simpa [found] using member
        simpa using Ne.symm slash
      | cons first others =>
        rw [found] at member later
        rcases mem_cons.mp member with rfl | member
        · have firstClean := later first mem_cons_self
          simpa using ⟨Ne.symm slash, firstClean⟩
        · exact later piece (mem_cons_of_mem first member)

/-- The text of a true path is a slash and the names with slashes between them. -/
theorem toList_ofPlace (place : Place) :
    (ofPlace place).text.toList = '/' :: ['/'].intercalate (place.map String.toList) := by
  simp [ofPlace]

/-- The pieces of a true path are an empty one before the first slash and the names. The
root has a second empty piece in place of names. -/
theorem splitOn_ofPlace (proper : Place.Proper place) :
    (ofPlace place).text.toList.splitOn '/' =
      [] :: (if place = [] then [[]] else place.map String.toList) := by
  have noSlash : ∀ chars ∈ place.map String.toList, '/' ∉ chars := by
    intro chars member
    obtain ⟨name, named, rfl⟩ := mem_map.mp member
    exact (proper name named).2.1
  rw [toList_ofPlace, splitOn_cons_eq_if_modifyHead]
  by_cases empty : place = []
  · simp [empty]
  · have someNames : place.map String.toList ≠ [] := by simp [empty]
    simp [empty, splitOn_intercalate '/' noSlash someNames]

/-- Walking along a true path goes through the names of its place. -/
theorem steps_ofPlace (proper : Place.Proper place) : FileTree.steps (ofPlace place) = place := by
  have cut : FileTree.steps (ofPlace place) =
      ((ofPlace place).text.toList.splitOn '/').filterMap fun piece =>
        if piece.isEmpty then none else some (String.ofList piece) := by
    rw [← pieces_snd 0, filterMap_map]
    rfl
  rw [cut, splitOn_ofPlace proper]
  by_cases empty : place = []
  · simp [empty]
  · have named : ∀ name ∈ place, (if name.toList.isEmpty then none
        else some (String.ofList name.toList)) = some name := by
      intro name member
      have nonempty : name.toList ≠ [] := by
        simpa [String.toList_eq_nil_iff] using (proper name member).1
      simp [nonempty]
    simp only [empty, if_false, filterMap_cons, isEmpty_nil, if_true,
      filterMap_map, Function.comp_def]
    rw [filterMap_congr named, filterMap_some]

/-- A file name that is not the first piece of a path is a component of its own. -/
theorem component_of_fileName (proper : IsFileName name) (start : Nat) :
    (partOfPiece false start name.toList).map PathPart.component = some (.name name) := by
  obtain ⟨nonempty, _, notHere, notUp⟩ := proper
  have someChars : name.toList ≠ [] := by simpa [String.toList_eq_nil_iff] using nonempty
  have notPoint : name.toList ≠ ['.'] := fun same =>
    notHere (String.toList_inj.mp same)
  have notPoints : name.toList ≠ ['.', '.'] := fun same =>
    notUp (String.toList_inj.mp same)
  simp [partOfPiece, someChars, notPoint, notPoints]

/-- The components of pieces that are file names are these names, wherever they start. -/
theorem components_of_pieces (proper : Place.Proper place) (cut : List (Nat × List Char))
    (named : cut.map Prod.snd = place.map String.toList) :
    (cut.filterMap fun (start, piece) => partOfPiece false start piece).map PathPart.component =
      place.map .name := by
  induction place generalizing cut with
  | nil =>
    have empty : cut = [] := by simpa using named
    simp [empty]
  | cons name rest ih =>
    cases cut with
    | nil => simp at named
    | cons first others =>
      obtain ⟨start, piece⟩ := first
      obtain ⟨rfl, namedRest⟩ :
        piece = name.toList ∧ others.map Prod.snd = rest.map String.toList := by
        simpa using named
      have firstComponent := component_of_fileName (proper name mem_cons_self) start
      have restComponents := ih
        (fun other member => proper other (mem_cons_of_mem name member)) others namedRest
      cases found : partOfPiece false start name.toList with
      | none => simp [found] at firstComponent
      | some part =>
        have component : part.component = .name name := by simpa [found] using firstComponent
        simp only [filterMap_cons, found, map_cons, component, restComponents]

/-- The components of a true path are the root and the names of its place. -/
theorem components_ofPlace (proper : Place.Proper place) :
    (ofPlace place).components = .root :: place.map .name := by
  have absolute : (ofPlace place).isAbsolute = true := by
    simp [isAbsolute, toList_ofPlace]
  have snds := pieces_snd 0 (ofPlace place).text.toList
  rw [splitOn_ofPlace proper] at snds
  cases found : pieces 0 (ofPlace place).text.toList with
  | nil => simp [found] at snds
  | cons first others =>
    have named : others.map Prod.snd = if place = [] then [[]] else place.map String.toList := by
      rw [found] at snds
      exact (cons.inj snds).2
    have spelled : (ofPlace place).components = .root ::
        (others.filterMap fun (start, piece) => partOfPiece false start piece).map
          PathPart.component := by
      simp [components, parts, found, absolute]
    rw [spelled]
    by_cases empty : place = []
    · obtain ⟨start, rfl⟩ : ∃ start, others = [(start, [])] := by
        simp only [empty, if_true] at named
        obtain ⟨only, rfl, same⟩ := map_eq_singleton_iff.mp named
        exact ⟨only.1, by rw [← same]⟩
      simp [empty, partOfPiece]
    · rw [if_neg empty] at named
      rw [components_of_pieces proper others named]

/-- True paths are alike only if they are equal. -/
theorem eq_of_alike {other : Place} (proper : Place.Proper place) (otherProper : Place.Proper other)
    (same : (ofPlace place).alike (ofPlace other) = true) : place = other := by
  have components : (ofPlace place).components = (ofPlace other).components := by
    simpa [alike] using same
  rw [components_ofPlace proper, components_ofPlace otherProper] at components
  have injective : Function.Injective PathComponent.name := fun _ _ same =>
    PathComponent.name.inj same
  exact (map_injective_iff.mpr injective) (cons.inj components).2

/-- Every path is alike to itself. -/
@[simp] theorem alike_refl (path : Path) : path.alike path = true := by
  simp [alike]

/-- Being alike goes both ways. -/
theorem alike_comm (a b : Path) : a.alike b = b.alike a := by
  simp only [alike]
  exact BEq.comm

end Path

variable {tree : FileTree}

namespace FileTree

/-- A step of a walk leads from a proper place to a proper place, since a step that goes
down is a piece between slashes and neither of the two points. -/
theorem step_proper (tree : FileTree) {next : Place} (proper : Place.Proper place)
    (nonempty : name ≠ "") (noSlash : '/' ∉ name.toList)
    (stepped : tree.step place name = .ok next) : Place.Proper next := by
  unfold step at stepped
  split at stepped
  · cases stepped
  split at stepped
  · cases stepped
    exact proper
  split at stepped
  · cases stepped
    exact fun other member => proper other ((dropLast_sublist _).subset member)
  split at stepped
  · cases stepped
  split at stepped
  · cases stepped
    intro other member
    rcases mem_append.mp member with earlier | last
    · exact proper other earlier
    · obtain rfl := mem_singleton.mp last
      exact ⟨nonempty, noSlash, by assumption, by assumption⟩
  · cases stepped

/-- What a walk goes through are pieces of the path: not empty and without slashes. -/
theorem steps_pieces (path : Path) : ∀ name ∈ steps path, name ≠ "" ∧ '/' ∉ name.toList := by
  intro name member
  obtain ⟨⟨start, piece⟩, cut, kept⟩ := mem_filterMap.mp member
  by_cases empty : piece = []
  · simp [empty] at kept
  · obtain rfl : String.ofList piece = name := by simpa [empty] using kept
    refine ⟨by simpa using empty, ?_⟩
    rw [String.toList_ofList]
    exact Path.pieces_noSlash 0 path.text.toList (start, piece) cut

/-- A walk along names from a proper place ends at a proper place. -/
theorem walk_proper (tree : FileTree) {names : List String} {start : Place}
    (proper : Place.Proper start) (clean : ∀ name ∈ names, name ≠ "" ∧ '/' ∉ name.toList)
    (walked : names.foldlM tree.step start = .ok place) : Place.Proper place :=
  foldlM_keeps Place.Proper walked proper fun _ name _ member stepped holds =>
    tree.step_proper holds (clean name member).1 (clean name member).2 stepped

/-- What a path leads to in a well-formed tree is a proper place. -/
theorem resolve_proper (wellFormed : tree.WellFormed) {path : Path}
    (resolved : tree.resolve path = .ok place) : Place.Proper place := by
  have startProper : Place.Proper (tree.start path) := by
    unfold start
    split
    · exact fun _ member => absurd member not_mem_nil
    · exact wellFormed.workingDirectory
  unfold resolve at resolved
  split at resolved
  · cases resolved
  · obtain ⟨reached, walked, checked⟩ := bind_ok_iff.mp resolved
    split at checked
    · cases checked
    · cases checked
      exact tree.walk_proper startProper (steps_pieces path) walked

/-- One step down by a file name appends it. -/
theorem step_fileName (tree : FileTree) {next : Place} (proper : IsFileName name)
    (stepped : tree.step place name = .ok next) : next = place ++ [name] := by
  obtain ⟨_, _, notHere, notUp⟩ := proper
  unfold step at stepped
  rw [if_neg notHere, if_neg notUp] at stepped
  split at stepped
  · cases stepped
  split at stepped
  · cases stepped
  split at stepped
  · cases stepped
    rfl
  · cases stepped

/-- A walk along file names appends them all. -/
theorem walk_fileNames (tree : FileTree) {names : List String} {start : Place}
    (proper : Place.Proper names) (walked : names.foldlM tree.step start = .ok place) :
    place = start ++ names := by
  induction names generalizing start with
  | nil =>
    cases walked
    exact (append_nil _).symm
  | cons name rest ih =>
    rw [foldlM_cons] at walked
    obtain ⟨next, stepped, remaining⟩ := bind_ok_iff.mp walked
    have nextEq := tree.step_fileName (proper name mem_cons_self) stepped
    have restProper : Place.Proper rest := fun other member =>
      proper other (mem_cons_of_mem name member)
    rw [ih restProper remaining, nextEq, append_assoc]
    rfl

/-- A true path leads back to its place, if it leads anywhere. -/
theorem resolve_ofPlace {reached : Place} (proper : Place.Proper place)
    (resolved : tree.resolve (Path.ofPlace place) = .ok reached) : reached = place := by
  have absolute : tree.start (Path.ofPlace place) = [] := by
    simp [start, Path.isAbsolute, Path.toList_ofPlace]
  unfold resolve at resolved
  split at resolved
  · cases resolved
  · obtain ⟨walkedTo, walked, checked⟩ := bind_ok_iff.mp resolved
    rw [Path.steps_ofPlace proper, absolute] at walked
    have whole := tree.walk_fileNames proper walked
    split at checked
    · cases checked
    · cases checked
      exact whole

/-- A true path that can be read is that of a file with this text. -/
theorem node?_of_read {text : String} (proper : Place.Proper place)
    (readable : tree.read (Path.ofPlace place) = .ok text) :
    tree.node? place = some (.file (.text text)) := by
  obtain ⟨reached, resolved, content⟩ := bind_ok_iff.mp readable
  obtain rfl := resolve_ofPlace proper resolved
  revert content
  cases tree.node? reached with
  | none => intro content; cases content
  | some node =>
    cases node with
    | directory => intro content; cases content
    | file held =>
      cases held with
      | text held => intro content; cases content; rfl
      | bytes held => intro content; cases content

/-- A true path that can be read is that of a file among the nodes of the tree. -/
theorem node_of_read {text : String} (proper : Place.Proper place)
    (readable : tree.read (Path.ofPlace place) = .ok text) : place ∈ tree.nodes.map Prod.fst := by
  have found := node?_of_read proper readable
  unfold node? at found
  split at found
  · cases found
  · obtain ⟨before, after, split, _⟩ := lookup_eq_some_iff.mp found
    simp [split]

end FileTree

end SchemaLang
