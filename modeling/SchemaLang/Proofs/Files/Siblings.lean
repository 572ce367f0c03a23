import SchemaLang.Proofs.Files.Canonical

/-!
# Directories and what lies in them

A name joined to the true path of a directory gives the true path of what lies there under that
name, and the directory is its parent. So files of one directory have the same parent, and what
one of them names by a relative path the others name by the same path.

An absolute path is walked from the root, one directory after the other. What it leads to stands
in the tree, and so does every directory above it.
-/

namespace SchemaLang

open List

variable {place : Place} {name : String}

theorem Place.Proper.concat (proper : Place.Proper place)
    (isName : IsFileName name) : Place.Proper (place ++ [name]) := by
  intro other member
  rcases mem_append.mp member with above | last
  · exact proper other above
  · rw [mem_singleton.mp last]
    exact isName

variable {path : Path}

namespace Path

theorem pieces_ne_nil (offset : Nat) (chars : List Char) : pieces offset chars ≠ [] := by
  intro empty
  have snds := pieces_snd offset chars
  rw [empty] at snds
  exact splitOn_ne_nil '/' chars snds.symm

/-- A slash separates the pieces before it from those behind it. -/
theorem pieces_append (offset : Nat) (before after : List Char) :
    pieces offset (before ++ '/' :: after) =
      pieces offset before ++ pieces (offset + before.length + 1) after := by
  induction before generalizing offset with
  | nil => simp [pieces]
  | cons c rest ih =>
    have sameOffset : offset + 1 + rest.length + 1 = offset + (c :: rest).length + 1 := by
      rw [length_cons]
      omega
    have later := ih (offset + 1)
    rw [sameOffset] at later
    rw [cons_append, pieces, pieces, later]
    by_cases slash : c = '/'
    · rw [if_pos slash, if_pos slash, cons_append]
    · rw [if_neg slash, if_neg slash]
      cases found : pieces (offset + 1) rest with
      | nil => exact absurd found (pieces_ne_nil _ _)
      | cons first others => rfl

/-- A text without slashes is one piece. -/
theorem pieces_of_noSlash (offset : Nat) {chars : List Char} (noSlash : '/' ∉ chars) :
    pieces offset chars = [(offset, chars)] := by
  induction chars generalizing offset with
  | nil => rfl
  | cons c rest ih =>
    rw [mem_cons, not_or] at noSlash
    rw [pieces, if_neg (Ne.symm noSlash.1), ih (offset + 1) noSlash.2]

theorem intercalate_concat (first : List Char) (others : List (List Char)) (last : List Char) :
    ['/'].intercalate (first :: others ++ [last]) =
      ['/'].intercalate (first :: others) ++ '/' :: last := by
  induction others generalizing first with
  | nil => simp
  | cons second rest ih =>
    rw [cons_append, cons_append, intercalate_cons_cons, ← cons_append, ih, intercalate_cons_cons]
    simp

/-- The path of what lies in a directory: the path of the directory, a slash unless there is one
already, and the name. -/
theorem toList_concat (place : Place) (name : String) :
    (ofPlace (place ++ [name])).text.toList =
      (ofPlace place).text.toList ++ (if place = [] then [] else ['/']) ++ name.toList := by
  rw [toList_ofPlace, toList_ofPlace]
  cases place with
  | nil => simp
  | cons first others =>
    rw [map_append, map_cons, map_singleton, intercalate_concat]
    simp

/-- The part of a piece that is a file name. -/
theorem partOfPiece_fileName (proper : IsFileName name) (start : Nat) :
    partOfPiece false start name.toList = some ⟨.name name, start, start + name.toList.length⟩ := by
  obtain ⟨nonempty, _, notHere, notUp⟩ := proper
  have someChars : name.toList ≠ [] := by simpa [String.toList_eq_nil_iff] using nonempty
  have notPoint : name.toList ≠ ['.'] := fun same => notHere (String.toList_inj.mp same)
  have notPoints : name.toList ≠ ['.', '.'] := fun same => notUp (String.toList_inj.mp same)
  simp [partOfPiece, someChars, notPoint, notPoints]

/-- The parts of an absolute path: the root, and what the pieces behind the first slash make. -/
theorem parts_absolute {rest : List Char} (spelled : path.text.toList = '/' :: rest) :
    path.parts = ⟨.root, 0, 1⟩ ::
      (pieces 1 rest).filterMap fun (start, piece) => partOfPiece false start piece := by
  unfold parts
  rw [isAbsolute, spelled, pieces, if_pos rfl]
  rfl

/-- A name in a directory is one more part, up to the end of the path. -/
theorem parts_concat (place : Place) (proper : IsFileName name) :
    ∃ start, (ofPlace (place ++ [name])).parts = (ofPlace place).parts ++
      [⟨.name name, start, (ofPlace (place ++ [name])).text.toList.length⟩] := by
  have last (start : Nat) : (pieces start name.toList).filterMap
      (fun (start, piece) => partOfPiece false start piece) =
        [⟨.name name, start, start + name.toList.length⟩] := by
    rw [pieces_of_noSlash start proper.2.1]
    simp [partOfPiece_fileName proper]
  have spelled := toList_ofPlace place
  have longer := toList_concat place name
  rw [spelled] at longer
  cases place with
  | nil =>
    have named : (ofPlace ([] ++ [name])).text.toList = '/' :: name.toList := longer
    refine ⟨1, ?_⟩
    rw [parts_absolute spelled, parts_absolute named, last, named, length_cons, Nat.add_comm]
    rfl
  | cons first others =>
    have named : (ofPlace (first :: others ++ [name])).text.toList =
        '/' :: (['/'].intercalate ((first :: others).map String.toList) ++ '/' :: name.toList) := by
      rw [longer, if_neg (cons_ne_nil first others), append_assoc]
      rfl
    refine ⟨1 + (['/'].intercalate ((first :: others).map String.toList)).length + 1, ?_⟩
    rw [parts_absolute spelled, parts_absolute named, pieces_append, filterMap_append, last,
      named, length_cons, length_append, length_cons, cons_append]
    congr 4
    omega

/-- The last part of a true path reaches to its end. -/
theorem parts_last (proper : Place.Proper place) :
    ∃ before last, (ofPlace place).parts = before ++ [last] ∧
      last.stop = (ofPlace place).text.toList.length := by
  rcases eq_nil_or_concat place with rfl | ⟨above, name, rfl⟩
  · exact ⟨[], ⟨.root, 0, 1⟩, rfl, rfl⟩
  · obtain ⟨start, parts⟩ := parts_concat above (proper name (by simp))
    rw [concat_eq_append]
    exact ⟨_, _, parts, rfl⟩

/-- What lies in a directory has the directory as its parent. -/
theorem parent?_concat (proper : Place.Proper place)
    (isName : IsFileName name) : (ofPlace (place ++ [name])).parent? = some (ofPlace place) := by
  obtain ⟨start, parts⟩ := parts_concat place isName
  obtain ⟨before, last, directory, stop⟩ := parts_last proper
  rw [directory] at parts
  have cut : (ofPlace (place ++ [name])).slice 0 last.stop = ofPlace place := by
    rw [slice, stop, toList_concat, append_assoc, take_left, drop_zero, String.ofList_toList]
  unfold parent?
  rw [parts, reverse_append, reverse_append]
  simp [cut]

/-- Only the path of the root ends in a slash. -/
theorem getLast?_ofPlace (proper : Place.Proper place) :
    (ofPlace place).text.toList.getLast? = some '/' ↔ place = [] := by
  constructor
  · rcases eq_nil_or_concat place with rfl | ⟨above, name, rfl⟩
    · exact fun _ => rfl
    · obtain ⟨nonempty, noSlash, _, _⟩ := proper name (by simp)
      intro last
      rw [concat_eq_append, toList_concat, getLast?_append_of_ne_nil _
        (by simpa [String.toList_eq_nil_iff] using nonempty)] at last
      exact absurd (mem_of_getLast? last) noSlash
  · rintro rfl
    rfl

/-- A name joined to the path of a directory gives the path of what lies there. -/
theorem join_name (proper : Place.Proper place)
    (isName : IsFileName name) : (ofPlace place).join ⟨name⟩ = ofPlace (place ++ [name]) := by
  have relative : isAbsolute ⟨name⟩ = false := by
    have noSlash := isName.2.1
    cases chars : name.toList with
    | nil => simp [isAbsolute, chars]
    | cons first others =>
      rw [chars, mem_cons, not_or] at noSlash
      simp [isAbsolute, chars, Ne.symm noSlash.1]
  have someText : (ofPlace place).text.isEmpty = false := by
    rw [← Bool.not_eq_true, String.isEmpty_iff, ← String.toList_eq_nil_iff, toList_ofPlace]
    exact cons_ne_nil _ _
  have longer := toList_concat place name
  unfold join
  rw [relative, if_neg Bool.false_ne_true, someText, Bool.false_or]
  by_cases atRoot : place = []
  · rw [if_pos (by simpa using (getLast?_ofPlace proper).mpr atRoot)]
    refine congrArg Path.mk (String.toList_inj.mp (Eq.trans ?_ longer.symm))
    rw [if_pos atRoot, append_nil, String.toList_append]
  · rw [if_neg (by simpa using mt (getLast?_ofPlace proper).mp atRoot)]
    refine congrArg Path.mk (String.toList_inj.mp (Eq.trans ?_ longer.symm))
    rw [if_neg atRoot, String.toList_append, String.toList_append]
    rfl

/-! ## Absolute paths -/

theorem isAbsolute_iff : path.isAbsolute = true ↔ ∃ rest, path.text.toList = '/' :: rest := by
  unfold isAbsolute
  cases path.text.toList <;> simp

theorem ofPlace_isAbsolute (place : Place) : (ofPlace place).isAbsolute = true :=
  isAbsolute_iff.mpr ⟨_, toList_ofPlace place⟩

theorem join_isAbsolute {base : Path} (absolute : base.isAbsolute = true) (path : Path) :
    (base.join path).isAbsolute = true := by
  obtain ⟨rest, spelled⟩ := isAbsolute_iff.mp absolute
  unfold join
  split
  · assumption
  split
  · exact isAbsolute_iff.mpr ⟨rest ++ path.text.toList, by simp [spelled]⟩
  · exact isAbsolute_iff.mpr ⟨rest ++ '/' :: path.text.toList, by simp [spelled]⟩

/-- Pieces start where their text does, or later. -/
theorem pieces_start (offset : Nat) (chars : List Char) :
    ∀ piece ∈ pieces offset chars, offset ≤ piece.1 := by
  induction chars generalizing offset with
  | nil => simp [pieces]
  | cons c rest ih =>
    have later := ih (offset + 1)
    intro piece member
    rw [pieces] at member
    split at member
    · rcases mem_cons.mp member with rfl | member
      · exact Nat.le_refl offset
      · exact Nat.le_of_succ_le (later piece member)
    · cases found : pieces (offset + 1) rest with
      | nil => exact absurd found (pieces_ne_nil _ _)
      | cons first others =>
        rw [found] at member later
        rcases mem_cons.mp member with rfl | member
        · exact Nat.le_refl offset
        · exact Nat.le_of_succ_le (later piece (mem_cons_of_mem first member))

theorem partOfPiece_start {first : Bool} {start : Nat} {piece : List Char} {part : PathPart}
    (made : partOfPiece first start piece = some part) : part.start = start := by
  unfold partOfPiece at made
  split at made
  · cases made
  split at made
  · split at made <;> cases made
    rfl
  split at made <;> cases made <;> rfl

/-- Behind the root a part starts behind the first slash. -/
theorem filePart?_start (absolute : path.isAbsolute = true) {part : PathPart}
    (file : path.filePart? = some (part, name)) : 1 ≤ part.start := by
  obtain ⟨rest, spelled⟩ := isAbsolute_iff.mp absolute
  unfold filePart? at file
  split at file
  · rename_i last isLast
    split at file
    · rename_i text isName
      cases file
      have member := mem_of_getLast? isLast
      rw [parts_absolute spelled] at member
      rcases mem_cons.mp member with rfl | behind
      · cases isName
      · obtain ⟨⟨start, piece⟩, among, made⟩ := mem_filterMap.mp behind
        rw [partOfPiece_start made]
        exact pieces_start 1 rest (start, piece) among
    · cases file
  · cases file

theorem withExtension_isAbsolute (absolute : path.isAbsolute = true)
    (extension : String) : (path.withExtension extension).isAbsolute = true := by
  obtain ⟨rest, spelled⟩ := isAbsolute_iff.mp absolute
  unfold withExtension
  split
  · exact absolute
  · rename_i part name file
    have start := filePart?_start absolute file
    obtain ⟨more, stop⟩ : ∃ more, part.start + (splitName name.toList).1.length = more + 1 :=
      ⟨part.start + (splitName name.toList).1.length - 1, by omega⟩
    refine isAbsolute_iff.mpr ⟨rest.take more ++ '.' :: extension.toList, ?_⟩
    simp [slice, spelled, stop]

end Path

namespace FileTree

/-- Something stands at a place and at every place above it. -/
def Standing (tree : FileTree) (place : Place) : Prop :=
  ∀ above, above <+: place → tree.node? above ≠ none

theorem step_standing (tree : FileTree) {next : Place} (standing : tree.Standing place)
    (stepped : tree.step place name = .ok next) : tree.Standing next := by
  unfold step at stepped
  split at stepped
  · cases stepped
  split at stepped
  · cases stepped
    exact standing
  split at stepped
  · cases stepped
    exact fun above shorter => standing above <| shorter.trans <| dropLast_prefix place
  split at stepped
  · cases stepped
  split at stepped
  · rename_i node found
    cases stepped
    intro above shorter
    rcases prefix_concat_iff.mp shorter with whole | inner
    · rw [whole, found]
      exact Option.some_ne_none node
    · exact standing above inner
  · cases stepped

/-- What an absolute path leads to stands in the tree. -/
theorem resolve_standing {tree : FileTree} (absolute : path.isAbsolute = true)
    (resolved : tree.resolve path = .ok place) : tree.Standing place := by
  have atRoot : tree.Standing (tree.start path) := by
    intro above shorter
    rw [start, if_pos absolute] at shorter
    rw [prefix_nil.mp shorter]
    exact Option.some_ne_none _
  unfold resolve at resolved
  split at resolved
  · cases resolved
  · obtain ⟨reached, walked, checked⟩ := Outcome.bind_ok_iff.mp resolved
    split at checked
    · cases checked
    · cases checked
      exact Outcome.foldlM_keeps tree.Standing walked atRoot fun _ _ _ _ stepped holds =>
        tree.step_standing holds stepped

end FileTree

end SchemaLang
