import Mathlib.Data.List.Nodup
import Mathlib.Data.List.Perm.Basic
import SchemaLang.Proofs.Registry.Invariant
import SchemaLang.Proofs.Registry.Relabelling

/-!
# The order of declarations

Declarations get their numbers from their places in the list. In another order they get other
numbers, and nothing else changes: whether names clash, which definition a name means and which
constraints a block adds do not depend on the order. Only the validation blocks have to stay in
their order, since they append, and each has to name its target, since otherwise the target is the
declaration before it.

A declaration is recognised in the other list by its name. So the new number of a definition is the
place of its name there, and `Registry.Reordered` says that the registries are renumbered in this
way and that only the order of the names differs.
-/

namespace SchemaLang

open Outcome List Outline

/-! ## Places in a reordered list -/

namespace Reordering

variable {names others : List String}

/-- The place in the second list of the name at a place of the first. A place behind the first
list stays. -/
def rank (names others : List String) (place : Nat) : Nat :=
  match names[place]? with
  | some name => others.idxOf name
  | none => place

theorem getElem?_rank (permuted : names.Perm others) (place : Nat) :
    others[rank names others place]? = names[place]? := by
  unfold rank
  cases found : names[place]? with
  | some name =>
    have member : name ∈ others := permuted.mem_iff.mp (mem_of_getElem? found)
    exact getElem?_idxOf member
  | none =>
    rw [getElem?_eq_none_iff] at found ⊢
    exact permuted.length_eq ▸ found

theorem rank_injective (permuted : names.Perm others) (distinct : names.Nodup) :
    Function.Injective (rank names others) := by
  intro first second sameRank
  have sameName : names[first]? = names[second]? := by
    rw [← getElem?_rank permuted, sameRank, getElem?_rank permuted]
  by_cases bound : first < names.length
  · exact (getElem?_inj bound distinct).mp sameName
  · have firstOut : names[first]? = none := getElem?_eq_none_iff.mpr (by omega)
    have secondOut : names[second]? = none := sameName ▸ firstOut
    rw [rank, firstOut, rank, secondOut] at sameRank
    exact sameRank

/-- The renumbering that follows the names to their new places. -/
def relabelling (permuted : names.Perm others) (distinct : names.Nodup) : Relabelling :=
  ⟨id, rank names others, Relabelling.identity.builtin, rank_injective permuted distinct⟩

end Reordering

/-! ## Collecting names -/

variable {decls : List ScopedDeclaration}

variable {stmt : ScopedDeclaration} {outlines others : List Outline}

namespace Outline

/-- A declaration is added if its name is free and it is not a second entry. -/
theorem add_of_free {earlier : List Outline} {outline : Outline}
    (named : ofStatement? stmt = some outline)
    (unreserved : Primitive.ofKeyword? outline.name = none)
    (free : ∀ other ∈ earlier, other.name ≠ outline.name)
    (single : ∀ other ∈ earlier, other.isEntry = true → outline.isEntry = false) :
    add earlier stmt = .ok (earlier ++ [outline]) := by
  obtain ⟨name, isName, rfl⟩ := Option.map_eq_some_iff.mp named
  have noClash : (earlier.find? fun other => other.name = name) = none :=
    find?_eq_none.mpr fun other member => by simpa using free other member
  unfold add
  rw [isName]
  dsimp only at unreserved ⊢
  rw [unreserved, noClash]
  cases isFirst : earlier.find? isEntry with
  | none => rfl
  | some previous =>
    have plain := single previous (mem_of_find?_eq_some isFirst) (find?_some isFirst)
    rw [plain]
    rfl

/-- Names that can stand side by side, with one entry at most, are collected. -/
theorem collect_of_apart {start : List Outline} (apart : Apart (start ++ all decls))
    (single : SingleEntry (start ++ all decls)) :
    decls.foldlM add start = .ok (start ++ all decls) := by
  induction decls generalizing start with
  | nil => simp [all, pure, Except.pure]
  | cons stmt rest ih =>
    rw [foldlM_cons]
    cases named : ofStatement? stmt with
    | none =>
      have unnamed : stmt.qualifiedName? = none := Option.map_eq_none_iff.mp named
      have same : all (stmt :: rest) = all rest := filterMap_cons_none named
      rw [same] at apart single ⊢
      rw [add, unnamed]
      exact ih apart single
    | some outline =>
      have grown : start ++ all (stmt :: rest) = start ++ [outline] ++ all rest := by
        rw [all, filterMap_cons_some named, append_assoc, singleton_append]
        rfl
      rw [grown] at apart single ⊢
      have free : ∀ other ∈ start, other.name ≠ outline.name := by
        intro other member same
        have distinct := apart.distinct
        rw [map_append, map_append, append_assoc, nodup_append] at distinct
        exact distinct.2.2 other.name (mem_map_of_mem member) outline.name (by simp) same
      have alone : ∀ other ∈ start, other.isEntry = true → outline.isEntry = false := by
        intro other member isEntry
        rw [SingleEntry, append_assoc] at single
        exact (pairwise_append.mp single).2.2 other member outline (by simp) isEntry
      rw [add_of_free named (apart.unreserved outline (by simp)) free alone]
      exact ih apart single

theorem Apart.perm (apart : Apart outlines) (permuted : outlines.Perm others) : Apart others where
  distinct := (permuted.map name).nodup_iff.mp apart.distinct
  unreserved outline member := apart.unreserved outline (permuted.mem_iff.mpr member)

theorem SingleEntry.perm (single : SingleEntry outlines) (permuted : outlines.Perm others) :
    SingleEntry others := by
  refine (permuted.pairwise_iff fun {first second} apart isSecond => ?_).mp single
  by_contra isFirst
  rw [apart (by simpa using isFirst)] at isSecond
  cases isSecond

section Ranked

variable {outlines others : List Outline} (permuted : outlines.Perm others)
  (distinct : (outlines.map name).Nodup)

/-- The renumbering of declarations in another order. -/
def reordering : Relabelling := Reordering.relabelling (permuted.map name) distinct

/-- The renumbering leads to the same declaration: there is one of each name. -/
theorem getElem?_reordering (place : Nat) :
    others[(reordering permuted distinct).number place]? = outlines[place]? := by
  have sameName : (others.map name)[(reordering permuted distinct).number place]? =
      (outlines.map name)[place]? :=
    Reordering.getElem?_rank (permuted.map name) place
  rw [getElem?_map, getElem?_map] at sameName
  cases found : outlines[place]? with
  | none =>
    rw [found] at sameName
    exact Option.map_eq_none_iff.mp sameName
  | some outline =>
    rw [found, Option.map_some] at sameName
    obtain ⟨other, otherFound, same⟩ := Option.map_eq_some_iff.mp sameName
    have otherMember : other ∈ outlines := permuted.mem_iff.mpr (mem_of_getElem? otherFound)
    rw [otherFound, inj_on_of_nodup_map distinct otherMember (mem_of_getElem? found) same]

/-- The entry is found at its new number. -/
theorem findIdx?_reordering (single : SingleEntry outlines) :
    others.findIdx? isEntry =
      (outlines.findIdx? isEntry).map (reordering permuted distinct).number := by
  cases found : outlines.findIdx? isEntry with
  | none =>
    rw [findIdx?_eq_none_iff] at found
    rw [Option.map_none, findIdx?_eq_none_iff]
    exact fun other member => found other (permuted.mem_iff.mpr member)
  | some place =>
    obtain ⟨bound, isIt, _⟩ := findIdx?_eq_some_iff_getElem.mp found
    have moved := getElem?_reordering permuted distinct place
    rw [getElem?_eq_getElem bound] at moved
    obtain ⟨otherBound, same⟩ := List.getElem?_eq_some_iff.mp moved
    rw [Option.map_some, findIdx?_eq_some_iff_getElem]
    refine ⟨otherBound, same ▸ isIt, fun earlier before isEarlier => ?_⟩
    have notLater := pairwise_iff_getElem.mp (single.perm permuted) earlier _ (by omega)
      otherBound before isEarlier
    rw [same, isIt] at notLater
    cases notLater

end Ranked

end Outline

/-! ## Linking -/

variable {one : Registry} {first second : List ScopedDeclaration}

namespace Registry

/-- Two registries hold the same definitions in another order. -/
structure Reordered (ρ : Relabelling) (one two : Registry) : Prop extends Renumbered ρ one two where
  placed : ρ.place = id
  names : (one.definitions.map Definition.name).Perm (two.definitions.map Definition.name)

/-- Names that have moved are looked up at their new places. -/
theorem lookup?_rank (one two : Registry)
    (permuted : (one.definitions.map Definition.name).Perm (two.definitions.map Definition.name))
    (distinct : (one.definitions.map Definition.name).Nodup) (name : String) :
    two.lookup? name = (one.lookup? name).map
      (Reordering.rank (one.definitions.map Definition.name)
        (two.definitions.map Definition.name)) := by
  have otherDistinct := permuted.nodup_iff.mp distinct
  cases found : one.lookup? name with
  | some id =>
    rw [lookup?_eq_some_iff distinct] at found
    rw [Option.map_some, lookup?_eq_some_iff otherDistinct, Reordering.getElem?_rank permuted,
      found]
  | none =>
    cases otherFound : two.lookup? name with
    | none => rfl
    | some id =>
      rw [lookup?_eq_some_iff otherDistinct] at otherFound
      have member := permuted.mem_iff.mpr (mem_of_getElem? otherFound)
      obtain ⟨place, atPlace⟩ := mem_iff_getElem?.mp member
      rw [(lookup?_eq_some_iff distinct).mpr atPlace] at found
      cases found

/-- The registries of declarations in two orders, with fields or not, are reordered if the
definitions of each declaration correspond. -/
theorem reordered_of_outlines {outlines others : List Outline} (permuted : outlines.Perm others)
    (apart : Outline.Apart outlines) (single : Outline.SingleEntry outlines)
    {defns moved : List Definition}
    (named : defns.map Definition.name = outlines.map name)
    (movedNamed : moved.map Definition.name = others.map name)
    (placement : ∀ place, moved[(reordering permuted apart.distinct).number place]? =
      defns[place]?.map (Definition.relabel (reordering permuted apart.distinct))) :
    Reordered (reordering permuted apart.distinct)
      ⟨defns, outlines.findIdx? isEntry⟩
      ⟨moved, others.findIdx? isEntry⟩ := by
  have names : (defns.map Definition.name).Perm (moved.map Definition.name) := by
    rw [named, movedNamed]
    exact permuted.map name
  constructor
  case names => exact names
  case placed => rfl
  constructor
  case definition => exact placement
  case entry => exact findIdx?_reordering permuted apart.distinct single
  case lookup =>
    intro name
    rw [lookup?_rank ⟨defns, outlines.findIdx? isEntry⟩
      ⟨moved, others.findIdx? isEntry⟩ names (named ▸ apart.distinct)]
    dsimp only
    rw [named, movedNamed]
    rfl

/-- Linking succeeds exactly when the names can stand side by side, there is one entry at most, and
every declaration can be linked. -/
theorem link_ok_iff {reg : Registry} :
    link decls = .ok reg ↔ Outline.Apart (all decls) ∧ Outline.SingleEntry (all decls) ∧
      ∃ defns, Forall₂ (fun outline defn =>
          linkOutline (ofOutlines (all decls)) outline = .ok defn)
        (all decls) defns ∧
        reg = ⟨defns, (Outline.all decls).findIdx? Outline.isEntry⟩ := by
  constructor
  · intro linked
    obtain ⟨outlines, collected, rest⟩ := bind_ok_iff.mp linked
    obtain ⟨defns, mapped, same⟩ := bind_ok_iff.mp rest
    obtain ⟨isAll, apart⟩ := collect_ok collected ⟨by simp, by simp⟩
    rw [nil_append] at isAll
    subst isAll
    cases same
    exact ⟨apart, collect_singleEntry .nil collected, defns, mapM_ok_iff.mp mapped, rfl⟩
  · rintro ⟨apart, single, defns, links, rfl⟩
    have collected : decls.foldlM add [] = .ok (all decls) := collect_of_apart apart single
    refine bind_ok_iff.mpr ⟨_, collected, bind_ok_iff.mpr ⟨defns, ?_, rfl⟩⟩
    exact mapM_ok_iff.mpr links

theorem linkOutline_name {names : Registry} {outline : Outline} {defn : Definition}
    (done : linkOutline names outline = .ok defn) : defn.name = outline.name := by
  obtain ⟨fields, rfl, _⟩ := linkOutline_ok done
  exact withFields_name outline fields

/-- Names mean the same declarations in both orders. -/
theorem ofOutlines_reordered {outlines others : List Outline} (permuted : outlines.Perm others)
    (apart : Outline.Apart outlines) (single : Outline.SingleEntry outlines) :
    Reordered (reordering permuted apart.distinct) (ofOutlines outlines)
      (ofOutlines others) := by
  refine reordered_of_outlines permuted apart single ?_ ?_ fun place => ?_
  · rw [map_map]
    rfl
  · rw [map_map]
    rfl
  · rw [getElem?_map, getElem?_map, getElem?_reordering permuted apart.distinct, Option.map_map]
    refine congrArg (Option.map · _) (funext fun outline => ?_)
    rw [Function.comp_apply, ← relabel_definition, relabel_placed rfl]

/-- Declarations in another order are linked to a reordered registry. -/
theorem link_reordered (permuted : first.Perm second) (linked : link first = .ok one) :
    ∃ ρ two, link second = .ok two ∧ Reordered ρ one two := by
  obtain ⟨apart, single, defns, links, rfl⟩ := link_ok_iff.mp linked
  have outlined : (Outline.all first).Perm (Outline.all second) := permuted.filterMap _
  have names := ofOutlines_reordered outlined apart single
  have follows (outline : Outline) :=
    relabel_placed names.placed outline ▸ linkOutline_relabel names.toRenumbered outline
  obtain ⟨moved, mapped⟩ : ∃ moved,
      (Outline.all second).mapM (linkOutline (ofOutlines (Outline.all second))) = .ok moved := by
    refine mapM_ok_of_forall fun outline member => ?_
    obtain ⟨defn, _, found⟩ := exists_right links (outlined.mem_iff.mpr member)
    rw [follows, found]
    exact ⟨_, rfl⟩
  have movedLinks := mapM_ok_iff.mp mapped
  refine ⟨_, _, link_ok_iff.mpr ⟨apart.perm outlined, single.perm outlined, moved, movedLinks, rfl⟩,
    reordered_of_outlines outlined apart single ?_ ?_ fun place => ?_⟩
  · exact (map_eq_of_forall₂ links fun _ _ done => (linkOutline_name done).symm).symm
  · exact (map_eq_of_forall₂ movedLinks fun _ _ done => (linkOutline_name done).symm).symm
  -- The declaration at a place is found at its new number, and so is its definition.
  have samePlace := getElem?_reordering outlined apart.distinct place
  cases found : (Outline.all first)[place]? with
  | none =>
    rw [found, getElem?_eq_none_iff, movedLinks.length_eq] at samePlace
    rw [getElem?_eq_none_iff, links.length_eq] at found
    rw [getElem?_eq_none_iff.mpr samePlace, getElem?_eq_none_iff.mpr found]
    rfl
  | some outline =>
    obtain ⟨defn, atPlace, done⟩ := getElem?_right links found
    obtain ⟨other, atRank, otherDone⟩ := getElem?_right movedLinks (samePlace.trans found)
    rw [follows, done] at otherDone
    cases otherDone
    rw [atPlace, atRank]
    rfl

/-! ## Validation blocks -/

end Registry

namespace ScopedDeclaration

/-- Whether a declaration is a validation block. -/
def isValidation (statement : ScopedDeclaration) : Bool :=
  match statement.declaration with
  | .validation _ => true
  | _ => false

/-- A declaration is no validation block without a target. -/
def NamesTarget (statement : ScopedDeclaration) : Prop :=
  ∀ block, statement.declaration = .validation block → ∃ name, block.target? = some name

end ScopedDeclaration

namespace Registry

/-- Attach a validation block to the definition it names. -/
def attachNamed (registry : Registry) (statement : ScopedDeclaration) : Except Error Registry :=
  match statement.declaration with
  | .validation block => attach registry statement block none
  | _ => .ok registry

/-- A block that names its target does not depend on what precedes it. -/
theorem attach_named {stmt : ScopedDeclaration} {block : ValidationBlock}
    (isBlock : stmt.declaration = .validation block) (names : stmt.NamesTarget)
    (reg : Registry) (preceding? : Option (Nat × Nat)) :
    attach reg stmt block preceding? = attachNamed reg stmt := by
  obtain ⟨name, target⟩ := names block isBlock
  rw [attachNamed, isBlock]
  dsimp only [attach, validationTarget]
  rw [target]

/-- Where all blocks name their targets, only the blocks and their order matter. -/
theorem applyBlocks_named (named : ∀ stmt ∈ decls, stmt.NamesTarget) (next : Nat)
    (preceding? : Option (Nat × Nat)) (reg : Registry) :
    applyBlocks next preceding? reg decls =
      (decls.filter ScopedDeclaration.isValidation).foldlM attachNamed reg := by
  induction decls generalizing next preceding? reg with
  | nil => rfl
  | cons stmt others ih =>
    have othersNamed := fun other member => named other (mem_cons_of_mem stmt member)
    have names := named stmt mem_cons_self
    cases decl : stmt.declaration with
    | moduleImport _ | enumeration _ | record _ | entry _ =>
      rw [applyBlocks, decl, filter_cons_of_neg (by
        rw [ScopedDeclaration.isValidation, decl]; simp)]
      exact ih othersNamed _ _ _
    | validation block =>
      rw [applyBlocks_validation decl, attach_named decl names,
        filter_cons_of_pos (by rw [ScopedDeclaration.isValidation, decl]),
        foldlM_cons]
      exact congrArg _ (funext fun attached => ih othersNamed _ _ attached)

/-- Attaching blocks keeps registries renumbered. -/
theorem attachNamed_renumbered {ρ : Relabelling} (placed : ρ.place = id) {two : Registry}
    (renumbered : Renumbered ρ one two) (blocks : List ScopedDeclaration) :
    ρ.Matches (Renumbered ρ) (blocks.foldlM attachNamed one) (blocks.foldlM attachNamed two) := by
  induction blocks generalizing one two with
  | nil => exact .value renumbered
  | cons stmt others ih =>
    have attached : ρ.Matches (Renumbered ρ) (attachNamed one stmt)
        (attachNamed two stmt) := by
      unfold attachNamed
      cases stmt.declaration with
      | validation block =>
        have matching := attach_relabel renumbered stmt block none
        rw [ScopedDeclaration.relabel_placed placed,
          ValidationBlock.relabel_placed placed] at matching
        exact matching
      | _ => exact .value renumbered
    rw [foldlM_cons, foldlM_cons]
    exact attached.bind fun _ _ next => ih next

/-- Declarations in another order are built to a reordered registry. -/
theorem build_reordered {first second : List ScopedDeclaration} (permuted : first.Perm second)
    (sameBlocks : first.filter ScopedDeclaration.isValidation =
      second.filter ScopedDeclaration.isValidation)
    (named : ∀ stmt ∈ first, stmt.NamesTarget)
    (built : build first = .ok one) : ∃ ρ two, build second = .ok two ∧ Reordered ρ one two := by
  obtain ⟨linked, linkedOk, applied⟩ := bind_ok_iff.mp built
  obtain ⟨ρ, other, otherOk, reordered⟩ := link_reordered permuted linkedOk
  have otherNamed : ∀ stmt ∈ second, stmt.NamesTarget := fun stmt member =>
    named stmt (permuted.mem_iff.mpr member)
  rw [applyBlocks_named named] at applied
  have matching := attachNamed_renumbered reordered.placed reordered.toRenumbered
    (first.filter ScopedDeclaration.isValidation)
  rw [applied] at matching
  cases ended : (first.filter ScopedDeclaration.isValidation).foldlM attachNamed other with
  | error fault =>
    rw [ended] at matching
    cases matching
  | ok two =>
    rw [ended] at matching
    cases matching with
    | value renumbered =>
      have otherBuilt : build second = .ok two := by
        refine bind_ok_iff.mpr ⟨other, otherOk, ?_⟩
        rw [applyBlocks_named otherNamed, ← sameBlocks, ended]
      refine ⟨ρ, two, otherBuilt, renumbered, reordered.placed, ?_⟩
      rw [build_names built, build_names otherBuilt]
      exact (permuted.filterMap _).map name

end Registry

end SchemaLang
