import SchemaLang.Proofs.JsonSchema.Documents
import SchemaLang.Proofs.JsonSchema.Relabelling
import SchemaLang.Proofs.Registry.Order

/-!
# Documents of reordered registries

References in a document go by name, so a definition is written alike whatever its number is. The
entry is the root of the document in any order. Only the members of `definitions` follow the order
of the registry: they are the same members, in another order.
-/

namespace SchemaLang

open Outcome List Registry Definition

variable {registry reg : Registry} {definitions defns : Members}

namespace JsonSchema

variable {ρ : Relabelling} {one two : Registry}

theorem numbered_names (reg : Registry) :
    reg.numbered.map (fun numbered => numbered.2.name) = reg.definitions.map name := by
  rw [← numbered_definitions, map_map]
  rfl

/-- Every definition has one new number, and every number of the other registry is one. -/
theorem numbered_reordered (reordered : Registry.Reordered ρ one two)
    (distinct : (one.definitions.map name).Nodup) :
    two.numbered.Perm (one.numbered.map (moved ρ)) := by
  have otherDistinct := reordered.names.nodup_iff.mp distinct
  have movedNames : (one.numbered.map (moved ρ)).map (fun numbered => numbered.2.name) =
      one.definitions.map name := by
    rw [map_map, ← numbered_names]
    rfl
  have twoNodup : two.numbered.Nodup :=
    List.Nodup.of_map (fun numbered => numbered.2.name) (by rwa [numbered_names])
  have movedNodup : (one.numbered.map (moved ρ)).Nodup :=
    List.Nodup.of_map (fun numbered => numbered.2.name) (by rwa [movedNames])
  refine (perm_ext_iff_of_nodup twoNodup movedNodup).mpr ?_
  rintro ⟨place, defn⟩
  rw [mem_numbered, mem_map]
  constructor
  · intro found
    have named : (two.definitions.map name)[place]? = some defn.name := by
      rw [getElem?_map, show two.definitions[place]? = some defn from found]
      rfl
    obtain ⟨original, member, sameName⟩ :=
      mem_map.mp (reordered.names.mem_iff.mpr (mem_of_getElem? named))
    obtain ⟨id, atId⟩ := mem_iff_getElem?.mp member
    have atNumber : two.get? (ρ.number id) = some (original.relabel ρ) := by
      rw [reordered.definition, show one.get? id = some original from atId]
      rfl
    have numberNamed :
        (two.definitions.map name)[ρ.number id]? = some defn.name := by
      rw [getElem?_map, show two.definitions[ρ.number id]? = some (original.relabel ρ)
        from atNumber, ← sameName]
      rfl
    obtain ⟨bound, _⟩ := List.getElem?_eq_some_iff.mp numberNamed
    have samePlace : ρ.number id = place :=
      (getElem?_inj bound otherDistinct).mp (numberNamed.trans named.symm)
    rw [samePlace, found] at atNumber
    refine ⟨(id, original), mem_numbered.mpr atId, ?_⟩
    exact Prod.ext samePlace (Option.some.inj atNumber).symm
  · rintro ⟨⟨id, original⟩, numbered, same⟩
    obtain ⟨rfl, rfl⟩ := Prod.mk.inj same
    rw [reordered.definition, mem_numbered.mp numbered]
    rfl

theorem others_reordered (reordered : Registry.Reordered ρ one two)
    (distinct : (one.definitions.map name).Nodup) :
    (others two).Perm ((others one).map (moved ρ)) := by
  rw [← filter_moved reordered.toRenumbered]
  exact (numbered_reordered reordered distinct).filter _

/-- Two documents have the same members, but for the order of the definitions. -/
def SameUpToOrder (first second : Json) : Prop :=
  ∃ members definitions reordered : Members,
    first = .object (members ++ [("definitions", .object definitions)]) ∧
    second = .object (members ++ [("definitions", .object reordered)]) ∧
    definitions.Perm reordered

/-- The members of `defns` have the names of the definitions. -/
theorem writeMember_names {items : List (Nat × Definition)}
    (written : Forall₂ (fun item member => writeMember reg item = .ok member) items
      defns) : defns.map Prod.fst = items.map fun numbered => numbered.2.name := by
  refine (map_eq_of_forall₂ written fun item member done => ?_).symm
  obtain ⟨members, _, same⟩ := bind_ok_iff.mp done
  cases same
  rfl

/-- The other definitions are written to the same members, in the order of the registry. -/
theorem writeMember_reordered (reordered : Registry.Reordered ρ one two)
    (distinct : (one.definitions.map name).Nodup)
    (mapped : (others one).mapM (writeMember one) = .ok defns) :
    ∃ written, (others two).mapM (writeMember two) = .ok written ∧ defns.Perm written := by
  have inPlace : ((others one).map (moved ρ)).mapM (writeMember two) = .ok defns := by
    rw [Relabelling.outcome_mapM_values fun item _ =>
      writeMember_moved reordered.toRenumbered item, mapped]
    rfl
  obtain ⟨written, pairwise, permuted⟩ := perm_comp_forall₂
    (others_reordered reordered distinct) (mapM_ok_iff.mp inPlace)
  exact ⟨written, mapM_ok_iff.mpr pairwise, permuted.symm⟩

/-- Members of `defns` have different names, so none of them takes the place of another. -/
theorem ofMembers_written (distinct : (reg.definitions.map name).Nodup)
    (mapped : (others reg).mapM (writeMember reg) = .ok defns) :
    Json.ofMembers defns = .object defns := by
  refine Json.ofMembers_of_nodup ?_
  rw [writeMember_names (mapM_ok_iff.mp mapped)]
  rw [← numbered_names] at distinct
  exact distinct.sublist (filter_sublist.map _)

/-- A registry that can be written can be written in another order, to the same document but for
the order of the definitions. -/
theorem ofRegistry_reordered (reordered : Registry.Reordered ρ one two)
    (distinct : (one.definitions.map name).Nodup) {document : Json}
    (emitted : ofRegistry one = .ok document) :
    ∃ other, ofRegistry two = .ok other ∧ SameUpToOrder document other := by
  rw [ofRegistry_eq] at emitted
  obtain ⟨root, rootOk, rest⟩ := bind_ok_iff.mp emitted
  obtain ⟨defns, mapped, same⟩ := bind_ok_iff.mp rest
  obtain ⟨written, otherMapped, permuted⟩ := writeMember_reordered reordered distinct mapped
  have otherRoot : rootMembers two = .ok root := by
    rw [rootMembers_relabel reordered.toRenumbered, rootOk]
    rfl
  have otherDistinct := reordered.names.nodup_iff.mp distinct
  rw [ofMembers_written distinct mapped] at same
  cases same
  refine ⟨.object ([("$schema", .string dialect)] ++ root ++ [("definitions", .object written)]),
    ?_, [("$schema", .string dialect)] ++ root, defns, written, rfl, rfl, permuted⟩
  rw [ofRegistry_eq, otherRoot]
  refine bind_ok_iff.mpr ⟨root, rfl, bind_ok_iff.mpr ⟨written, otherMapped, ?_⟩⟩
  rw [ofMembers_written otherDistinct otherMapped]
  rfl

end JsonSchema

/-- The order of declarations does not matter. Whether a registry can be built, and whether its
document can be written, is the same in any order; the registries differ in the numbers of their
definitions, and the documents in the order of the members of `definitions`. The validation blocks
keep their order and each names its target.

Declarations that can be built in one order can be built in the other one, so both directions
follow from exchanging the orders. -/
theorem declaration_order_irrelevant {first second : List ScopedDeclaration}
    (permuted : first.Perm second)
    (sameBlocks : first.filter ScopedDeclaration.isValidation =
      second.filter ScopedDeclaration.isValidation)
    (named : ∀ statement ∈ first, statement.NamesTarget) :
    ((∃ one, Registry.build first = .ok one) ↔ ∃ two, Registry.build second = .ok two) ∧
    ∀ one two, Registry.build first = .ok one → Registry.build second = .ok two →
      (∃ ρ, Registry.Reordered ρ one two) ∧
      ((∃ document, JsonSchema.ofRegistry one = .ok document) ↔
        ∃ other, JsonSchema.ofRegistry two = .ok other) ∧
      ∀ document other, JsonSchema.ofRegistry one = .ok document →
        JsonSchema.ofRegistry two = .ok other → JsonSchema.SameUpToOrder document other := by
  have otherNamed : ∀ statement ∈ second, statement.NamesTarget := fun statement member =>
    named statement (permuted.mem_iff.mpr member)
  refine ⟨⟨?_, ?_⟩, fun one two built otherBuilt => ?_⟩
  · rintro ⟨one, built⟩
    obtain ⟨_, two, otherBuilt, _⟩ := build_reordered permuted sameBlocks named built
    exact ⟨two, otherBuilt⟩
  · rintro ⟨two, built⟩
    obtain ⟨_, one, otherBuilt, _⟩ := build_reordered permuted.symm sameBlocks.symm otherNamed built
    exact ⟨one, otherBuilt⟩
  · have forth : ∃ ρ, Registry.Reordered ρ one two := by
      obtain ⟨ρ, registry, again, reordered⟩ := build_reordered permuted sameBlocks named built
      cases again.symm.trans otherBuilt
      exact ⟨ρ, reordered⟩
    have back : ∃ ρ, Registry.Reordered ρ two one := by
      obtain ⟨ρ, registry, again, reordered⟩ :=
        build_reordered permuted.symm sameBlocks.symm otherNamed otherBuilt
      cases again.symm.trans built
      exact ⟨ρ, reordered⟩
    obtain ⟨ρ, reordered⟩ := forth
    obtain ⟨σ, restored⟩ := back
    have oneDistinct := build_distinct built
    have twoDistinct := build_distinct otherBuilt
    refine ⟨⟨ρ, reordered⟩, ⟨?_, ?_⟩, fun document other emitted otherEmitted => ?_⟩
    · rintro ⟨document, emitted⟩
      obtain ⟨other, otherEmitted, _⟩ :=
        JsonSchema.ofRegistry_reordered reordered oneDistinct emitted
      exact ⟨other, otherEmitted⟩
    · rintro ⟨other, otherEmitted⟩
      obtain ⟨document, emitted, _⟩ :=
        JsonSchema.ofRegistry_reordered restored twoDistinct otherEmitted
      exact ⟨document, emitted⟩
    · obtain ⟨written, again, alike⟩ :=
        JsonSchema.ofRegistry_reordered reordered oneDistinct emitted
      cases again.symm.trans otherEmitted
      exact alike

/-- Types that refer to one another, the entry first. -/
def carTypes : List ScopedDeclaration :=
  [⟨none, 0, .entry ⟨"Car", [⟨"wheels", .array (.reference "Wheel"), .builtin⟩], .builtin⟩⟩,
    ⟨some "parts", 1, .enumeration ⟨"Rim", ["steel", "alloy"], .builtin⟩⟩,
    ⟨none, 0, .record ⟨"Wheel", [⟨"rim", .reference "parts.Rim", .builtin⟩,
      ⟨"label", .primitive .string, .builtin⟩, ⟨"car", .optional (.reference "Car"), .builtin⟩],
      .builtin⟩⟩]

/-- Two blocks for the same field. -/
def carBlocks : List ScopedDeclaration :=
  [⟨none, 0, .validation ⟨some "Wheel",
      [⟨"label", [⟨"one_of", [.text "a", .text "b"], .builtin⟩], .builtin⟩], .builtin⟩⟩,
    ⟨none, 0, .validation ⟨some "Wheel",
      [⟨"label", [⟨"min_length", [.number (.finite false 0)], .builtin⟩], .builtin⟩], .builtin⟩⟩]

/-- The types can be reversed and put behind the blocks. Both orders are built and written. -/
theorem declaration_order_irrelevant_cars :
    ∃ one two document other ρ, Registry.build (carTypes ++ carBlocks) = .ok one ∧
      Registry.build (carBlocks ++ carTypes.reverse) = .ok two ∧
      Registry.Reordered ρ one two ∧ JsonSchema.ofRegistry one = .ok document ∧
      JsonSchema.ofRegistry two = .ok other ∧ JsonSchema.SameUpToOrder document other := by
  have permuted : (carTypes ++ carBlocks).Perm (carBlocks ++ carTypes.reverse) :=
    (carTypes.reverse_perm.symm.append_right carBlocks).trans List.perm_append_comm
  have named : ∀ statement ∈ carTypes ++ carBlocks, statement.NamesTarget := by
    simp [carTypes, carBlocks, ScopedDeclaration.NamesTarget]
  obtain ⟨sameBuilding, alike⟩ := declaration_order_irrelevant permuted rfl named
  obtain ⟨document, emitted⟩ := Outcome.ok_of_isSome
    (show (build (carTypes ++ carBlocks) >>= JsonSchema.ofRegistry).toOption.isSome = true
      by decide +kernel)
  obtain ⟨one, built, written⟩ := Outcome.bind_ok_iff.mp emitted
  obtain ⟨two, otherBuilt⟩ := sameBuilding.mp ⟨one, built⟩
  obtain ⟨⟨ρ, reordered⟩, sameWriting, sameDocument⟩ := alike one two built otherBuilt
  obtain ⟨other, otherWritten⟩ := sameWriting.mp ⟨document, written⟩
  exact ⟨one, two, document, other, ρ, built, otherBuilt, reordered, written, otherWritten,
    sameDocument document other written otherWritten⟩

end SchemaLang
