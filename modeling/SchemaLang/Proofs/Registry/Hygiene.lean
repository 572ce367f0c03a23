import SchemaLang.Proofs.Module.Contributions
import SchemaLang.Proofs.Registry.Linking

/-!
# Hygiene of references

A reference is looked up by a text: first the name inside the scope of its declaration, then
the name alone. Scopes are aliases joined by points, so the texts of different modules meet
in one list. What keeps them apart is that no full name occurs twice in a registry that was
built: whichever contribution declares a full name, it is the only one, and a lookup of that
name ends there.

A reference therefore means what its own module says: its own declaration of that name in
the same contribution, what the module behind an alias declares, contributed to the scope of
that alias, and what a module imported without an alias declares, contributed to no scope,
unless the scope itself has the name.
-/

namespace SchemaLang

open Outcome List Registry ImportContext

/-- The reference that a declaration writes at a place: the position of a field, and the
position among the references of its type. -/
def Declaration.referenceAt? (declaration : Declaration) (position place : Nat) :
    Option String :=
  declaration.fields[position]?.bind fun field => field.type.references[place]?

variable {name : String} {declaration decl : Declaration}

/-- Only declarations with names write references. -/
theorem Declaration.name?_of_referenceAt? {position place : Nat}
    (written : decl.referenceAt? position place = some name) :
    ∃ own, decl.name? = some own := by
  cases decl with
  | record content | entry content => exact ⟨content.name, rfl⟩
  | moduleImport _ | enumeration _ | validation _ => simp [referenceAt?, fields] at written

/-- The number that a definition refers to at a place. -/
def Definition.referenceAt? (definition : Definition) (position place : Nat) : Option Nat :=
  definition.fields[position]?.bind fun field => field.type.references[place]?

variable {scope? : Option String}

namespace Registry

variable {registry reg : Registry} {decls : List ScopedDeclaration}

/-- A registry that was built refers, at the place of each written reference, to what the
name means in the scope of its declaration. -/
theorem build_referenceAt? (built : build decls = .ok reg) {owner : Nat}
    {outline : Outline} {position place : Nat}
    (stated : (Outline.all decls)[owner]? = some outline)
    (written : outline.statement.declaration.referenceAt? position place = some name) :
    ∃ defn target, reg.get? owner = some defn ∧
      defn.referenceAt? position place = some target ∧
      reg.lookupIn? outline.statement.scope? name = some target := by
  obtain ⟨_, pairwise, _⟩ := build_ok built
  obtain ⟨defn, found, linked⟩ := getElem?_right pairwise stated
  obtain ⟨fields, same, fieldwise⟩ := linkOutline_ok linked
  obtain ⟨field, fieldFound, reference⟩ := Option.bind_eq_some_iff.mp written
  obtain ⟨linkedField, linkedFound, fieldLinked⟩ := getElem?_right fieldwise fieldFound
  obtain ⟨_, _, references⟩ := linkField_ok fieldLinked
  obtain ⟨target, targetFound, means⟩ := getElem?_right references reference
  refine ⟨defn, target, found, ?_, ?_⟩
  · have skeletons : defn.fields.map DefinedField.skeleton = fields := by
      rw [← Definition.skeleton_fields, same, withFields_fields fieldwise]
    rw [← skeletons, getElem?_map, Option.map_eq_some_iff] at linkedFound
    obtain ⟨original, originalFound, rfl⟩ := linkedFound
    simpa [Definition.referenceAt?, originalFound, DefinedField.skeleton] using targetFound
  · rw [← build_lookupIn? built]
    exact means

/-- What has the name inside the scope is what the name means there. -/
theorem lookupIn?_of_lookup? {id : Nat} (found : reg.lookup? (qualify scope? name) = some id) :
    reg.lookupIn? scope? name = some id := by
  cases scope? with
  | none => exact found
  | some scope =>
    simp only [lookupIn?, found]
    rfl

/-- A name that the scope does not have means what it means outside. -/
theorem lookupIn?_of_outside {id : Nat} (found : reg.lookup? name = some id)
    (outside : ∀ scope, scope? = some scope →
      reg.lookup? (qualify (some scope) name) = none) :
    reg.lookupIn? scope? name = some id := by
  cases scope? with
  | none => exact found
  | some scope =>
    simp only [lookupIn?, outside scope rfl]
    exact found

end Registry

/-- A name behind an alias, inside a scope, is the name inside the scope of the alias. -/
theorem qualify_qualify (scope? : Option String) (given name : String) :
    qualify (some (qualify scope? given)) name = qualify scope? (given ++ "." ++ name) := by
  cases scope? with
  | none => rfl
  | some scope => simp [qualify, String.append_assoc]

/-- The statements of merged declarations are those of the contributions. -/
theorem ImportGraph.mem_declarationsOf {graph : ImportGraph} {pairs : List Contribution}
    {stmt : ScopedDeclaration} :
    stmt ∈ graph.declarationsOf pairs ↔
      ∃ pair, pairs[stmt.unit]? = some pair ∧ stmt.scope? = pair.2 ∧
        stmt.declaration ∈ graph.ownOf pair.1 := by
  unfold declarationsOf
  rw [mem_flatMap]
  constructor
  · rintro ⟨⟨pair, unit⟩, member, inside⟩
    obtain ⟨decl, own, rfl⟩ := mem_map.mp inside
    exact ⟨pair, mem_zipIdx_iff_getElem?.mp member, rfl, own⟩
  · rintro ⟨pair, found, scope, own⟩
    obtain ⟨scope?, unit, decl⟩ := stmt
    dsimp only at found scope own
    subst scope
    exact ⟨(pair, unit), mem_zipIdx_iff_getElem?.mpr found, mem_map_of_mem own⟩

/-- A definition comes from a declaration that a contribution makes. -/
structure Registry.ComesFrom (registry : Registry) (closure : Closure) (id : Nat)
    (pair : ImportGraph.Contribution) (unit : Nat) (declaration : Declaration) : Prop where
  contribution : closure.visited[unit]? = some pair
  stated : ((Outline.all closure.declarations)[id]?).map Outline.statement =
    some ⟨pair.2, unit, declaration⟩
  named : (registry.get? id).map Definition.name = declaration.name?.map (qualify pair.2)

namespace Closure.Merges

variable {closure : Closure} {graph : ImportGraph} {registry reg : Registry}

/-- A name that a contribution declares is the full name of a definition that comes from
there, and of no other. -/
theorem comesFrom (merges : closure.Merges graph)
    (built : build closure.declarations = .ok reg) {unit : Nat}
    {pair : ImportGraph.Contribution} {decls : List Declaration}
    (contribution : closure.visited[unit]? = some pair)
    (contents : graph.contents pair.1 = .ok decls) (member : decl ∈ decls)
    (named : decl.name? = some name) :
    ∃ id, reg.lookup? (qualify pair.2 name) = some id ∧
      reg.ComesFrom closure id pair unit decl := by
  have noImport : decl.import?.isNone = true := by
    cases decl <;> simp_all [Declaration.name?, Declaration.import?]
  have stated : (⟨pair.2, unit, decl⟩ : ScopedDeclaration) ∈ closure.declarations := by
    rw [merges.declarations, ImportGraph.mem_declarationsOf]
    refine ⟨pair, contribution, rfl, ?_⟩
    simp [ImportGraph.ownOf, contents, Except.toOption, member, noImport]
  have outlined : (⟨qualify pair.2 name, pair.2, unit, decl⟩ : Outline) ∈
      Outline.all closure.declarations := by
    refine mem_filterMap.mpr ⟨_, stated, ?_⟩
    simp [Outline.ofStatement?, ScopedDeclaration.qualifiedName?, named]
  obtain ⟨id, found⟩ := mem_iff_getElem?.mp outlined
  have means : reg.lookup? (qualify pair.2 name) = some id := by
    rw [lookup?_eq_some_iff (build_distinct built), build_names built, getElem?_map, found]
    rfl
  refine ⟨id, means, contribution, by rw [found]; rfl, ?_⟩
  have atId := (lookup?_eq_some_iff (build_distinct built)).mp means
  rw [getElem?_map] at atId
  rw [named]
  exact atId

/-- What an import of a contribution leads to contributes to the scope of the import. -/
theorem imported (merges : closure.Merges graph) {unit : Nat} {path target : Path}
    {own : List Declaration} {item : Import}
    (contribution : closure.visited[unit]? = some (path, scope?))
    (contents : graph.contents path = .ok own) (member : item ∈ importsOf own)
    (located : graph.context.locateImport path item = .ok target) :
    ∃ other : Nat,
      closure.visited[other]? = some (target, importScope scope? item) := by
  have contributes := (merges.contributions _).mp (mem_of_getElem? contribution)
  have brings : graph.Brings (path, scope?) (target, importScope scope? item) :=
    ⟨own, contents, item, member, located, rfl⟩
  exact mem_iff_getElem?.mp ((merges.contributions _).mpr (contributes.tail brings))

end Closure.Merges

/-- References are hygienic. In the registry of a closure, take any reference that a
contribution of a module writes. If the module declares the name itself, the reference means
that declaration in the same contribution. If the name stands behind an alias of the module,
it means the declaration of the module behind the alias, contributed to the scope of the
alias. If a module imported without an alias declares the name, the reference means that
declaration, contributed to no scope, unless the scope of the reference has the name. -/
theorem references_are_hygienic {context : ImportContext} (wellFormed : context.tree.WellFormed)
    {graph : ImportGraph} {closure : Closure} {registry : Registry}
    (resolved : context.Resolved graph closure)
    (built : Registry.build closure.declarations = .ok registry)
    {unit : Nat} {path : Path} {scope? : Option String} {own : List Declaration}
    (contribution : closure.visited[unit]? = some (path, scope?))
    (contents : graph.contents path = .ok own)
    {writer : Declaration} (member : writer ∈ own) {position place : Nat} {name : String}
    (written : writer.referenceAt? position place = some name) :
    ∃ owner definition target, registry.ComesFrom closure owner (path, scope?) unit writer ∧
      registry.get? owner = some definition ∧
      definition.referenceAt? position place = some target ∧
      (∀ declaration ∈ own, declaration.name? = some name →
        registry.ComesFrom closure target (path, scope?) unit declaration) ∧
      (∀ item ∈ importsOf own, ∀ module imported,
        graph.context.locateImport path item = .ok module →
        graph.contents module = .ok imported →
        ∀ declaration ∈ imported, ∀ simple, declaration.name? = some simple →
          (∀ given, item.alias? = some given → name = given ++ "." ++ simple →
            ∃ other, registry.ComesFrom closure target (module, some (qualify scope? given)) other
              declaration) ∧
          (item.alias? = none → name = simple →
            (∀ scope, scope? = some scope →
              registry.lookup? (qualify (some scope) name) = none) →
            ∃ other, registry.ComesFrom closure target (module, none) other declaration)) := by
  have merges := resolved.merges wellFormed
  obtain ⟨ownName, ownNamed⟩ := Declaration.name?_of_referenceAt? written
  obtain ⟨owner, _, origin⟩ := merges.comesFrom built contribution contents member ownNamed
  obtain ⟨outline, stated, statement⟩ := Option.map_eq_some_iff.mp origin.stated
  have writtenThere : outline.statement.declaration.referenceAt? position place = some name := by
    rw [statement]
    exact written
  obtain ⟨definition, target, found, refers, means⟩ := build_referenceAt? built stated writtenThere
  have means : registry.lookupIn? scope? name = some target := by
    rw [statement] at means
    exact means
  refine ⟨owner, definition, target, origin, found, refers, ?_, ?_⟩
  · intro declaration declared named
    obtain ⟨id, full, comes⟩ := merges.comesFrom built contribution contents declared named
    obtain rfl : id = target := Option.some.inj ((lookupIn?_of_lookup? full).symm.trans means)
    exact comes
  · intro item imports module imported located importedContents declaration declared simple named
    obtain ⟨other, contributed⟩ := merges.imported contribution contents imports located
    obtain ⟨id, full, comes⟩ := merges.comesFrom built contributed importedContents declared named
    constructor
    · intro given aliased same
      have scope : importScope scope? item = some (qualify scope? given) := by
        simp [importScope, aliased]
      rw [scope] at full comes
      rw [qualify_qualify, ← same] at full
      obtain rfl : id = target := Option.some.inj ((lookupIn?_of_lookup? full).symm.trans means)
      exact ⟨other, comes⟩
    · intro unaliased same outside
      have scope : importScope scope? item = none := by
        simp [importScope, unaliased]
      rw [scope] at full comes
      obtain rfl : id = target := by
        refine Option.some.inj ((lookupIn?_of_outside ?_ outside).symm.trans means)
        rw [same]
        exact full
      exact ⟨other, comes⟩

/-- A module that is imported under an alias and declares a name that its importer declares
as well. -/
def sharedNames : ImportContext where
  tree := ⟨[
    (["a.sdl"], .file (.text
      "import \"./b\" as b\ntype D \x7b \x7d\nentry A \x7b x: b.B \x7d")),
    (["b.sdl"], .file (.text "type B \x7b y: D \x7d\ntype D \x7b \x7d"))], []⟩
  root := ⟨"/"⟩
  entryFileName := "index.sdl"

/-- Inside the imported module the name means its own declaration, not that of the importer. -/
theorem sharedNames_reference :
    sharedNames.tree.WellFormed ∧ ∃ graph closure registry own writer,
      sharedNames.Resolved graph closure ∧
      Registry.build closure.declarations = .ok registry ∧
      closure.visited[1]? = some (⟨"/b.sdl"⟩, some "b") ∧
      graph.contents ⟨"/b.sdl"⟩ = .ok own ∧ writer ∈ own ∧
      writer.referenceAt? 0 0 = some "D" ∧
      ∃ owner definition target, registry.get? owner = some definition ∧
        definition.referenceAt? 0 0 = some target ∧
        (registry.get? target).map Definition.name = some "b.D" := by
  have wellFormed : sharedNames.tree.WellFormed := ⟨by simp [sharedNames, Place.Proper]⟩
  obtain ⟨root, located, isRoot⟩ := Outcome.ok_of_view
    (show (sharedNames.locate ⟨"/a.sdl"⟩ "/a.sdl" none).toOption.map id = some ⟨"/a.sdl"⟩ by
      decide +kernel)
  obtain ⟨rootOwn, readable, _⟩ := Outcome.ok_of_view
    (show (sharedNames.readModule ⟨"/a.sdl"⟩).toOption.map List.length = some 3 by decide +kernel)
  obtain ⟨own, contents, shape⟩ := Outcome.ok_of_view
    (show (sharedNames.readModule ⟨"/b.sdl"⟩).toOption.map (fun own =>
        (own[0]?.bind (·.referenceAt? 0 0), own[1]?.bind Declaration.name?)) =
      some (some "D", some "D") by decide +kernel)
  obtain ⟨closure, done, view⟩ := Outcome.ok_of_view
    (show (sharedNames.closureOf ⟨"/a.sdl"⟩).toOption.map (fun closure =>
        (closure.visited[1]?, (build closure.declarations).toOption.isSome)) =
      some (some (⟨"/b.sdl"⟩, some "b"), true) by decide +kernel)
  subst isRoot
  have resolved : sharedNames.Resolved ⟨sharedNames, ⟨"/a.sdl"⟩, rootOwn⟩ closure :=
    .file located readable done
  rw [← ImportGraph.contents_of_away ⟨sharedNames, ⟨"/a.sdl"⟩, rootOwn⟩
    (by decide +kernel : Path.alike ⟨"/b.sdl"⟩ ⟨"/a.sdl"⟩ = false)] at contents
  obtain ⟨contribution, isBuilt⟩ := Prod.mk.inj view
  obtain ⟨registry, built⟩ : ∃ registry, build closure.declarations = .ok registry := by
    cases built : build closure.declarations with
    | error fault =>
      rw [built] at isBuilt
      cases isBuilt
    | ok registry => exact ⟨registry, rfl⟩
  obtain ⟨writes, declares⟩ := Prod.mk.inj shape
  obtain ⟨writer, isWriter, written⟩ := Option.bind_eq_some_iff.mp writes
  obtain ⟨declaration, isDeclaration, named⟩ := Option.bind_eq_some_iff.mp declares
  have member := List.mem_of_getElem? isWriter
  obtain ⟨owner, definition, target, _, found, refers, meaning, _⟩ := references_are_hygienic
    wellFormed resolved built contribution contents member written
  have comes := meaning declaration (List.mem_of_getElem? isDeclaration) named
  refine ⟨wellFormed, _, closure, registry, own, writer, resolved, built, contribution, contents,
    member, written, owner, definition, target, found, refers, ?_⟩
  rw [comes.named, named]
  rfl

end SchemaLang
