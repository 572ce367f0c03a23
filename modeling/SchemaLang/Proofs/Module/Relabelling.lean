import SchemaLang.Proofs.Declaration.Relabelling
import SchemaLang.Proofs.Module.Walk

/-!
# Visiting imports does not depend on locations

Which modules are visited is decided by the paths and aliases of imports. Two visits from
declarations and closures that are the same but for locations read the same files and end in
closures that are the same but for locations, or in the same error but for its location.
-/

namespace SchemaLang

open List Relabelling Closure

variable {ρ : Relabelling}

theorem Declaration.relabel_import? (decl : Declaration) :
    (decl.relabel ρ).import? = decl.import?.map (Import.relabel ρ) := by
  cases decl <;> rfl

theorem importsOf_relabel (decls : List Declaration) :
    importsOf (decls.map (Declaration.relabel ρ)) = (importsOf decls).map (Import.relabel ρ) := by
  unfold importsOf
  rw [filterMap_map, map_filterMap]
  simp only [Function.comp_def, Declaration.relabel_import?]

namespace Closure

def relabel (ρ : Relabelling) (closure : Closure) : Closure where
  loaded := closure.loaded.map (Prod.map id (List.map (Declaration.relabel ρ)))
  visited := closure.visited
  declarations := closure.declarations.map (ScopedDeclaration.relabel ρ)

variable (closure : Closure)

theorem relabel_contribute (path : Path) (scope? : Option String)
    (decls : List Declaration) :
    (closure.contribute path scope? decls).relabel ρ =
      (closure.relabel ρ).contribute path scope? (decls.map (Declaration.relabel ρ)) := by
  have sameOwn : ((decls.map (Declaration.relabel ρ)).filter fun decl =>
        decl.import?.isNone) =
      (decls.filter fun decl => decl.import?.isNone).map
        (Declaration.relabel ρ) := by
    rw [filter_map]
    simp only [Function.comp_def, Declaration.relabel_import?, Option.isNone_map]
  unfold contribute relabel
  rw [sameOwn]
  simp only [map_append, map_map]
  rfl

/-- The entry of a path is found by the path. -/
theorem find?_relabel (path : Path) :
    ((closure.relabel ρ).loaded.find? fun (known, _) => known.alike path) =
      (closure.loaded.find? fun (known, _) => known.alike path).map
        (Prod.map id (map (Declaration.relabel ρ))) := by
  unfold relabel
  rw [find?_map]
  rfl

theorem relabel_load (path : Path) (decls : List Declaration) :
    relabel ρ { closure with loaded := closure.loaded ++ [(path, decls)] } =
      { closure.relabel ρ with
        loaded := (closure.relabel ρ).loaded ++
          [(path, decls.map (Declaration.relabel ρ))] } := by
  unfold relabel
  rw [map_append]
  rfl

theorem relabel_modules : (closure.relabel ρ).modules = closure.modules := by
  unfold modules relabel
  rw [map_map]
  rfl

end Closure

namespace ImportContext

variable (ctx : ImportContext)

theorem locateImport_relabel (importer : Path) {item other : Import}
    (sameItem : item.relabel ρ = other.relabel ρ) :
    ρ.outcome (fun path => path) (ctx.locateImport importer item) =
      ρ.outcome (fun path => path) (ctx.locateImport importer other) := by
  obtain ⟨path, alias?, location⟩ := item
  obtain ⟨otherPath, otherAlias?, otherLocation⟩ := other
  obtain ⟨rfl, rfl, samePlace⟩ : path = otherPath ∧ alias? = otherAlias? ∧
      ρ.place location = ρ.place otherLocation := by
    simpa [Import.relabel] using sameItem
  unfold locateImport locate
  dsimp only
  split
  · rfl
  · simp [outcome, Error.relabel, samePlace]

theorem importScope_relabel {item other : Import} (sameItem : item.relabel ρ = other.relabel ρ)
    (scope? : Option String) : importScope scope? item = importScope scope? other := by
  show importScope scope? (item.relabel ρ) = importScope scope? (other.relabel ρ)
  rw [sameItem]

theorem load_relabel {closure other : Closure} (same : closure.relabel ρ = other.relabel ρ)
    (path : Path) :
    ρ.outcome (Prod.map (map (Declaration.relabel ρ)) (relabel ρ))
        (ctx.load closure path) =
      ρ.outcome (Prod.map (map (Declaration.relabel ρ)) (relabel ρ))
        (ctx.load other path) := by
  have sameFound : (closure.loaded.find? fun (known, _) => known.alike path).map
        (Prod.map id (map (Declaration.relabel ρ))) =
      (other.loaded.find? fun (known, _) => known.alike path).map
        (Prod.map id (map (Declaration.relabel ρ))) := by
    rw [← find?_relabel, same, find?_relabel]
  unfold load
  cases found : closure.loaded.find? fun (known, _) => known.alike path with
  | some entry =>
    cases otherFound : other.loaded.find? fun (known, _) => known.alike path with
    | none =>
      rw [found, otherFound] at sameFound
      cases sameFound
    | some otherEntry =>
      rw [found, otherFound] at sameFound
      have sameDeclarations := (Prod.mk.inj (Option.some.inj sameFound)).2
      exact congrArg Except.ok (Prod.ext sameDeclarations same)
  | none =>
    cases otherFound : other.loaded.find? fun (known, _) => known.alike path with
    | some otherEntry =>
      rw [found, otherFound] at sameFound
      cases sameFound
    | none =>
      dsimp only
      cases ctx.tree.read path with
      | error fault => rfl
      | ok text =>
        dsimp only
        cases parse (ctx.label path) text with
        | error fault => rfl
        | ok decls =>
          refine congrArg Except.ok (Prod.ext rfl ?_)
          rw [Prod.map_snd, Prod.map_snd, relabel_load, relabel_load, same]

theorem visit_relabel (depth : Nat) (chain : List Path) (path : Path) (scope? : Option String)
    {own others : List Declaration} {closure other : Closure}
    (sameOwn : own.map (Declaration.relabel ρ) = others.map (Declaration.relabel ρ))
    (same : closure.relabel ρ = other.relabel ρ) :
    ρ.outcome (relabel ρ) (ctx.visit depth chain path scope? own closure) =
      ρ.outcome (relabel ρ) (ctx.visit depth chain path scope? others other) := by
  induction depth generalizing chain path scope? own others closure other with
  | zero => rfl
  | succ depth ih =>
    have sameVisited : closure.hasVisited path scope? = other.hasVisited path scope? := by
      show (closure.relabel ρ).hasVisited path scope? = (other.relabel ρ).hasVisited path scope?
      rw [same]
    have sameImports : (importsOf own).map (Import.relabel ρ) =
        (importsOf others).map (Import.relabel ρ) := by
      rw [← importsOf_relabel, sameOwn, importsOf_relabel]
    have sameContribution : (closure.contribute path scope? own).relabel ρ =
        (other.contribute path scope? others).relabel ρ := by
      rw [relabel_contribute, same, sameOwn, ← relabel_contribute]
    rw [visit_succ, visit_succ, sameVisited]
    split
    · exact congrArg Except.ok same
    refine outcome_foldlM_congr sameImports ?_ sameContribution
    intro one two item otherItem sameClosure sameItem
    unfold follow
    refine outcome_bind_congr (ctx.locateImport_relabel path sameItem) ?_
    rintro target _ rfl
    split
    · rfl
    refine outcome_bind_congr (ctx.load_relabel sameClosure target) ?_
    rintro ⟨imported, loaded⟩ ⟨otherImported, otherLoaded⟩ sameLoad
    obtain ⟨sameImported, sameLoaded⟩ := Prod.mk.inj sameLoad
    dsimp only
    rw [importScope_relabel sameItem]
    exact ih _ _ _ sameImported sameLoaded

/-- The closures of two texts with tokens that are the same but for locations are so too. -/
theorem closureOfText_relabel (path : Path) {text other : String}
    (sameOwn : ρ.outcome (map (Declaration.relabel ρ)) (parse (ctx.label path) text) =
      ρ.outcome (map (Declaration.relabel ρ)) (parse (ctx.label path) other)) :
    ρ.outcome (relabel ρ) (ctx.closureOfText text path) =
      ρ.outcome (relabel ρ) (ctx.closureOfText other path) :=
  outcome_bind_congr sameOwn fun _ _ same => ctx.visit_relabel _ _ _ _ same rfl

end ImportContext

end SchemaLang
