import SchemaLang.Proofs.Declaration.Texts
import SchemaLang.Proofs.Module.Walk

/-!
# Where the declarations of a closure come from

Everything in a closure was read from some text, and every scope is made of aliases, which
are names. So what readers guarantee of declarations holds of all of them, however deep the
imports go and whether the files can be told apart or not. Each visit of a module contributes its
declarations at once, so those of different visits are not mixed.
-/

namespace SchemaLang

open Outcome List

/-! ## What a walk keeps -/

variable {scope? : Option String}

namespace ImportContext

variable {ctx : ImportContext} {closure loaded final : Closure} {path : Path}
  {declarations decls : List Declaration}

/-- Declarations were loaded before, or they are read from a text and kept. -/
theorem load_cases (done : ctx.load closure path = .ok (decls, loaded)) :
    (∃ other, (other, decls) ∈ closure.loaded ∧ loaded = closure) ∨
      ∃ source text, parse source text = .ok decls ∧
        loaded = { closure with loaded := closure.loaded ++ [(path, decls)] } := by
  unfold load at done
  split at done
  · rename_i other found declared
    cases done
    exact .inl ⟨other, mem_of_find?_eq_some declared, rfl⟩
  · split at done
    · cases done
    · obtain ⟨parsed, read, same⟩ := bind_ok_iff.mp done
      cases same
      exact .inr ⟨_, _, read, rfl⟩

/-- What a walk over imports keeps of a closure, where the scopes it leads to are of one kind and
the declarations it meets of another. -/
structure Keeps (context : ImportContext) (reached : Option String → Prop)
    (sound : List Declaration → Prop) (kept : Closure → Prop) : Prop where
  initial : kept {}
  unscoped : reached none
  parsed : ∀ source text declarations, parse source text = .ok declarations → sound declarations
  loads : ∀ closure path declarations loaded, kept closure →
    context.load closure path = .ok (declarations, loaded) → sound declarations ∧ kept loaded
  imports : ∀ scope? declarations item, reached scope? → sound declarations →
    item ∈ importsOf declarations → reached (importScope scope? item)
  contributes : ∀ closure path scope? declarations, kept closure → reached scope? →
    sound declarations → kept (closure.contribute path scope? declarations)

namespace Keeps

variable {reached : Option String → Prop} {sound : List Declaration → Prop} {kept : Closure → Prop}

/-- A visit keeps what contributions and loading do. -/
theorem visit (keeps : ctx.Keeps reached sound kept) {depth : Nat} {chain : List Path}
    (holds : kept closure) (isReached : reached scope?) (isSound : sound decls)
    (done : ctx.visit depth chain path scope? decls closure = .ok final) :
    kept final := by
  induction depth generalizing chain path scope? decls closure final with
  | zero => cases done
  | succ depth ih =>
    rw [visit_succ] at done
    split at done
    · cases done
      exact holds
    · refine foldlM_keeps kept done (keeps.contributes _ _ _ _ holds isReached isSound) ?_
      intro state item next member followed stateHolds
      obtain ⟨target, _, rest⟩ := bind_ok_iff.mp followed
      split at rest
      · cases rest
      · obtain ⟨⟨imported, loaded⟩, read, visited⟩ := bind_ok_iff.mp rest
        obtain ⟨importedSound, loadedHolds⟩ := keeps.loads _ _ _ _ stateHolds read
        exact ih loadedHolds (keeps.imports _ _ _ isReached isSound member)
          importedSound visited

/-- The closure of a file or of a text has what is kept. -/
theorem collected (keeps : ctx.Keeps reached sound kept)
    (done : ctx.closureOf path = .ok final ∨
      ∃ text, ctx.closureOfText text path = .ok final) : kept final := by
  rcases done with done | ⟨text, done⟩
  · obtain ⟨root, _, afterRoot⟩ := bind_ok_iff.mp done
    obtain ⟨⟨decls, loaded⟩, read, visited⟩ := bind_ok_iff.mp afterRoot
    obtain ⟨isSound, loadedHolds⟩ := keeps.loads _ _ _ _ keeps.initial read
    exact keeps.visit loadedHolds keeps.unscoped isSound visited
  · obtain ⟨decls, read, visited⟩ := bind_ok_iff.mp done
    exact keeps.visit keeps.initial keeps.unscoped (keeps.parsed _ _ _ read) visited

end Keeps

end ImportContext

/-! ## Proper declarations -/

/-- A scope is made of plain names. -/
def PlainScope (scope? : Option String) : Prop := ∀ scope, scope? = some scope → PlainName scope

/-- What was read is proper, and what was contributed is proper in a plain scope. -/
structure Closure.Clean (closure : Closure) : Prop where
  loaded : ∀ entry ∈ closure.loaded, ∀ declaration ∈ entry.2, declaration.Proper
  declared : ∀ statement ∈ closure.declarations,
    statement.declaration.Proper ∧ PlainScope statement.scope?

variable {path : Path} {declarations decls : List Declaration}

namespace Closure.Clean

variable {closure : Closure}

theorem initial : Clean {} := ⟨by simp, by simp⟩

/-- A contribution of proper declarations keeps a closure clean. -/
theorem contribute (clean : closure.Clean) {scope? : Option String} (plain : PlainScope scope?)
    (proper : ∀ decl ∈ decls, decl.Proper) :
    (closure.contribute path scope? decls).Clean := by
  refine ⟨clean.loaded, fun stmt member => ?_⟩
  rcases mem_append.mp member with old | new
  · exact clean.declared stmt old
  · obtain ⟨decl, own, rfl⟩ := mem_map.mp new
    exact ⟨proper decl (mem_of_mem_filter own), plain⟩

/-- Loading a file gives proper declarations. -/
theorem load {ctx : ImportContext} (clean : closure.Clean) {loaded : Closure}
    (done : ctx.load closure path = .ok (decls, loaded)) :
    (∀ decl ∈ decls, decl.Proper) ∧ loaded.Clean := by
  obtain ⟨other, isLoaded, rfl⟩ | ⟨source, text, read, rfl⟩ := ImportContext.load_cases done
  · exact ⟨clean.loaded _ isLoaded, clean⟩
  · have proper := parse_proper read
    refine ⟨proper, fun entry member => ?_, clean.declared⟩
    rcases mem_append.mp member with old | new
    · exact clean.loaded entry old
    · rw [mem_singleton.mp new]
      exact proper

end Closure.Clean

variable {closure : Closure}

namespace ImportContext

variable {ctx : ImportContext}

/-- The scope of an import of proper declarations is plain. -/
theorem importScope_plain {scope? : Option String} {decls : List Declaration}
    {item : Import} (plain : PlainScope scope?)
    (proper : ∀ decl ∈ decls, decl.Proper)
    (member : item ∈ importsOf decls) : PlainScope (importScope scope? item) := by
  obtain ⟨decl, declared, isImport⟩ := mem_filterMap.mp member
  have holds := proper decl declared
  cases decl with
  | moduleImport content =>
    cases isImport
    intro scope found
    obtain ⟨given, aliased, rfl⟩ := Option.map_eq_some_iff.mp found
    exact PlainName.qualify plain (holds given aliased)
  | _ => cases isImport

/-- A walk keeps a closure clean. -/
theorem keeps_clean : ctx.Keeps PlainScope
    (fun decls => ∀ decl ∈ decls, decl.Proper) Closure.Clean where
  initial := .initial
  unscoped := by rintro _ ⟨⟩
  parsed := fun _ _ _ read => parse_proper read
  loads := fun _ _ _ _ clean done => clean.load done
  imports := fun _ _ _ plain proper member => importScope_plain plain proper member
  contributes := fun _ _ _ _ clean plain proper => clean.contribute plain proper

/-- Everything in the closure of a text is proper. -/
theorem closureOfText_clean {text : String} {path : Path}
    (done : ctx.closureOfText text path = .ok closure) : closure.Clean :=
  keeps_clean.collected (.inr ⟨text, done⟩)

/-- Everything in the closure of a file is proper. -/
theorem closureOf_clean {path : Path} (done : ctx.closureOf path = .ok closure) : closure.Clean :=
  keeps_clean.collected (.inl done)

end ImportContext

/-! ## The order of contributions -/

/-- Declarations of one contribution stand together, and those of later ones follow. -/
def ContributionsInOrder (declarations : List ScopedDeclaration) : Prop :=
  declarations.Pairwise fun first second => first.unit ≤ second.unit

/-- The declarations of a closure stand in the order of its contributions, which are counted. -/
structure Closure.InOrder (closure : Closure) : Prop where
  rising : ContributionsInOrder closure.declarations
  counted : ∀ statement ∈ closure.declarations, statement.unit < closure.visited.length

/-- A contribution comes after all others. -/
theorem Closure.InOrder.contribute {closure : Closure} (inOrder : closure.InOrder) (path : Path)
    (scope? : Option String) (decls : List Declaration) :
    (closure.contribute path scope? decls).InOrder := by
  have own : ∀ stmt ∈ (decls.filter fun decl => decl.import?.isNone).map
      (fun decl => ScopedDeclaration.mk scope? closure.visited.length decl),
      stmt.unit = closure.visited.length := by
    intro stmt member
    obtain ⟨decl, _, rfl⟩ := mem_map.mp member
    rfl
  constructor
  · refine pairwise_append.mpr ⟨inOrder.rising, ?_, ?_⟩
    · refine pairwise_of_forall_mem_list fun first isFirst second isSecond => ?_
      exact Nat.le_of_eq ((own first isFirst).trans (own second isSecond).symm)
    · intro first isFirst second isSecond
      rw [own second isSecond]
      exact Nat.le_of_lt (inOrder.counted first isFirst)
  · intro stmt member
    show stmt.unit < (closure.visited ++ [(path, scope?)]).length
    rw [length_append, length_singleton]
    rcases mem_append.mp member with old | new
    · exact Nat.lt_succ_of_lt (inOrder.counted stmt old)
    · rw [own stmt new]
      exact Nat.lt_succ_self _

namespace ImportContext

variable {ctx : ImportContext}

/-- A walk adds contributions one after the other. -/
theorem keeps_inOrder :
    ctx.Keeps (fun _ => True) (fun _ => True) Closure.InOrder where
  initial := ⟨List.Pairwise.nil, by simp⟩
  unscoped := trivial
  parsed := fun _ _ _ _ => trivial
  loads := by
    intro closure path decls loaded inOrder done
    obtain ⟨_, _, rfl⟩ | ⟨_, _, _, rfl⟩ := load_cases done
    · exact ⟨trivial, inOrder⟩
    · exact ⟨trivial, inOrder.rising, inOrder.counted⟩
  imports := fun _ _ _ _ _ _ => trivial
  contributes := fun _ path scope? decls inOrder _ _ =>
    inOrder.contribute path scope? decls

end ImportContext

end SchemaLang
