import SchemaLang.Proofs.Compilation.Layout
import SchemaLang.Proofs.Module.StandIn

/-!
# Compiling a file and compiling its text

A module can be compiled by its path or as a text. For a file of the project root both give the
same: the text is compiled as if it lay there too, so its imports mean the same modules, and what
is made of the declarations does not depend on where they were written. Only the file itself is
among the modules of the one and not of the other.
-/

namespace SchemaLang

namespace Compilation

/-- Of a closure, its declarations are compiled and its modules are listed. -/
theorem ofClosure_eq (settings : Settings) (closure : Closure) :
    ofClosure settings closure = (ofClosure settings ⟨[], [], closure.declarations⟩).map
      fun compilation => { compilation with modules := closure.modules } := by
  unfold ofClosure
  cases Registry.build closure.declarations with
  | error fault => rfl
  | ok reg =>
    dsimp only [bind, Except.bind]
    cases JsonSchema.ofRegistry reg with
    | error fault => rfl
    | ok schema =>
      dsimp only
      cases Target.generateAll settings.targets reg <;> rfl

/-- Declarations that are the same but for locations are compiled alike. -/
theorem ofClosure_unplaced (settings : Settings) {closure other : Closure}
    (same : closure.declarations.map (ScopedDeclaration.relabel .unplaced) =
      other.declarations.map (ScopedDeclaration.relabel .unplaced)) :
    (∃ one two, ofClosure settings closure = .ok one ∧ ofClosure settings other = .ok two ∧
      one.schema = two.schema ∧ one.bindings = two.bindings ∧
      one.registry.relabel .unplaced = two.registry.relabel .unplaced ∧
      one.modules = closure.modules ∧ two.modules = other.modules) ∨
    ∃ fault otherFault, ofClosure settings closure = .error fault ∧
      ofClosure settings other = .error otherFault ∧ fault.kind = otherFault.kind := by
  have sameClosure : Closure.relabel .unplaced ⟨[], [], closure.declarations⟩ =
      Closure.relabel .unplaced ⟨[], [], other.declarations⟩ := by
    unfold Closure.relabel
    rw [same]
  have alike : Relabelling.unplaced.outcome (relabel .unplaced)
        (ofClosure settings ⟨[], [], closure.declarations⟩) =
      Relabelling.unplaced.outcome (relabel .unplaced)
        (ofClosure settings ⟨[], [], other.declarations⟩) := by
    rw [← ofClosure_relabel rfl, sameClosure, ofClosure_relabel rfl]
  rw [ofClosure_eq settings closure, ofClosure_eq settings other]
  rcases Relabelling.outcome_eq_iff.mp alike with
    ⟨one, two, made, otherMade, sameMade⟩ | ⟨fault, otherFault, fails, otherFails, sameFault⟩
  · obtain ⟨sameRegistry, sameSchema, sameBindings, _⟩ := Compilation.mk.inj sameMade
    rw [made, otherMade]
    exact .inl ⟨_, _, rfl, rfl, sameSchema, sameBindings, sameRegistry, rfl, rfl⟩
  · rw [fails, otherFails]
    exact .inr ⟨fault, otherFault, rfl, rfl, Error.kind_eq_of_relabel sameFault⟩

/-- Compiling a file of the project root and compiling its text give the same: both succeed, with
the same schema, the same bindings, registries that are the same but for locations and the file in
front of the modules, or both fail with errors of the same kind.

Nothing in the directory may have the name under which texts are compiled. The file is reached by
its path in the directory and read by its true path; both paths are spelled, since either may be
too long for the system. -/
theorem entry_points_agree (tree : FileTree) (settings : Settings) {directory : Path}
    {place : Place} {name text : String} (wellFormed : tree.WellFormed)
    (projectRoot : settings.projectRoot? = some directory)
    (resolved : tree.resolve directory = .ok place)
    (unused : tree.node? (place ++ [textModule.text]) = none)
    (file : tree.resolve (directory.join ⟨name⟩) = .ok (place ++ [name]))
    (content : tree.read (.ofPlace (place ++ [name])) = .ok text) :
    (∃ one two, ofFile tree settings (directory.join ⟨name⟩) = .ok one ∧
      ofText tree settings text = .ok two ∧ one.schema = two.schema ∧
      one.bindings = two.bindings ∧
      one.registry.relabel .unplaced = two.registry.relabel .unplaced ∧
      one.modules = .ofPlace (place ++ [name]) :: two.modules) ∨
    ∃ fault other, ofFile tree settings (directory.join ⟨name⟩) = .error fault ∧
      ofText tree settings text = .error other ∧ fault.kind = other.kind := by
  have proper := FileTree.resolve_proper wellFormed resolved
  have isName : IsFileName name := FileTree.resolve_proper wellFormed file name (by simp)
  have textIsName : IsFileName textModule.text := by decide
  have canonical : (tree.canonical directory).toOption.getD directory = .ofPlace place := by
    rw [FileTree.canonical, resolved]
    rfl
  have stand : (Path.ofPlace place).join textModule = .ofPlace (place ++ [textModule.text]) :=
    Path.join_name proper textIsName
  unfold ofFile ofText
  rw [projectRoot]
  dsimp only [Option.getD_some]
  rw [canonical, stand]
  have treeWellFormed :
      (ImportContext.make tree directory settings.entryFileName).tree.WellFormed := wellFormed
  have closures := ImportContext.sibling_closures treeWellFormed canonical proper isName textIsName
    unused file content
  rcases closures with ⟨real, shadow, fileDone, textDone, sameDeclarations, modules⟩ |
      ⟨fault, other, fileFails, textFails, sameKind⟩
  · rw [fileDone, textDone]
    rcases ofClosure_unplaced settings sameDeclarations with
      ⟨one, two, made, otherMade, sameSchema, sameBindings, sameRegistry, here, there⟩ | failing
    · refine .inl ⟨one, two, made, otherMade, sameSchema, sameBindings, sameRegistry, ?_⟩
      rw [here, there, modules]
    · exact .inr failing
  · rw [fileFails, textFails]
    exact .inr ⟨fault, other, rfl, rfl, sameKind⟩

def carText : String := "import \"./parts\" as parts entry Car \x7b wheel: parts.Wheel[] \x7d"

def loopText : String := "import \"./parts\" import \"./back\" as back"

/-- A project with a module that compiles, and one that is imported back. -/
def garage : FileTree :=
  ⟨[(["garage"], .directory), (["garage", "car.sdl"], .file (.text carText)),
    (["garage", "parts.sdl"], .file (.text "type Wheel \x7b rim: string \x7d")),
    (["garage", "loop.sdl"], .file (.text loopText)),
    (["garage", "back.sdl"], .file (.text "import \"@/loop\""))], []⟩

def garageSettings : Settings := ⟨some ⟨"garage"⟩, [.rust, .typeScript], "index.sdl"⟩

/-- The first module and its text are compiled to the same; the second one and its text both end
in a cycle. -/
theorem entry_points_agree_garage :
    (∃ one two, ofFile garage garageSettings ⟨"garage/car.sdl"⟩ = .ok one ∧
      ofText garage garageSettings carText = .ok two ∧ one.schema = two.schema ∧
      one.bindings = two.bindings ∧
      one.registry.relabel .unplaced = two.registry.relabel .unplaced ∧
      one.modules = ⟨"/garage/car.sdl"⟩ :: two.modules) ∧
    ∃ fault other, ofFile garage garageSettings ⟨"garage/loop.sdl"⟩ = .error fault ∧
      ofText garage garageSettings loopText = .error other ∧ fault.kind = .circularImport ∧
      other.kind = .circularImport := by
  have wellFormed : garage.WellFormed := ⟨by simp [garage, Place.Proper]⟩
  have resolved : garage.resolve ⟨"garage"⟩ = .ok ["garage"] := by rfl
  constructor
  · have agree := entry_points_agree garage garageSettings wellFormed rfl resolved rfl
      (show garage.resolve (Path.join ⟨"garage"⟩ ⟨"car.sdl"⟩) = .ok ["garage", "car.sdl"] by rfl)
      (show garage.read (.ofPlace ["garage", "car.sdl"]) = .ok carText by rfl)
    have succeeds : (ofText garage garageSettings carText).toOption.isSome = true := by
      decide +kernel
    rcases agree with alike | ⟨fault, other, _, fails, _⟩
    · exact alike
    · rw [fails] at succeeds
      cases succeeds
  · have agree := entry_points_agree garage garageSettings wellFormed rfl resolved rfl
      (show garage.resolve (Path.join ⟨"garage"⟩ ⟨"loop.sdl"⟩) = .ok ["garage", "loop.sdl"] by rfl)
      (show garage.read (.ofPlace ["garage", "loop.sdl"]) = .ok loopText by rfl)
    have ended : ((ofText garage garageSettings loopText).mapError Error.kind).map (fun _ => ()) =
        .error .circularImport := by
      decide +kernel
    rcases agree with ⟨one, two, _, done, _⟩ | ⟨fault, other, fails, otherFails, sameKind⟩
    · rw [done] at ended
      cases ended
    · rw [otherFails] at ended
      have isCycle : other.kind = .circularImport := Except.error.inj ended
      exact ⟨fault, other, fails, otherFails, sameKind.trans isCycle, isCycle⟩

end Compilation

end SchemaLang
