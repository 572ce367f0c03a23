import SchemaLang.Bindings.Rust
import SchemaLang.Bindings.TypeScript

/-!
# Generating bindings

The bindings of a registry for a target: the preamble and the definitions in the
order of their numbers, each block on lines of its own.
-/

namespace SchemaLang

namespace RustBindings

/-- The definitions as text, one after the other. -/
def generate (registry : Registry) : Except Error (List String) :=
  ((registry.numbered.mapM fun (id, definition) => ofDefinition registry id definition).run.run
    {}).1

end RustBindings

namespace TypeScriptBindings

/-- The definitions as text, one after the other. -/
def generate (registry : Registry) : Except Error (List String) :=
  registry.definitions.mapM (ofDefinition registry)

end TypeScriptBindings

namespace Target

/-- The lines before the first definition. -/
def preamble : Target → List String
  | .rust => RustBindings.preamble
  | .typeScript => TypeScriptBindings.preamble

/-- The definitions of a registry as text. -/
def blocks (target : Target) (registry : Registry) : Except Error (List String) :=
  match target with
  | .rust => RustBindings.generate registry
  | .typeScript => TypeScriptBindings.generate registry

/-- The bindings of a registry. -/
def generate (target : Target) (registry : Registry) : Except Error String := do
  target.checkIdentifiers registry
  return "\n".intercalate (target.preamble ++ (← target.blocks registry))

/-- The bindings for several targets, in the order asked for. -/
def generateAll (targets : List Target) (registry : Registry) :
    Except Error (List (Target × String)) :=
  targets.mapM fun target => do return (target, ← target.generate registry)

end Target

end SchemaLang
