import SchemaLang.Bindings.Target
import SchemaLang.Error.ConstraintFault
import SchemaLang.Error.Construct
import SchemaLang.Error.SettingsFault
import SchemaLang.Expectation
import SchemaLang.Files.Tree
import SchemaLang.JsonSchema.Fault
import SchemaLang.Token

/-!
# Errors

Everything that can stop a compilation or a check, as a cause. The wording of all
of them is the one function `Error.message`. Where a message ends in the
explanation of a fault in a nested language (a pattern, a JSON text, a schema
document), `Error.explanation?` is that ending.
-/

namespace SchemaLang

/-- Faults that no source text causes by itself. -/
inductive InternalFault where
  | unterminatedTokens
  | danglingType (id : Nat)
  | invalidSchema (fault : JsonSchema.Fault)
deriving DecidableEq, Repr

namespace InternalFault

/-- What is wrong, in words. -/
def message : InternalFault → String
  | .unterminatedTokens => "token stream is not terminated by EOF"
  | .danglingType id => s!"dangling type id {id}"
  | .invalidSchema fault => fault.message

/-- The words that explain a fault of a nested language. -/
def explanation? : InternalFault → Option String
  | .invalidSchema fault => some fault.explanation
  | _ => none

end InternalFault

/-- Why there is no result. -/
inductive Error where
  | file (fault : FileFault)
  | characters (text : String) (location : Location)
  | unterminatedString (location : Location)
  | unexpected (found : Token) (expected : Expectation)
  | moduleNotFound (path : String) (reason : FileFault) (location : Option Location)
  | circularImport (cycle : List String)
  | duplicateDeclaration (name : String) (location previous : Location)
  | multipleEntries (name previous : String) (location : Location)
  | unresolvedReference (name field owner : String) (location : Location)
  | unknownConstraint (function : String) (location : Location)
  | invalidConstraint (fault : ConstraintFault) (location : Location)
  | conflictingConstraint (owner field keyword : String) (location : Location)
  | unsupported (target : Target) (construct : Construct) (location : Location)
  | unknownTarget (name : String)
  | configuration (subject : String) (fault : SettingsFault)
  | internal (fault : InternalFault)
deriving DecidableEq, Repr

namespace Error

/-- The explanation of a nested language at the end of the message. -/
def explanation? : Error → Option String
  | .invalidConstraint fault _ => fault.explanation?
  | .configuration _ fault => some fault.message
  | .internal fault => fault.explanation?
  | _ => none

/-- The error in words. -/
def message : Error → String
  | .file fault => s!"I/O error: {fault.message}"
  | .characters text location =>
    s!"{location.describe}: unexpected character(s) {Text.quote text}"
  | .unterminatedString location => s!"{location.describe}: unterminated string literal"
  | .unexpected found expected =>
    s!"{found.location.describe}: syntax error: found {found.describe}, " ++
      s!"expected {expected.describe}"
  | .moduleNotFound path reason location =>
    let place :=
      match location with
      | some location => s!"{location.describe}: "
      | none => ""
    s!"{place}module {path} not found: {reason.message}"
  | .circularImport cycle => "circular import: " ++ " -> ".intercalate cycle
  | .duplicateDeclaration name location previous =>
    s!"{location.describe}: the type {Text.quote name} is declared twice " ++
      s!"(previous declaration at {previous.describe})"
  | .multipleEntries name previous location =>
    s!"{location.describe}: entry {Text.quote name} conflicts with entry " ++
      s!"{Text.quote previous}; only one entry is allowed"
  | .unresolvedReference name field owner location =>
    s!"{location.describe}: the type {Text.quote name} is not defined for field " ++
      s!"{Text.quote field} of {Text.quote owner}"
  | .unknownConstraint function location =>
    s!"{location.describe}: unknown constraint function {Text.quote function}"
  | .invalidConstraint fault location =>
    s!"{location.describe}: invalid constraint: {fault.message}"
  | .conflictingConstraint owner field keyword location =>
    s!"{location.describe}: conflicting values for {keyword} on {owner}.{field}"
  | .unsupported target construct location =>
    s!"{location.describe}: the {target.name} target cannot express {construct.describe}"
  | .unknownTarget name => s!"unknown binding target \"{name}\""
  | .configuration subject fault => s!"configuration error: {subject}: {fault.message}"
  | .internal fault => s!"internal compiler error: {fault.message}"

end Error

end SchemaLang
