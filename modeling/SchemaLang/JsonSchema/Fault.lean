import SchemaLang.Pattern.Tree
import SchemaLang.Text.Quoted

/-!
# Faults of schema documents

Why a JSON document is no schema: a keyword has a value of the wrong shape, a
pattern does not read, a reference leads nowhere, or its draft is not known.
-/

namespace SchemaLang.JsonSchema

/-- What is wrong with a schema document. -/
inductive Fault where
  | notASchema
  | keyword (name : String)
  | pattern (text : String) (fault : Pattern.Fault)
  | danglingReference (text : String)
  | unknownDraft (address : String)
deriving DecidableEq, Repr

namespace Fault

/-- What is wrong, in words. -/
def explanation : Fault → String
  | .notASchema => "a schema is an object or a boolean"
  | .keyword name => s!"the value of {Text.quote name} has the wrong shape"
  | .pattern text fault => s!"{Text.quote text} is no pattern: {fault.message}"
  | .danglingReference text => s!"the reference {Text.quote text} leads nowhere"
  | .unknownDraft address => s!"{Text.quote address} is the address of no draft"

/-- The fault as a message on its own. -/
def message (fault : Fault) : String := s!"invalid schema: {fault.explanation}"

end Fault

end SchemaLang.JsonSchema
