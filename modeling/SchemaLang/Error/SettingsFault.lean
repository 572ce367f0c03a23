import SchemaLang.Json.Reader
import SchemaLang.Text.Quoted

/-!
# Faults of settings

Why a settings file cannot be used: it is no JSON, or it does not have the shape
of settings.
-/

namespace SchemaLang

/-- What is wrong with a settings file, or with a document that is read as JSON. -/
inductive SettingsFault where
  | json (fault : Json.Fault)
  | unknownField (name : String)
  | repeatedField (name : String)
  | wrongType (name : String)
  | unknownTarget
  | tooManyFields
deriving DecidableEq, Repr

/-- What is wrong, in words. -/
def SettingsFault.message : SettingsFault → String
  | .json fault => fault.message
  | .unknownField name => s!"unknown field {Text.quote name}"
  | .repeatedField name => s!"field {Text.quote name} is given twice"
  | .wrongType name => s!"the value of {Text.quote name} has the wrong type"
  | .unknownTarget => "unknown target"
  | .tooManyFields => "too many fields"

end SchemaLang
