import SchemaLang.Json.Value

/-!
# Baselines

How the fields of a schema document differ from those of an earlier one. Only the
properties at the root count. Names are reported in the order of their characters.
-/

namespace SchemaLang

/-- The differences from a baseline. -/
structure BaselineReport where
  added : List String
  removed : List String
  changed : List String
deriving DecidableEq, Repr

namespace BaselineReport

/-- Whether readers of the earlier document can live with the new one. -/
def isCompatible (report : BaselineReport) : Bool :=
  report.removed.isEmpty && report.changed.isEmpty

/-- Whether nothing differs. -/
def isEmpty (report : BaselineReport) : Bool :=
  report.added.isEmpty && report.isCompatible

/-- The properties at the root of a document. -/
def properties (document : Json) : List (String × Json) :=
  match document.get? "properties" with
  | some (.object members) => members
  | _ => []

/-- The names of properties in order. -/
def sortedNames (members : List (String × Json)) : List String :=
  (members.map (·.1)).mergeSort fun a b => decide (a ≤ b)

/-- The names of the first list that are not in the second. -/
def missing (members others : List (String × Json)) : List String :=
  (sortedNames members).filter fun name => (others.lookup name).isNone

/-- Whether a name has different values in two lists. -/
def differs (members others : List (String × Json)) (name : String) : Bool :=
  match members.lookup name, others.lookup name with
  | some value, some other => !value.identical other
  | _, _ => false

/-- Compare a document with a baseline. -/
def compare (document baseline : Json) : BaselineReport :=
  let new := properties document
  let old := properties baseline
  ⟨missing new old, missing old new, (sortedNames new).filter (differs new old)⟩

end BaselineReport

end SchemaLang
