import SchemaLang.Text.CodePoints

/-!
# Tables of named properties

A property is known under several names, and its code points are kept as the text of a
table until they are asked for. Names are compared loosely: letter case, blanks,
hyphens, underscores and a leading `is` do not count.
-/

namespace SchemaLang.Text

/-- The form in which names are compared. The one name that starts with the letters
that are dropped keeps them. -/
def looseName (name : List Char) : String :=
  let lowered := name.map Char.toLower
  let (announced, body) :=
    match lowered with
    | 'i' :: 's' :: rest => (true, rest)
    | rest => (false, rest)
  let kept := body.filter fun c => c.toNat < 128 && c ≠ ' ' && c ≠ '_' && c ≠ '-'
  if announced && kept = ['c'] then "isc" else String.ofList kept

/-- Whether one of the words of a text is a name, up to what does not count. -/
def isAmong (name words : String) : Bool :=
  (words.splitOn " ").any fun word => looseName word.toList = name

/-- A property with its names, which stand between blanks. -/
structure PropertyTable where
  names : String
  lines : List String
deriving DecidableEq, Repr

namespace PropertyTable

/-- Whether a property has a name, given in the form in which names are compared. -/
def isNamed (table : PropertyTable) (name : String) : Bool := isAmong name table.names

/-- The first name of a property. -/
def code (table : PropertyTable) : String := ((table.names.splitOn " ").head?).getD ""

/-- The code points of a property. -/
def points (table : PropertyTable) : CodePoints := .ofSteps 1 table.lines

/-- The code points of the property with a name. -/
def find? (tables : List PropertyTable) (name : String) : Option CodePoints :=
  (tables.find? (·.isNamed name)).map points

end PropertyTable

end SchemaLang.Text
