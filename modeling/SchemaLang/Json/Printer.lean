import SchemaLang.Json.Value
import SchemaLang.Number.Spelling
import SchemaLang.Text.Quoted

/-!
# Writing JSON

Two layouts. The compact one has no blanks. The indented one puts each item and
member on a line of its own, two spaces deeper than its container, with a space
after the colon; an empty container stays on one line.
-/

namespace SchemaLang.Json

/-- The text of a number. -/
def numberChars : JsonNumber → List Char
  | .integer value => (toString value).toList
  | .double value => value.jsonChars

mutual

/-- The compact text of a value. -/
def compactChars : Json → List Char
  | null => ['n', 'u', 'l', 'l']
  | bool true => ['t', 'r', 'u', 'e']
  | bool false => ['f', 'a', 'l', 's', 'e']
  | number value => numberChars value
  | string text => Text.Quoted.encode text.toList
  | array items => '[' :: (compactItems items ++ [']'])
  | object members => '\x7b' :: (compactMembers members ++ ['\x7d'])

/-- The compact text of items, with commas between them. -/
def compactItems : List Json → List Char
  | [] => []
  | [item] => compactChars item
  | item :: rest => compactChars item ++ ',' :: compactItems rest

/-- The compact text of members, with commas between them. -/
def compactMembers : List (String × Json) → List Char
  | [] => []
  | [(name, value)] => Text.Quoted.encode name.toList ++ ':' :: compactChars value
  | (name, value) :: rest =>
    Text.Quoted.encode name.toList ++ ':' :: (compactChars value ++ ',' :: compactMembers rest)

end

/-- The start of a line at a nesting level. -/
def newLine (level : Nat) : List Char := '\n' :: List.replicate (2 * level) ' '

mutual

/-- The indented text of a value inside `level` containers. -/
def indentedChars (level : Nat) : Json → List Char
  | null => ['n', 'u', 'l', 'l']
  | bool true => ['t', 'r', 'u', 'e']
  | bool false => ['f', 'a', 'l', 's', 'e']
  | number value => numberChars value
  | string text => Text.Quoted.encode text.toList
  | array [] => ['[', ']']
  | array (item :: rest) =>
    '[' :: (indentedItems (level + 1) (item :: rest) ++ newLine level ++ [']'])
  | object [] => ['\x7b', '\x7d']
  | object (member :: rest) =>
    '\x7b' :: (indentedMembers (level + 1) (member :: rest) ++ newLine level ++ ['\x7d'])

/-- The indented text of items, each after a line break. -/
def indentedItems (level : Nat) : List Json → List Char
  | [] => []
  | [item] => newLine level ++ indentedChars level item
  | item :: rest => newLine level ++ indentedChars level item ++ ',' :: indentedItems level rest

/-- The indented text of members, each after a line break. -/
def indentedMembers (level : Nat) : List (String × Json) → List Char
  | [] => []
  | [(name, value)] =>
    newLine level ++ Text.Quoted.encode name.toList ++ ':' :: ' ' :: indentedChars level value
  | (name, value) :: rest =>
    newLine level ++ Text.Quoted.encode name.toList
      ++ ':' :: ' ' :: (indentedChars level value ++ ',' :: indentedMembers level rest)

end

/-- The compact text of a value. -/
def compact (value : Json) : String := String.ofList value.compactChars

/-- The indented text of a value. -/
def indented (value : Json) : String := String.ofList (value.indentedChars 0)

end SchemaLang.Json
