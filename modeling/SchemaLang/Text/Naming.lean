import SchemaLang.Text.LetterCase

/-!
# Naming conventions

Conversion of declared names to the two spellings that generated code uses.
Pascal case joins capitalised words; snake case writes small letters with an
underscore before each new word. A name is a sequence of words between points,
underscores and hyphens, and inside a word a capital letter starts a new one.
-/

namespace SchemaLang.Text

/-- Capitalise the first letter and keep the rest. -/
def capitalize : List Char → List Char
  | [] => []
  | first :: rest => upper first ++ rest

/-- The characters between words of a qualified name. -/
def isWordSeparator (c : Char) : Bool := c == '.' || c == '_' || c == '-'

/-- The words of a name, in order. Words between adjacent separators are empty. -/
def words : List Char → List (List Char)
  | [] => [[]]
  | c :: rest =>
    if isWordSeparator c then [] :: words rest
    else match words rest with
      | [] => [[c]]
      | word :: others => (c :: word) :: others

/-- A word in Pascal case. Where it has a small letter its case is kept after the
first; a word wholly in capitals keeps only the first of them. -/
def pascalWord (word : List Char) : List Char :=
  if word.any isLowercase then capitalize word else capitalize (lowerText word)

/-- A name in Pascal case, on characters. -/
def pascalChars (name : List Char) : List Char :=
  ((words name).filter (!·.isEmpty)).flatMap pascalWord

/-- Whether a capital letter starts a new word, given its neighbours. Inside a
run of capitals only the last one does, when a small letter follows. -/
def startsWord (previous next : Option Char) : Bool :=
  match previous with
  | none => false
  | some p =>
    if isUppercase p then next.any isLowercase
    else p != '_' && p != '-'

/-- A name in snake case after the character `previous`, on characters. -/
def snakeAfter (previous : Option Char) : List Char → List Char
  | [] => []
  | c :: rest =>
    let here :=
      if c = '-' then ['_']
      else if isUppercase c then
        if startsWord previous rest.head? then '_' :: lower c else lower c
      else [c]
    here ++ snakeAfter (some c) rest

/-- A name in Pascal case: `common.mail_box` becomes `CommonMailBox`. -/
def pascalCase (name : String) : String := String.ofList (pascalChars name.toList)

/-- A name in snake case: `sessionID` becomes `session_id`. -/
def snakeCase (name : String) : String := String.ofList (snakeAfter none name.toList)

end SchemaLang.Text
