import SchemaLang.Pattern.Reader

/-!
# The text of a schema's pattern

In the pattern of a schema the one-letter classes hold ASCII characters, with a few
wide blanks, and a control character may be named by its letter. Such a pattern is
brought into the usual language by spelling out its classes and its control characters.
A pattern that looks around itself or refers back is taken as it stands from there on:
in it the one-letter classes keep their wide meaning.
-/

namespace SchemaLang.Pattern

/-- The blanks of a one-letter class, spelled out. -/
def blankSpelling : List Char :=
  [' ', '\t', '\n', '\r'] ++ [0xb, 0xc, 0xa0, 0xfeff, 0x2003, 0x2029].map Char.ofNat

/-- The characters of a one-letter class, spelled out. -/
def Shorthand.spelling : Shorthand → List Char
  | .digit => "0-9".toList
  | .word => "A-Za-z0-9_".toList
  | .space => blankSpelling

/-- A one-letter class as a class between brackets. -/
def Abbreviation.spelling (value : Abbreviation) : List Char :=
  (if value.negated then ['[', '^'] else ['[']) ++ value.kind.spelling ++ [']']

mutual

/-- The one-letter classes inside a class. -/
def ClassTree.abbreviations : ClassTree → List Abbreviation
  | .shorthand value => [value]
  | .bracketed _ body => body.abbreviations
  | .union items => ClassTree.abbreviationsOfAll items
  | .combined _ left right => left.abbreviations ++ right.abbreviations
  | _ => []

/-- The one-letter classes inside several classes. -/
def ClassTree.abbreviationsOfAll : List ClassTree → List Abbreviation
  | [] => []
  | item :: items => item.abbreviations ++ ClassTree.abbreviationsOfAll items

end

mutual

/-- The one-letter classes of a pattern. -/
def Tree.abbreviations : Tree → List Abbreviation
  | .shorthand value => [value]
  | .bracketed _ body => body.abbreviations
  | .repetition _ _ body => body.abbreviations
  | .group _ body => body.abbreviations
  | .alternation branches => Tree.abbreviationsOfAll branches
  | .sequence items => Tree.abbreviationsOfAll items
  | _ => []

/-- The one-letter classes of several patterns. -/
def Tree.abbreviationsOfAll : List Tree → List Abbreviation
  | [] => []
  | item :: items => item.abbreviations ++ Tree.abbreviationsOfAll items

end

mutual

/-- Whether a pattern rings a bell outside its classes. -/
def Tree.ringsBell : Tree → Bool
  | .literal value => value.spelling = .bell
  | .repetition _ _ body => body.ringsBell
  | .group _ body => body.ringsBell
  | .alternation branches => Tree.anyRingsBell branches
  | .sequence items => Tree.anyRingsBell items
  | _ => false

/-- Whether one of several patterns rings a bell. -/
def Tree.anyRingsBell : List Tree → Bool
  | [] => false
  | item :: items => item.ringsBell || Tree.anyRingsBell items

end

/-- The length of a one-letter class as written: a backslash and the letter. -/
def abbreviationLength : Nat := 2

/-- A text with one-letter classes spelled out. They are given in the order of the
text. -/
def spellOut : List Abbreviation → List Char → List Char
  | [], text => text
  | value :: values, text =>
    text.take (text.length - value.after - abbreviationLength) ++ value.spelling ++
      spellOut values (text.drop (text.length - value.after))

/-- The control character of a letter. -/
def controlCharacter (letter : Char) : Char := Char.ofNat (letter.toNat % 32)

/-- A text in which an escape is replaced by one character. The escape has three
characters and ends before the rest. -/
def replaceEscape (text rest : List Char) (c : Char) : List Char :=
  text.take (text.length - rest.length - 3) ++ c :: rest

/-- The text of a schema's pattern in the usual language. Each round spells out one
control character. -/
def readSchemaText : Nat → List Char → Except Fault (List Char)
  | rounds, text =>
    match rounds, Tree.read text with
    | _, .ok tree =>
      if tree.ringsBell then .error .escapeRefused
      else .ok (spellOut tree.abbreviations text)
    | rounds + 1, .error (.escapeUnknown ('c' :: letter :: rest)) =>
      if letter.isAlpha then
        readSchemaText rounds (replaceEscape text rest (controlCharacter letter))
      else .error (.escapeUnknown ('c' :: letter :: rest))
    | _, .error .lookAroundUnsupported => .ok text
    | _, .error .backreferenceUnsupported => .ok text
    | _, .error fault => .error fault

/-- The text of a schema's pattern in the usual language. -/
def schemaText (text : List Char) : Except Fault (List Char) := readSchemaText text.length text

end SchemaLang.Pattern
