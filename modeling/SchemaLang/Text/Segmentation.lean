import SchemaLang.Text.BinaryProperty
import SchemaLang.Text.Script

/-!
# Where text may be cut

Between which characters a text may be cut depends on the classes of the characters.
There are three such divisions of all characters: for what a reader takes for one
character, for words, and for sentences. A character in no class of a division has no
influence on its cuts.
-/

namespace SchemaLang.Text

/-- The classes of a division, each under its names. -/
abbrev Division := List (String × (Char → Bool))

/-- The character of one code point. -/
def isCode (code : Nat) (c : Char) : Bool := c.toNat == code

/-- Signs that change the colour of a picture. -/
def colourPoints : CodePoints := listedPoints "EMod"

/-- Letters of which two name a region. -/
def regionPoints : CodePoints := listedPoints "RI"

/-- Whether a character is attached to the one before it, coloured pictures included. -/
def attaches (c : Char) : Bool := extendsGrapheme c || colourPoints.holds c

/-- Whether text may be cut on both sides of a character without form. -/
def separatesCharacters (c : Char) : Bool :=
  let ignored :=
    match GeneralCategory.ofChar c with
    | .lineSeparator | .paragraphSeparator | .control | .format => true
    | .unassigned => isIgnorable c
    | _ => false
  ignored && c != '\r' && c != '\n' && !extendsGrapheme c && !isCode 0x200d c &&
    !concatenationMarkPoints.holds c

/-- Letters that lead the next one, beside the concatenation marks. -/
def leadingPoints : CodePoints := .ofLines ["d4e 111c2-3 3d1 93f 41 a3a 84-9 d46 f02"]

/-- Spacing marks that stand on their own. -/
def looseMarkPoints : CodePoints := .ofLines [
  "102b-c 38 62-4 7-d 83 7-c f 9a-c a61 3-4 aa7b d 11720-1"]

/-- Whether a character takes room and belongs to the one before it. -/
def followsClosely (c : Char) : Bool :=
  isCode 0xe33 c || isCode 0xeb3 c ||
    (GeneralCategory.ofChar c == .spacingMark && !extendsGrapheme c && !looseMarkPoints.holds c)

/-- Syllables without a final consonant: every twenty-eighth of the block. -/
def openSyllablePoints : CodePoints := .ofLines ["ac00-d788/1c"]

/-- The syllables of the block. -/
def syllablePoints : CodePoints := .ofLines ["ac00-d7a3"]

/-- The classes for cuts between what a reader takes for one character. -/
def graphemeBreaks : Division := [
  ("CN Control", separatesCharacters),
  ("CR", isCode 13),
  ("EX Extend", attaches),
  ("L", CodePoints.holds (.ofLines ["1100-5f a960-7c"])),
  ("LF", isCode 10),
  ("LV", openSyllablePoints.holds),
  ("LVT", fun c => syllablePoints.holds c && !openSyllablePoints.holds c),
  ("PP Prepend", fun c => leadingPoints.holds c || concatenationMarkPoints.holds c),
  ("RI Regional_Indicator", regionPoints.holds),
  ("SM SpacingMark", followsClosely),
  ("T", CodePoints.holds (.ofLines ["11a8-ff d7cb-fb"])),
  ("V", CodePoints.holds (.ofLines ["1160-a7 d7b0-c6 16d63 7-a"])),
  ("ZWJ", isCode 0x200d)]

/-- Whether a mark belongs to the character before it. -/
def continuesWord (c : Char) : Bool :=
  attaches c || GeneralCategory.ofChar c == .spacingMark

/-- Whether a format character stands inside words or sentences without effect. -/
def isInvisible (c : Char) : Bool :=
  GeneralCategory.ofChar c == .format && !extendsGrapheme c && !isCode 0x200d c &&
    !concatenationMarkPoints.holds c

/-- Signs that count as digits. -/
def otherNumericPoints : CodePoints := .ofLines ["600-5 6b dd 890-1 e2 19da 110bd cd"]

/-- Whether a character counts as a digit. -/
def isNumeric (c : Char) : Bool := isDecimalDigit c || otherNumericPoints.holds c

/-- Letters of one syllabary, with its marks. -/
def katakanaPoints : CodePoints := .ofLines [
  "3031-5 9b-c a0-fa c-f 1f0-f 2d0-fe 300-57 ff66-9d 1aff0-3 5-b d-e b000 120-2 55 64-7"]

/-- The consonants of an alphabet in which a quotation mark may end a word. -/
def hebrewLetterPoints : CodePoints := .ofLines ["5d0-ea f-f2 fb1d f-28 a-36 8-c e 40-1 3-4 6-f"]

/-- Signs that count as letters of words. -/
def otherWordLetterPoints : CodePoints := .ofLines [
  "2c2-5 d2-7 e-f e5-b d f-ff 55a-c e 8a f3 70f a708-16 20-1 89-a b5b"]

/-- The characters of scripts that put no blanks between words. -/
def unspacedPoints : CodePoints :=
  .union (["Ahom", "Hira", "Khmr", "Lana", "Laoo", "Mymr", "Tale", "Talu", "Tavt", "Thai"].filterMap
    fun code => scriptPoints? (looseName code.toList))

/-- Characters that stand for ideas. -/
def ideographPoints : CodePoints := listedPoints "Ideo"

/-- Whether a character is a letter of words with blanks between them. -/
def isWordLetter (c : Char) : Bool :=
  otherWordLetterPoints.holds c ||
    (isAlphabetic c && !ideographPoints.holds c && !katakanaPoints.holds c &&
      !hebrewLetterPoints.holds c && !continuesWord c && !unspacedPoints.holds c)

/-- The classes for cuts between words. -/
def wordBreaks : Division := [
  ("CR", isCode 13),
  ("DQ Double_Quote", isCode 0x22),
  ("EX ExtendNumLet",
    fun c => isCode 0x202f c || GeneralCategory.ofChar c == .connectorPunctuation),
  ("Extend", fun c => continuesWord c && !isCode 0x200d c),
  ("FO Format", fun c => isInvisible c && !isCode 0x200b c),
  ("HL Hebrew_Letter", hebrewLetterPoints.holds),
  ("KA Katakana", katakanaPoints.holds),
  ("LE ALetter", isWordLetter),
  ("LF", isCode 10),
  ("MB MidNumLet", CodePoints.holds (.ofLines ["2e 2018-9 24 fe52 f07 e"])),
  ("ML MidLetter", CodePoints.holds (.ofLines ["3a b7 387 55f f4 2027 fe13 55 f1a"])),
  ("MN MidNum",
    CodePoints.holds (.ofLines ["2c 3b 37e 589 60c-d 6c 7f8 2044 fe50 4 f0c 1b"])),
  ("NL Newline", CodePoints.holds (.ofLines ["b-c 85 2028-9"])),
  ("NU Numeric", isNumeric),
  ("RI Regional_Indicator", regionPoints.holds),
  ("SQ Single_Quote", isCode 0x27),
  ("WSegSpace", CodePoints.holds (.ofLines ["20 1680 2000-6 8-a 5f 3000"])),
  ("ZWJ", isCode 0x200d)]

/-- Whether a mark belongs to the character before it, joiners included. -/
def continuesSentence (c : Char) : Bool :=
  extendsGrapheme c || GeneralCategory.ofChar c == .spacingMark || isCode 0x200d c

/-- Letters with two forms of which neither marks the start of a sentence. -/
def evenLetterPoints : CodePoints := .ofLines ["10d0-fa d-f c90-ba d-f"]

/-- Whether a character is a small letter for the purpose of sentences. -/
def isSentenceLower (c : Char) : Bool :=
  isLowercase c && !extendsGrapheme c && !evenLetterPoints.holds c

/-- Whether a character is a capital letter for the purpose of sentences. -/
def isSentenceUpper (c : Char) : Bool :=
  (isUppercase c || GeneralCategory.ofChar c == .titlecaseLetter) && !extendsGrapheme c &&
    !evenLetterPoints.holds c

/-- Marks of which each may be a point. -/
def pointPoints : CodePoints := .ofLines ["2e 2024 fe52 f0e"]

/-- Marks that end sentences. -/
def sentenceEndPoints : CodePoints := listedPoints "STerm"

/-- Ornaments used as brackets or quotation marks. -/
def otherClosePoints : CodePoints := .ofLines ["22 7 275b-60 e00-1 6-8 b 1f676-8"]

/-- Whether a character is a bracket or a quotation mark. -/
def isSentenceClose (c : Char) : Bool :=
  match GeneralCategory.ofChar c with
  | .openPunctuation | .closePunctuation | .initialPunctuation | .finalPunctuation => true
  | _ => otherClosePoints.holds c

/-- Characters that end lines. -/
def lineEndPoints : CodePoints := .ofLines ["a d 85 2028-9"]

/-- The classes for cuts between sentences. -/
def sentenceBreaks : Division := [
  ("AT ATerm", pointPoints.holds),
  ("CL Close", isSentenceClose),
  ("CR", isCode 13),
  ("EX Extend", continuesSentence),
  ("FO Format", fun c => isInvisible c || isCode 0x70f c),
  ("LE OLetter",
    fun c => isCode 0x5f3 c || (isAlphabetic c && !isSentenceLower c && !isSentenceUpper c &&
      !continuesSentence c)),
  ("LF", isCode 10),
  ("LO Lower", isSentenceLower),
  ("NU Numeric", fun c => isNumeric c || isCode 0x66c c),
  ("SC SContinue",
    CodePoints.holds (.ofLines [
      "2c-d 3a-b 37e 55d 60c-d 7f8 1802 8 2013-4 3001 fe10-1 3-4 31-2 50-1 4-5 8 63 f0c-d",
      "ff1a-b 64"])),
  ("SE Sep", CodePoints.holds (.ofLines ["85 2028-9"])),
  ("SP Sp", fun c => isBlank c && !lineEndPoints.holds c),
  ("ST STerm", fun c => sentenceEndPoints.holds c && !pointPoints.holds c),
  ("UP Upper", isSentenceUpper)]

/-- The characters of a class of a division. -/
def Division.class? (division : Division) (name : String) : Option (Char → Bool) :=
  (division.find? fun (names, _) => isAmong name names).map (·.2)

end SchemaLang.Text
