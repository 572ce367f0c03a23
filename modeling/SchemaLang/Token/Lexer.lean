import SchemaLang.Error

/-!
# Cutting a text into tokens

A text is first cut into lexemes, one after the other and each as long as it can
be: blanks, comments, strings, numbers, identifiers and symbols. The cut stops
where no lexeme starts. Then the lexemes are placed, blanks and comments are
dropped, and the rest become tokens; the lexemes that were cut, put together, and
what was left over are always the whole text.

Digits are the decimal digits of every script.
-/

namespace SchemaLang

/-- The kinds of lexeme. -/
inductive LexemeKind where
  | blank
  | comment
  | string
  | openString
  | number
  | identifier
  | symbol
deriving DecidableEq, Repr

/-- A piece of the text. -/
structure Lexeme where
  kind : LexemeKind
  chars : List Char
deriving DecidableEq, Repr

namespace Lexeme

/-- The blanks between tokens. -/
def isBlank (c : Char) : Bool := c = ' ' || c = '\t' || c = '\r' || c = '\n'

/-- The characters that may start an identifier. -/
def startsIdentifier (c : Char) : Bool := c.isAlpha || c = '_'

/-- The characters that may follow in an identifier. -/
def continuesIdentifier (c : Char) : Bool := c.isAlphanum || c = '_' || c = '-'

/-- The characters that are tokens by themselves. -/
def isSymbol (c : Char) : Bool :=
  ['\x7b', '\x7d', '[', ']', '(', ')', ':', ',', '?', '|', '.'].contains c

/-- The inside of a string up to its end, and whether a closing quote stands there. A
line may not end inside a string, escaped or not. -/
def stringBody : List Char → List Char × Bool
  | [] => ([], false)
  | '\\' :: c :: rest =>
    if c = '\n' then ([], false)
    else
      let (body, closed) := stringBody rest
      ('\\' :: c :: body, closed)
  | c :: rest =>
    if c = '"' then ([], true)
    else if c = '\n' || c = '\\' then ([], false)
    else
      let (body, closed) := stringBody rest
      (c :: body, closed)

/-- The string that starts with a quote. -/
def ofQuote (rest : List Char) : Lexeme :=
  match stringBody rest with
  | (body, true) => ⟨.string, '"' :: (body ++ ['"'])⟩
  | (body, false) => ⟨.openString, '"' :: body⟩

/-- The fraction of a numeral, if digits follow the point. -/
def fraction : List Char → List Char
  | '.' :: c :: rest =>
    if Text.isDecimalDigit c then '.' :: (c :: rest).takeWhile Text.isDecimalDigit else []
  | _ => []

/-- The exponent of a numeral, if digits follow the mark and its sign. -/
def exponent : List Char → List Char
  | mark :: rest =>
    if mark = 'e' || mark = 'E' then
      match rest with
      | sign :: more =>
        if sign = '+' || sign = '-' then
          let digits := more.takeWhile Text.isDecimalDigit
          if digits.isEmpty then [] else mark :: sign :: digits
        else
          let digits := rest.takeWhile Text.isDecimalDigit
          if digits.isEmpty then [] else mark :: digits
      | [] => []
    else []
  | [] => []

/-- The numeral at the start of a text that starts with a digit. -/
def unsignedNumeral (chars : List Char) : List Char :=
  let digits := chars.takeWhile Text.isDecimalDigit
  let afterDigits := chars.drop digits.length
  let fractionPart := fraction afterDigits
  digits ++ fractionPart ++ exponent (afterDigits.drop fractionPart.length)

/-- The lexeme that starts a text, if one does. -/
def first? : List Char → Option Lexeme
  | [] => none
  | c :: rest =>
    if isBlank c then some ⟨.blank, c :: rest.takeWhile isBlank⟩
    else if c = '#' then some ⟨.comment, c :: rest.takeWhile (· ≠ '\n')⟩
    else if c = '"' then some (ofQuote rest)
    else if Text.isDecimalDigit c then some ⟨.number, unsignedNumeral (c :: rest)⟩
    else if c = '-' then
      match rest with
      | d :: _ =>
        if Text.isDecimalDigit d then some ⟨.number, c :: unsignedNumeral rest⟩ else none
      | [] => none
    else if startsIdentifier c then some ⟨.identifier, c :: rest.takeWhile continuesIdentifier⟩
    else if isSymbol c then some ⟨.symbol, [c]⟩
    else none

/-- The lexemes of a text, and what is left where no lexeme starts. Each lexeme has
at least one character, so the number of characters bounds the number of lexemes. -/
def cut : Nat → List Char → List Lexeme × List Char
  | 0, chars => ([], chars)
  | rounds + 1, chars =>
    match first? chars with
    | none => ([], chars)
    | some lexeme =>
      let (lexemes, rest) := cut rounds (chars.drop lexeme.chars.length)
      (lexeme :: lexemes, rest)

/-- What an escaped character in a string stands for. -/
def escaped (c : Char) : Char :=
  if c = 'n' then '\n' else if c = 't' then '\t' else if c = 'r' then '\r' else c

/-- The meaning of the inside of a string. -/
def unescape : List Char → List Char
  | [] => []
  | '\\' :: c :: rest => escaped c :: unescape rest
  | c :: rest => c :: unescape rest

/-- The characters between the quotes of a string. -/
def inside (chars : List Char) : List Char := (chars.drop 1).dropLast

/-- The token of a lexeme at a place. Blanks and comments have none. -/
def token? (lexeme : Lexeme) (location : Location) : Option Token :=
  match lexeme.kind with
  | .blank | .comment | .openString => none
  | .string => some ⟨.string, String.ofList (unescape (inside lexeme.chars)), location⟩
  | .number => some ⟨.number, String.ofList lexeme.chars, location⟩
  | .identifier => some ⟨.identifier, String.ofList lexeme.chars, location⟩
  | .symbol => some ⟨.symbol, String.ofList lexeme.chars, location⟩

/-- The characters before the next lexeme, if there is one. -/
def gap? : List Char → Option (List Char)
  | [] => none
  | c :: rest =>
    if (first? (c :: rest)).isSome then some [] else (gap? rest).map (c :: ·)

/-- The part of a text without lexemes at its start that a message shows: up to the
next lexeme, or else up to the next blank of any kind. -/
def strange (chars : List Char) : List Char :=
  match gap? chars with
  | some gap => gap
  | none =>
    let word := chars.takeWhile fun c => !Text.isBlank c
    if word.isEmpty then chars else word

/-- The tokens of some lexemes from a place on, and then the end of the text, which
has been reached only if nothing is left. -/
def place (left : List Char) : Location → List Lexeme → Except Error (List Token)
  | location, [] =>
    if left.isEmpty then .ok [⟨.endOfText, "", location⟩]
    else .error (.characters (String.ofList (strange left)) location)
  | location, lexeme :: lexemes =>
    if lexeme.kind = .openString then .error (.unterminatedString location)
    else
      match place left (location.afterAll lexeme.chars) lexemes with
      | .error error => .error error
      | .ok tokens => .ok ((lexeme.token? location).toList ++ tokens)

end Lexeme

/-- The tokens of a module's text. -/
def tokenize (source text : String) : Except Error (List Token) :=
  let chars := text.toList
  let (lexemes, left) := Lexeme.cut chars.length chars
  Lexeme.place left (Location.start source) lexemes

end SchemaLang
