import SchemaLang.Json.Numeral
import SchemaLang.Text.CodePoints

/-!
# Reading JSON

Reading goes in two passes over lists. The first cuts the text into lexemes: the
six marks and the scalar values. The second puts the lexemes together with a
stack of open containers, so nesting takes no recursion and its limit is the
height of the stack. Both are folds, one step an item.

A repeated member keeps the place of the first and the value of the last. Where
a caller needs every member as written, `readMembers` keeps them all.
-/

namespace SchemaLang.Json

/-- Why a text is no JSON document. -/
inductive Fault where
  | unexpectedEnd
  | unexpectedCharacter (c : Char)
  | unknownWord (word : List Char)
  | malformedNumber (text : List Char)
  | numberTooLarge (text : List Char)
  | controlCharacter
  | unknownEscape
  | loneSurrogate
  | nestedTooDeep
  | misplacedValue
  | misplacedMark
deriving DecidableEq, Repr

/-- What is wrong, in words. -/
def Fault.message : Fault → String
  | unexpectedEnd => "unexpected end of text"
  | unexpectedCharacter c => s!"unexpected character {c}"
  | unknownWord word => s!"unknown word {String.ofList word}"
  | malformedNumber text => s!"malformed number {String.ofList text}"
  | numberTooLarge text => s!"number out of range {String.ofList text}"
  | controlCharacter => "control character inside a string"
  | unknownEscape => "unknown escape"
  | loneSurrogate => "surrogate without its partner"
  | nestedTooDeep => "nested too deep"
  | misplacedValue => "misplaced value"
  | misplacedMark => "misplaced mark"

/-- A lexeme of a document. -/
inductive Lexeme where
  | openArray
  | closeArray
  | openObject
  | closeObject
  | comma
  | colon
  | scalar (value : Json)
deriving Repr

/-- Where the first pass stands. Characters read so far are held in reverse. -/
inductive Mode where
  | start
  | word (letters : List Char)
  | number (characters : List Char)
  | text (characters : List Char)
  | escape (characters : List Char)
  /-- Inside the four digits of an escape; `lead` is a surrogate before it. -/
  | digits (characters : List Char) (lead : Option Nat) (read : List Char)
  /-- After a leading surrogate, where a second escape must follow. -/
  | partner (characters : List Char) (lead : Nat)
  | partnerEscape (characters : List Char) (lead : Nat)
deriving Repr

/-- The blanks of JSON. -/
def isJsonBlank (c : Char) : Bool := c == ' ' || c == '\n' || c == '\t' || c == '\r'

/-- The characters a numeral can have. -/
def isNumeralChar (c : Char) : Bool :=
  c.isDigit || c == '-' || c == '+' || c == '.' || c == 'e' || c == 'E'

/-- A character where a new lexeme may start. -/
def startLexeme (c : Char) : Except Fault (List Lexeme × Mode) :=
  if isJsonBlank c then .ok ([], .start)
  else if c = '[' then .ok ([.openArray], .start)
  else if c = ']' then .ok ([.closeArray], .start)
  else if c = '\x7b' then .ok ([.openObject], .start)
  else if c = '\x7d' then .ok ([.closeObject], .start)
  else if c = ',' then .ok ([.comma], .start)
  else if c = ':' then .ok ([.colon], .start)
  else if c = '"' then .ok ([], .text [])
  else if c = '-' || c.isDigit then .ok ([], .number [c])
  else if c.isLower then .ok ([], .word [c])
  else .error (.unexpectedCharacter c)

/-- The value a word stands for. -/
def wordValue (letters : List Char) : Except Fault Json :=
  if letters = ['n', 'u', 'l', 'l'] then .ok .null
  else if letters = ['t', 'r', 'u', 'e'] then .ok (.bool true)
  else if letters = ['f', 'a', 'l', 's', 'e'] then .ok (.bool false)
  else .error (.unknownWord letters)

/-- The value a numeral stands for. -/
def numeralValue (text : List Char) : Except Fault Json :=
  match Numeral.ofChars? text with
  | none => .error (.malformedNumber text)
  | some numeral =>
    match numeral.value? with
    | none => .error (.numberTooLarge text)
    | some value => .ok (.number value)

/-- The character a one-letter escape stands for. -/
def simpleEscape? (c : Char) : Option Char :=
  if c = '"' || c = '\\' || c = '/' then some c
  else if c = 'n' then some '\n'
  else if c = 't' then some '\t'
  else if c = 'r' then some '\r'
  else if c = 'b' then some (Char.ofNat 8)
  else if c = 'f' then some (Char.ofNat 12)
  else none

/-- Whether a code unit is the first or the second half of a pair. -/
def isLeadSurrogate (unit : Nat) : Bool := 0xd800 ≤ unit && unit < 0xdc00

/-- Whether a code unit is the second half of a pair. -/
def isTrailSurrogate (unit : Nat) : Bool := 0xdc00 ≤ unit && unit < 0xe000

/-- What four digits of an escape lead to, after a leading surrogate or not. -/
def endDigits (characters : List Char) (lead : Option Nat) (unit : Nat) : Except Fault Mode :=
  match lead with
  | none =>
    if isLeadSurrogate unit then .ok (.partner characters unit)
    else if isTrailSurrogate unit then .error .loneSurrogate
    else .ok (.text (Char.ofNat unit :: characters))
  | some lead =>
    if isTrailSurrogate unit then
      let code := 0x10000 + (lead - 0xd800) * 0x400 + (unit - 0xdc00)
      .ok (.text (Char.ofNat code :: characters))
    else .error .loneSurrogate

/-- One character of the first pass. -/
def lexStep (mode : Mode) (c : Char) : Except Fault (List Lexeme × Mode) :=
  match mode with
  | .start => startLexeme c
  | .word letters =>
    if c.isLower then .ok ([], .word (c :: letters))
    else do
      let value ← wordValue letters.reverse
      let (lexemes, mode) ← startLexeme c
      return (.scalar value :: lexemes, mode)
  | .number characters =>
    if isNumeralChar c then .ok ([], .number (c :: characters))
    else do
      let value ← numeralValue characters.reverse
      let (lexemes, mode) ← startLexeme c
      return (.scalar value :: lexemes, mode)
  | .text characters =>
    if c = '"' then .ok ([.scalar (.string (String.ofList characters.reverse))], .start)
    else if c = '\\' then .ok ([], .escape characters)
    else if c.toNat < 32 then .error .controlCharacter
    else .ok ([], .text (c :: characters))
  | .escape characters =>
    if c = 'u' then .ok ([], .digits characters none [])
    else match simpleEscape? c with
      | some escaped => .ok ([], .text (escaped :: characters))
      | none => .error .unknownEscape
  | .digits characters lead read =>
    if !Text.isHexDigit c then .error .unknownEscape
    else if read.length < 3 then .ok ([], .digits characters lead (c :: read))
    else do
      let mode ← endDigits characters lead (Text.hexNumber (c :: read).reverse)
      return ([], mode)
  | .partner characters lead =>
    if c = '\\' then .ok ([], .partnerEscape characters lead) else .error .loneSurrogate
  | .partnerEscape characters lead =>
    if c = 'u' then .ok ([], .digits characters (some lead) []) else .error .loneSurrogate

/-- What the end of the text completes. -/
def lexEnd : Mode → Except Fault (List Lexeme)
  | .start => .ok []
  | .word letters => do return [.scalar (← wordValue letters.reverse)]
  | .number characters => do return [.scalar (← numeralValue characters.reverse)]
  | _ => .error .unexpectedEnd

/-- The lexemes of a text from a mode on. -/
def lexFrom (mode : Mode) : List Char → Except Fault (List Lexeme)
  | [] => lexEnd mode
  | c :: rest => do
    let (lexemes, mode) ← lexStep mode c
    let others ← lexFrom mode rest
    return lexemes ++ others

/-- What to do with members of one name. -/
inductive Repetition where
  | lastWins
  | keepAll
deriving DecidableEq, Repr

/-- A container that is still open, with its contents in reverse. -/
inductive Frame where
  | array (items : List Json)
  | object (members : List (String × Json))
  /-- The member of the object below whose value is being read. -/
  | member (name : String)
deriving Repr

/-- What may come next. -/
inductive Focus where
  | value
  | firstItem
  | firstMember
  | nextMember
  | colon
  | after
  | finished (value : Json)
deriving Repr

/-- The state of the second pass. -/
structure Assembly where
  stack : List Frame
  focus : Focus
deriving Repr

/-- The greatest number of containers around a value is one less than this. -/
def nestingLimit : Nat := 128

namespace Assembly

/-- How many containers are open. -/
def openContainers (stack : List Frame) : Nat :=
  stack.countP fun frame => match frame with
    | .member _ => false
    | _ => true

/-- Hand a complete value to the innermost open container. -/
def complete (stack : List Frame) (value : Json) : Except Fault Assembly :=
  match stack with
  | [] => .ok ⟨[], .finished value⟩
  | .array items :: rest => .ok ⟨.array (value :: items) :: rest, .after⟩
  | .member name :: .object members :: rest =>
    .ok ⟨.object ((name, value) :: members) :: rest, .after⟩
  | _ => .error .misplacedValue

/-- Open a container. -/
def openFrame (stack : List Frame) (frame : Frame) (focus : Focus) : Except Fault Assembly :=
  if openContainers stack + 1 < nestingLimit then .ok ⟨frame :: stack, focus⟩
  else .error .nestedTooDeep

/-- The object of some members, which are in reverse. -/
def closeObject (repetition : Repetition) (members : List (String × Json)) : Json :=
  match repetition with
  | .lastWins => .ofMembers members.reverse
  | .keepAll => .object members.reverse

/-- A lexeme where a value may start. -/
def startValue (stack : List Frame) : Lexeme → Except Fault Assembly
  | .openArray => openFrame stack (.array []) .firstItem
  | .openObject => openFrame stack (.object []) .firstMember
  | .scalar value => complete stack value
  | _ => .error .misplacedMark

/-- A lexeme where a member must start. -/
def startMember (stack : List Frame) : Lexeme → Except Fault Assembly
  | .scalar (.string name) => .ok ⟨.member name :: stack, .colon⟩
  | _ => .error .misplacedValue

/-- Close the innermost container. -/
def close (repetition : Repetition) (stack : List Frame) : Lexeme → Except Fault Assembly
  | .closeArray => match stack with
    | .array items :: rest => complete rest (.array items.reverse)
    | _ => .error .misplacedMark
  | .closeObject => match stack with
    | .object members :: rest => complete rest (closeObject repetition members)
    | _ => .error .misplacedMark
  | _ => .error .misplacedMark

/-- One lexeme of the second pass. -/
def step (repetition : Repetition) (state : Assembly) (lexeme : Lexeme) :
    Except Fault Assembly :=
  match state.focus with
  | .value => startValue state.stack lexeme
  | .firstItem => match lexeme with
    | .closeArray => close repetition state.stack lexeme
    | _ => startValue state.stack lexeme
  | .firstMember => match lexeme with
    | .closeObject => close repetition state.stack lexeme
    | _ => startMember state.stack lexeme
  | .nextMember => startMember state.stack lexeme
  | .colon => match lexeme with
    | .colon => .ok ⟨state.stack, .value⟩
    | _ => .error .misplacedValue
  | .after => match lexeme with
    | .comma => match state.stack with
      | .array _ :: _ => .ok ⟨state.stack, .value⟩
      | .object _ :: _ => .ok ⟨state.stack, .nextMember⟩
      | _ => .error .misplacedMark
    | _ => close repetition state.stack lexeme
  | .finished _ => .error .misplacedValue

/-- The document, when the lexemes end after one. -/
def result (state : Assembly) : Except Fault Json :=
  match state.focus with
  | .finished value => .ok value
  | _ => .error .unexpectedEnd

end Assembly

/-- The value that lexemes spell. -/
def assemble (repetition : Repetition) (lexemes : List Lexeme) : Except Fault Json := do
  let state ← lexemes.foldlM (Assembly.step repetition) ⟨[], .value⟩
  state.result

/-- Read a document; of members of one name the last value counts. -/
def read (text : String) : Except Fault Json := do
  assemble .lastWins (← lexFrom .start text.toList)

/-- Read a document and keep every member as it is written. -/
def readMembers (text : String) : Except Fault Json := do
  assemble .keepAll (← lexFrom .start text.toList)

end SchemaLang.Json
