import SchemaLang.Error

/-!
# Reading tokens

A reader takes tokens from the front of a list and answers a value, or the error
at the first token that does not fit. The token for the end of the text is never
taken, so a list that ends with it never runs empty.

Loops in the grammar take at least one token a round. They count their rounds down
from the number of tokens, so running out of rounds means running out of tokens.
-/

namespace SchemaLang

/-- A reader of tokens. -/
abbrev Reading (α : Type) := StateT (List Token) (Except Error) α

namespace Reading

variable {α : Type}

/-- The tokens have run out without a token for the end. -/
def overrun : Reading α := fun _ => .error (.internal .unterminatedTokens)

/-- The error that something else should have stood where a token stands. -/
def reject (found : Token) (expected : Expectation) : Reading α :=
  fun _ => .error (.unexpected found expected)

/-- The next token, which stays in place. -/
def current : Reading Token := fun tokens =>
  match tokens with
  | [] => overrun tokens
  | token :: _ => .ok (token, tokens)

/-- The number of tokens ahead. -/
def remaining : Reading Nat := fun tokens => .ok (tokens.length, tokens)

/-- The next token is not what was expected. -/
def unexpected (expected : Expectation) : Reading α := fun tokens =>
  match tokens with
  | [] => overrun tokens
  | token :: _ => .error (.unexpected token expected)

/-- Take the next token. The end of the text stays. -/
def advance : Reading Token := fun tokens =>
  match tokens with
  | [] => overrun tokens
  | token :: rest => .ok (token, if token.kind = .endOfText then tokens else rest)

/-- Whether the next token is a symbol, which stays in place. -/
def sees (symbol : String) : Reading Bool := fun tokens =>
  match tokens with
  | [] => overrun tokens
  | token :: _ => .ok (token.isSymbol symbol, tokens)

/-- Take a symbol if it stands here. -/
def eat (symbol : String) : Reading Bool := fun tokens =>
  match tokens with
  | [] => overrun tokens
  | token :: rest =>
    if token.isSymbol symbol then .ok (true, rest) else .ok (false, tokens)

/-- Take a symbol that must stand here. -/
def expect (symbol : String) : Reading Token := fun tokens =>
  match tokens with
  | [] => overrun tokens
  | token :: rest =>
    if token.isSymbol symbol then .ok (token, rest)
    else .error (.unexpected token (.symbol symbol))

/-- Take an identifier that must stand here. -/
def identifier (expected : Expectation) : Reading Token := fun tokens =>
  match tokens with
  | [] => overrun tokens
  | token :: rest =>
    if token.kind = .identifier then .ok (token, rest)
    else .error (.unexpected token expected)

/-- The finite number that a token spells. -/
def number (token : Token) : Reading Double :=
  match Double.read? token.text with
  | some value => if value.isFinite then pure value else reject token .finiteNumber
  | none => reject token .finiteNumber

end Reading

end SchemaLang
