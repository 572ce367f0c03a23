import SchemaLang.Location
import SchemaLang.Text.Quoted

/-!
# Tokens

A source text is read as a list of tokens. The text of a string token is what the
string means; every other token carries its own spelling. The list always ends
with a token for the end of the text.
-/

namespace SchemaLang

/-- The kinds of token. -/
inductive TokenKind where
  | identifier
  | number
  | string
  | symbol
  | endOfText
deriving DecidableEq, Repr

/-- A token with its meaning and its place. -/
structure Token where
  kind : TokenKind
  text : String
  location : Location
deriving DecidableEq, Repr

namespace Token

/-- Whether the token is this symbol. -/
def isSymbol (token : Token) (symbol : String) : Bool :=
  token.kind = .symbol && token.text = symbol

/-- Whether the token is this word. -/
def isKeyword (token : Token) (word : String) : Bool :=
  token.kind = .identifier && token.text = word

/-- The token as messages name it. -/
def describe (token : Token) : String :=
  match token.kind with
  | .endOfText => "end of file"
  | .string => s!"string {Text.quote token.text}"
  | _ => Text.quote token.text

end Token

end SchemaLang
