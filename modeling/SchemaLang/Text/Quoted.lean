import SchemaLang.Text.CharacterClass

/-!
# Quoted text

Two ways to write a text between double quotes. `quote` is the form of a JSON
string: quotes and backslashes are escaped, and so are the control characters
below the space, five of them by a letter and the others by four hexadecimal
digits. `display` is the form for readers of a message: it also shows every
character without a visible form, and every mark that would attach to its
neighbour, by its number.
-/

namespace SchemaLang.Text

/-- The lower-case hexadecimal digit of a value below sixteen. -/
def hexDigitChar (value : Nat) : Char := Nat.digitChar value

/-- The lower-case hexadecimal numeral of a number, without leading zeros. -/
def hexDigits (value : Nat) : List Char := Nat.toDigits 16 value

namespace Quoted

/-- How one character stands in a JSON string. -/
def escape (c : Char) : List Char :=
  if c = '"' then ['\\', '"']
  else if c = '\\' then ['\\', '\\']
  else if 32 ≤ c.toNat then [c]
  else if c = '\n' then ['\\', 'n']
  else if c = '\t' then ['\\', 't']
  else if c = '\r' then ['\\', 'r']
  else if c.toNat = 8 then ['\\', 'b']
  else if c.toNat = 12 then ['\\', 'f']
  else ['\\', 'u', '0', '0', hexDigitChar (c.toNat / 16), hexDigitChar (c.toNat % 16)]

/-- The characters of a JSON string with its quotes. -/
def encode (text : List Char) : List Char :=
  '"' :: (text.flatMap escape ++ ['"'])

/-- How one character stands in a displayed text. -/
def reveal (c : Char) : List Char :=
  if c = '"' then ['\\', '"']
  else if c = '\\' then ['\\', '\\']
  else if c = '\n' then ['\\', 'n']
  else if c = '\t' then ['\\', 't']
  else if c = '\r' then ['\\', 'r']
  else if c.toNat = 0 then ['\\', '0']
  else if !extendsGrapheme c && isPrintable c then [c]
  else ['\\', 'u', '\x7b'] ++ hexDigits c.toNat ++ ['\x7d']

end Quoted

/-- A text as a JSON string. -/
def quote (text : String) : String := String.ofList (Quoted.encode text.toList)

/-- A text between quotes with all that is invisible in it shown. -/
def display (text : String) : String :=
  String.ofList ('"' :: (text.toList.flatMap Quoted.reveal ++ ['"']))

end SchemaLang.Text
