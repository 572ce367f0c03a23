import SchemaLang.Pattern.Escape
import SchemaLang.Pattern.Extended

/-!
# Escapes of extended patterns

An escape of an extended pattern is a test of one character, a condition, or a
reference to a group. Inside a class only the tests count, and the class is handed on
in the words of the plain language: each escaped character is written so that it stands
for itself there.
-/

namespace SchemaLang.Pattern

/-- The switches of an extended pattern. -/
structure Manner where
  anyCase : Bool := false
  multiLine : Bool := false
  lineFeeds : Bool := false
  swapGreed : Bool := false
  verbose : Bool := false
deriving DecidableEq, Repr

/-- Where a scan over what is ignored stands. -/
inductive Ignoring where
  | nothing
  | line
  | comment
  | commentEscape
deriving DecidableEq, Repr

/-- Drop what is ignored: comments in parentheses, and where the switch says so blanks
and the rest of a line after a number sign. -/
def dropExtendedIgnored (verbose : Bool) : Ignoring → List Char → Except Fault (List Char)
  | .nothing, '(' :: '?' :: '#' :: rest => dropExtendedIgnored verbose .comment rest
  | .nothing, c :: rest =>
    if verbose && (c = ' ' || c = '\t' || c = '\n' || c = '\r') then
      dropExtendedIgnored verbose .nothing rest
    else if verbose && c = '#' then dropExtendedIgnored verbose .line rest
    else .ok (c :: rest)
  | .line, c :: rest => dropExtendedIgnored verbose (if c = '\n' then .nothing else .line) rest
  | .comment, c :: rest =>
    dropExtendedIgnored verbose
      (if c = ')' then .nothing else if c = '\\' then .commentEscape else .comment) rest
  | .commentEscape, _ :: rest => dropExtendedIgnored verbose .comment rest
  | .nothing, [] => .ok []
  | .line, [] => .ok []
  | _, [] => .error .groupUnclosed

/-- Drop what is ignored at this place. -/
def skipExtended (manner : Manner) (chars : List Char) : Except Fault (List Char) :=
  dropExtendedIgnored manner.verbose .nothing chars

/-- The largest number that can be written. -/
def numberLimit : Nat := 18446744073709551615

/-- A decimal number. -/
def readNumber? (chars : List Char) : Option (Nat × List Char) :=
  let digits := chars.takeWhile Char.isDigit
  let number := Nat.ofDigitChars 10 digits 0
  if digits.isEmpty || numberLimit < number then none
  else some (number, chars.drop digits.length)

/-- The characters with a meaning of their own somewhere in a plain pattern. -/
def isMark (c : Char) : Bool := "\\.+*?()|[]\x7b\x7d^$#&-~".toList.contains c

/-- A character as it stands for itself in a plain pattern. -/
def escapeMark (c : Char) : List Char := if isMark c then ['\\', c] else [c]

/-- The most hexadecimal digits between braces. -/
def bracedDigitLimit : Nat := 8

/-- A character number in hexadecimal digits, after the letter that announces it. -/
def readCode (digitCount : Nat) (chars : List Char) : Except Fault (Char × List Char) :=
  let character (digits rest : List Char) : Except Fault (Char × List Char) :=
    match scalar? (Text.hexNumber digits) with
    | some c => .ok (c, rest)
    | none => .error .hexadecimalInvalid
  let digits := chars.take digitCount
  if digits.length = digitCount && digits.all Text.isHexDigit then
    character digits (chars.drop digitCount)
  else
    match chars with
    | '\x7b' :: rest =>
      let digits := rest.takeWhile Text.isHexDigit
      match rest.drop digits.length with
      | '\x7d' :: rest =>
        if digits.isEmpty || bracedDigitLimit < digits.length then .error .hexadecimalInvalid
        else character digits rest
      | _ => .error .hexadecimalInvalid
    | _ => .error .hexadecimalInvalid

/-- The name of a property in the words of the plain language, after its letter. -/
def readPropertyText (letter : Char) : List Char → Except Fault (List Char × List Char)
  | [] => .error .escapeUnfinished
  | '\x7b' :: rest =>
    let name := rest.takeWhile (· ≠ '\x7d')
    match rest.drop name.length with
    | _ :: rest => .ok ('\\' :: letter :: '\x7b' :: name ++ ['\x7d'], rest)
    | [] => .error .escapeUnfinished
  | c :: rest => .ok (['\\', letter, c], rest)

/-- The letters that stand for a character or a class when escaped, with what they stand
for. -/
def lettered? (manner : Manner) (letter : Char) : Option Atom :=
  let character (code : Nat) : Option Atom := some (.literal (Char.ofNat code) false)
  match letter with
  | 'd' | 'D' | 's' | 'S' | 'w' | 'W' => some (.plain ['\\', letter] manner.anyCase)
  | 'h' => some (.plain "[0-9A-Fa-f]".toList false)
  | 'H' => some (.plain "[^0-9A-Fa-f]".toList false)
  | 'a' => character 7
  | 'b' => character 8
  | 't' => character 9
  | 'n' => character 10
  | 'v' => character 11
  | 'f' => character 12
  | 'r' => character 13
  | 'e' => character 27
  | _ => none

/-- The letters that, escaped, have a meaning outside classes only. -/
def isOuterLetter (c : Char) : Bool := "kAzBKG".toList.contains c

/-- The test of one character that an escape stands for, after the backslash. -/
def readAtom (manner : Manner) : List Char → Except Fault (Atom × List Char)
  | [] => .error .escapeUnfinished
  | c :: rest =>
    match c, lettered? manner c with
    | _, some atom => .ok (atom, rest)
    | 'x', _ => (readCode 2 rest).map fun (c, rest) => (.literal c manner.anyCase, rest)
    | 'u', _ => (readCode 4 rest).map fun (c, rest) => (.literal c manner.anyCase, rest)
    | 'U', _ => (readCode 8 rest).map fun (c, rest) => (.literal c manner.anyCase, rest)
    | 'p', _ =>
      (readPropertyText 'p' rest).map fun (text, rest) => (.plain text manner.anyCase, rest)
    | 'P', _ =>
      (readPropertyText 'P' rest).map fun (text, rest) => (.plain text manner.anyCase, rest)
    | c, _ =>
      if c.isAlpha && !isOuterLetter c then .error (.escapeUnknown (c :: rest))
      else if c.isDigit then .error .backreferenceInvalid
      else .ok (.literal c false, rest)

/-- A test of one character in the words of a plain class. -/
def Atom.classText : Atom → List Char
  | .any _ => ['.']
  | .literal c _ => escapeMark c
  | .plain text _ => text

/-- The text of a class up to the bracket that closes it, in the words of the plain
language. Brackets are only counted here. -/
def readClassText (manner : Manner) :
    Nat → Nat → List Char → Except Fault (List Char × List Char)
  | 0, _, _ => .error .classUnclosed
  | _, _, [] => .error .classUnclosed
  | rounds + 1, opened, c :: rest =>
    let after (opened : Nat) (text rest : List Char) : Except Fault (List Char × List Char) :=
      (readClassText manner rounds opened rest).map fun (others, rest) => (text ++ others, rest)
    match c, opened with
    | '\\', _ =>
      match readAtom manner rest with
      | .ok (atom, rest) => after opened atom.classText rest
      | .error fault => .error fault
    | '[', _ => after (opened + 1) ['['] rest
    | ']', 0 => .ok ([']'], rest)
    | ']', opened + 1 => after opened [']'] rest
    | c, _ => after opened [c] rest

/-- A class after its opening bracket. A closing bracket that comes first stands for
itself. -/
def readClassAtom (manner : Manner) (chars : List Char) : Except Fault (Atom × List Char) :=
  let (sign, rest) :=
    match chars with
    | '^' :: rest => (['^'], rest)
    | rest => ([], rest)
  let (bracket, rest) :=
    match rest with
    | ']' :: rest => ([']'], rest)
    | rest => ([], rest)
  (readClassText manner (rest.length + 1) 0 rest).map fun (text, rest) =>
    (.plain ('[' :: sign ++ bracket ++ text) manner.anyCase, rest)

end SchemaLang.Pattern
