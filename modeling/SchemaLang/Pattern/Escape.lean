import SchemaLang.Pattern.Tree
import SchemaLang.Text.CharacterClass

/-!
# Escapes of a pattern

What may follow a backslash, and the numerals inside braces. Where whitespace is
ignored, blanks and comments may stand between the characters of a numeral or a
name; every scan here takes that switch and drops what is ignored as it goes, so
each is one pass over the list.
-/

namespace SchemaLang.Pattern

/-- Drop blanks and comments. A comment runs to the end of its line. -/
def dropIgnored (inComment : Bool) : List Char → List Char
  | [] => []
  | c :: rest =>
    if inComment then dropIgnored (c ≠ '\n') rest
    else if Text.isBlank c then dropIgnored false rest
    else if c = '#' then dropIgnored true rest
    else c :: rest

/-- Drop what is ignored at this place. -/
def skip (verbose : Bool) (chars : List Char) : List Char :=
  if verbose then dropIgnored false chars else chars

/-- The longest run of wanted characters, without what is ignored among them, and
what follows it. -/
def collect (verbose : Bool) (wanted : Char → Bool) (inComment : Bool) :
    List Char → List Char × List Char
  | [] => ([], [])
  | c :: rest =>
    if inComment then collect verbose wanted (c ≠ '\n') rest
    else if verbose && Text.isBlank c then collect verbose wanted false rest
    else if verbose && c = '#' then collect verbose wanted true rest
    else if wanted c then
      let (taken, left) := collect verbose wanted false rest
      (c :: taken, left)
    else ([], c :: rest)

/-- Exactly so many wanted characters, without what is ignored among them. -/
def collectExactly (verbose : Bool) (wanted : Char → Bool) :
    Nat → Bool → List Char → Option (List Char × List Char)
  | 0, _, chars => some ([], skip verbose chars)
  | _ + 1, _, [] => none
  | count + 1, inComment, c :: rest =>
    if inComment then collectExactly verbose wanted (count + 1) (c ≠ '\n') rest
    else if verbose && Text.isBlank c then collectExactly verbose wanted (count + 1) false rest
    else if verbose && c = '#' then collectExactly verbose wanted (count + 1) true rest
    else if wanted c then
      (collectExactly verbose wanted count false rest).map fun (taken, left) => (c :: taken, left)
    else none

/-- The character with this number, if there is one. -/
def scalar? (code : Nat) : Option Char :=
  if code < 0xD800 ∨ (0xDFFF < code ∧ code < 0x110000) then some (Char.ofNat code) else none

/-- What an escape or a single character of a pattern means. -/
inductive Piece where
  | literal (value : Literal)
  | anyCharacter
  | assertion (kind : Assertion)
  | shorthand (value : Abbreviation)
  | property (query : Property) (negated : Bool)
deriving DecidableEq, Repr

/-- A piece as a pattern of its own. -/
def Piece.tree : Piece → Tree
  | .literal value => .literal value
  | .anyCharacter => .anyCharacter
  | .assertion kind => .assertion kind
  | .shorthand value => .shorthand value
  | .property query negated => .property query negated

/-- A character number in hexadecimal digits, after the letter that announces it. -/
def readHexadecimal (verbose : Bool) (digitCount : Nat) (chars : List Char) :
    Except Fault (Literal × List Char) :=
  match skip verbose chars with
  | [] => .error .escapeUnfinished
  | '\x7b' :: rest =>
    match collect verbose Text.isHexDigit false rest with
    | (_, []) => .error .escapeUnfinished
    | (digits, c :: rest) =>
      if c ≠ '\x7d' ∨ digits.isEmpty then .error .hexadecimalInvalid
      else
        match scalar? (Text.hexNumber digits) with
        | some char => .ok (⟨char, .usual⟩, skip verbose rest)
        | none => .error .hexadecimalInvalid
  | rest =>
    match collectExactly verbose Text.isHexDigit digitCount false rest with
    | none => .error .hexadecimalInvalid
    | some (digits, rest) =>
      match scalar? (Text.hexNumber digits) with
      | some char => .ok (⟨char, if digitCount = 2 then .byte else .usual⟩, rest)
      | none => .error .hexadecimalInvalid

/-- The text before and after the first place where a mark stands. -/
def splitAtMark (mark : List Char) : List Char → Option (List Char × List Char)
  | [] => none
  | c :: rest =>
    if mark.isPrefixOf (c :: rest) then some ([], (c :: rest).drop mark.length)
    else (splitAtMark mark rest).map fun (before, after) => (c :: before, after)

/-- A property with the sign that its spelling adds to its negation. -/
def Property.ofName (name : List Char) : Property × Bool :=
  match splitAtMark ['!', '='] name with
  | some (name, value) => (.valued name value, true)
  | none =>
    match splitAtMark [':'] name with
    | some (name, value) => (.valued name value, false)
    | none =>
      match splitAtMark ['='] name with
      | some (name, value) => (.valued name value, false)
      | none => (.named name, false)

/-- A property, after the letter that announces it. -/
def readProperty (verbose negated : Bool) (chars : List Char) :
    Except Fault (Piece × List Char) :=
  match skip verbose chars with
  | [] => .error .escapeUnfinished
  | '\x7b' :: rest =>
    match collect verbose (· ≠ '\x7d') false rest with
    | (_, []) => .error .escapeUnfinished
    | (name, _ :: rest) =>
      let (query, differs) := Property.ofName name
      .ok (.property query (negated != differs), rest)
  | c :: rest =>
    if c = '\\' then .error .propertyUnknown
    else .ok (.property (.named [c]) negated, rest)

/-- Which word boundary a name in braces stands for. -/
def boundary? (name : List Char) : Option Assertion :=
  if name = "start".toList then some .wordStart
  else if name = "end".toList then some .wordEnd
  else if name = "start-half".toList then some .wordStartHalf
  else if name = "end-half".toList then some .wordEndHalf
  else none

/-- A word boundary after its letter. Braces that hold no name are left for the
count of a repetition. -/
def readBoundary (verbose : Bool) (chars : List Char) : Except Fault (Piece × List Char) :=
  match chars with
  | '\x7b' :: rest =>
    match skip verbose rest with
    | [] => .error .repetitionUnclosed
    | c :: inner =>
      if c.isAlpha || c = '-' then
        match collect verbose (fun c => c.isAlpha || c = '-') false (c :: inner) with
        | (name, '\x7d' :: rest) =>
          match boundary? name with
          | some kind => .ok (.assertion kind, rest)
          | none => .error .boundaryUnknown
        | _ => .error .boundaryUnknown
      else .ok (.assertion .wordBoundary, chars)
  | _ => .ok (.assertion .wordBoundary, chars)

/-- Whether an escaped character stands for itself: every ASCII character but
letters, digits and the two angle marks. -/
def standsForItself (c : Char) : Bool :=
  c.toNat < 128 && !c.isAlphanum && c ≠ '<' && c ≠ '>'

/-- What stands after a backslash. -/
def readEscape (verbose : Bool) : List Char → Except Fault (Piece × List Char)
  | [] => .error .escapeUnfinished
  | c :: rest =>
    let literal (code : Nat) : Except Fault (Piece × List Char) :=
      .ok (.literal ⟨Char.ofNat code, .usual⟩, rest)
    let shorthand (kind : Shorthand) (negated : Bool) : Except Fault (Piece × List Char) :=
      .ok (.shorthand ⟨kind, negated, rest.length⟩, rest)
    let hexadecimal (digitCount : Nat) : Except Fault (Piece × List Char) :=
      (readHexadecimal verbose digitCount rest).map fun (value, rest) => (.literal value, rest)
    if c.isDigit then .error .backreferenceUnsupported
    else if standsForItself c then literal c.toNat
    else
      match c with
      | 'x' => hexadecimal 2
      | 'u' => hexadecimal 4
      | 'U' => hexadecimal 8
      | 'p' => readProperty verbose false rest
      | 'P' => readProperty verbose true rest
      | 'd' => shorthand .digit false
      | 'D' => shorthand .digit true
      | 's' => shorthand .space false
      | 'S' => shorthand .space true
      | 'w' => shorthand .word false
      | 'W' => shorthand .word true
      | 'a' => .ok (.literal ⟨Char.ofNat 7, .bell⟩, rest)
      | 'f' => literal 12
      | 't' => literal 9
      | 'n' => literal 10
      | 'r' => literal 13
      | 'v' => literal 11
      | 'A' => .ok (.assertion .startText, rest)
      | 'z' => .ok (.assertion .endText, rest)
      | 'b' => readBoundary verbose rest
      | 'B' => .ok (.assertion .notWordBoundary, rest)
      | '<' => .ok (.assertion .wordStart, rest)
      | '>' => .ok (.assertion .wordEnd, rest)
      | _ => .error (.escapeUnknown (c :: rest))

/-- The largest count a repetition may name. -/
def countLimit : Nat := 4294967295

/-- A count inside the braces of a repetition, with the blanks around it. -/
def readCount (verbose : Bool) (chars : List Char) : Except Fault (Nat × List Char) :=
  let (digits, rest) := collect verbose Char.isDigit false (chars.dropWhile Text.isBlank)
  if digits.isEmpty then .error .repetitionInvalid
  else
    let count := digits.foldl (fun total digit => total * 10 + (digit.toNat - '0'.toNat)) 0
    if countLimit < count then .error .repetitionInvalid
    else .ok (count, rest.dropWhile Text.isBlank)

/-- The braces of a repetition after the opening one: the least and the greatest
number of times. -/
def readRange (verbose : Bool) (chars : List Char) :
    Except Fault ((Nat × Option Nat) × List Char) := do
  let closed (range : Nat × Option Nat) (chars : List Char) :
      Except Fault ((Nat × Option Nat) × List Char) :=
    match chars with
    | '\x7d' :: rest => .ok (range, skip verbose rest)
    | _ => .error .repetitionUnclosed
  let (least, rest) ← readCount verbose (skip verbose chars)
  match rest with
  | ',' :: rest =>
    match skip verbose rest with
    | '\x7d' :: rest => closed (least, none) ('\x7d' :: rest)
    | rest =>
      let (most, rest) ← readCount verbose rest
      let answer ← closed (least, some most) rest
      if most < least then .error .repetitionInvalid else .ok answer
  | rest => closed (least, some least) rest

end SchemaLang.Pattern
