import SchemaLang.Pattern.Matcher
import SchemaLang.Pattern.Property
import SchemaLang.Pattern.Reader

/-!
# The meaning of patterns

A tree is turned into a matcher from left to right, because a group of switches
acts on all that follows it up to the end of the group around it, later branches
included. Two kinds of fault appear only here: names of properties that do not
exist, and patterns that, with Unicode switched off, could match half a character.

The size of a matcher is not bounded. An engine that compiles patterns into programs
also refuses a pattern whose program would be too large, such as a long repetition of
a large class; here it has a matcher like any other. So `compilePlain` accepts every
pattern that such an engine accepts, and these besides.
-/

namespace SchemaLang.Pattern

/-- The positions of the switches at a place in a pattern. -/
structure Switches where
  caseInsensitive : Bool := false
  multiLine : Bool := false
  dotMatchesNewLine : Bool := false
  carriageReturns : Bool := false
  unicode : Bool := true

namespace Switches

/-- Turn one switch. How greedily a repetition takes its text, and how a pattern is
laid out, does not change whether a text matches. -/
def set (switches : Switches) : Flag × Bool → Switches
  | (.caseInsensitive, on) => { switches with caseInsensitive := on }
  | (.multiLine, on) => { switches with multiLine := on }
  | (.dotMatchesNewLine, on) => { switches with dotMatchesNewLine := on }
  | (.carriageReturns, on) => { switches with carriageReturns := on }
  | (.unicode, on) => { switches with unicode := on }
  | (.swapGreed, _) => switches
  | (.ignoreWhitespace, _) => switches

/-- Turn several switches. -/
def change (switches : Switches) (flags : FlagChange) : Switches :=
  flags.foldl set switches

end Switches

/-- The characters equal to a character up to case. Without Unicode only ASCII letters
have two cases. -/
def Switches.variants (switches : Switches) (c : Char) : List Char :=
  if switches.unicode then Text.caseVariants c else [c.toLower, c.toUpper]

/-- A set of characters, widened to all cases if the switch says so. -/
def foldCase (switches : Switches) (set : Char → Bool) : Char → Bool :=
  if switches.caseInsensitive then fun c => (switches.variants c).any set else set

/-- A set of characters or what it leaves out. -/
def signed (negated : Bool) (set : Char → Bool) : Char → Bool :=
  fun c => set c != negated

/-- The characters of a one-letter class. -/
def Shorthand.set (switches : Switches) (kind : Shorthand) : Char → Bool :=
  match kind, switches.unicode with
  | .digit, true => Text.isDecimalDigit
  | .space, true => Text.isBlank
  | .word, true => Text.isWordCharacter
  | .digit, false => Char.isDigit
  | .word, false => fun c => c.isAlphanum || c = '_'
  | .space, false => fun c => (9 ≤ c.toNat && c.toNat ≤ 13) || c = ' '

/-- The characters of a named ASCII class. -/
def AsciiClass.set (kind : AsciiClass) (c : Char) : Bool :=
  let printed := 32 < c.toNat && c.toNat < 127
  match kind with
  | .alnum => c.isAlphanum
  | .alpha => c.isAlpha
  | .ascii => c.toNat < 128
  | .blank => c = ' ' || c = '\t'
  | .cntrl => c.toNat < 32 || c.toNat = 127
  | .digit => c.isDigit
  | .graph => printed
  | .lower => c.isLower
  | .print => printed || c = ' '
  | .punct => printed && !c.isAlphanum
  | .space => (9 ≤ c.toNat && c.toNat ≤ 13) || c = ' '
  | .upper => c.isUpper
  | .word => c.isAlphanum || c = '_'
  | .xdigit => Text.isHexDigit c

/-- A character outside a class. A byte above ASCII is no text. -/
def Literal.set (switches : Switches) (literal : Literal) : Except Fault (Char → Bool) :=
  if !switches.unicode && literal.spelling = .byte && 127 < literal.char.toNat then
    .error .invalidBytes
  else .ok (foldCase switches (· = literal.char))

/-- A character inside a class, where without Unicode only ASCII may stand. -/
def Literal.member (switches : Switches) (literal : Literal) : Except Fault Char :=
  if switches.unicode || literal.char.toNat < 128 then .ok literal.char
  else if literal.spelling = .byte then .error .invalidBytes
  else .error .propertyNotAllowed

/-- A set that is negated only if it then still holds whole characters. -/
def signedText (switches : Switches) (negated : Bool) (set : Char → Bool) :
    Except Fault (Char → Bool) :=
  if negated && !switches.unicode then .error .invalidBytes else .ok (signed negated set)

/-- The characters of a property. -/
def Property.set (switches : Switches) (query : Property) (negated : Bool) :
    Except Fault (Char → Bool) :=
  if switches.unicode then
    match query.set? with
    | some set => .ok (signed negated (foldCase switches set))
    | none => .error .propertyUnknown
  else .error .propertyNotAllowed

mutual

/-- The characters of a class. -/
def ClassTree.set (switches : Switches) : ClassTree → Except Fault (Char → Bool)
  | .literal value => do
    let c ← value.member switches
    return foldCase switches (· = c)
  | .range first last => do
    let low ← first.member switches
    let high ← last.member switches
    return foldCase switches fun c => low ≤ c && c ≤ high
  | .ascii kind negated => signedText switches negated (foldCase switches kind.set)
  | .shorthand value => signedText switches value.negated (value.kind.set switches)
  | .property query negated => query.set switches negated
  | .bracketed negated body => do
    signedText switches negated (← body.set switches)
  | .union items => ClassTree.setOfAny switches items
  | .combined operation left right => do
    let left ← left.set switches
    let right ← right.set switches
    match operation with
    | .intersection => return fun c => left c && right c
    | .difference => return fun c => left c && !right c
    | .symmetricDifference => return fun c => left c != right c

/-- The characters of at least one of some classes. -/
def ClassTree.setOfAny (switches : Switches) : List ClassTree → Except Fault (Char → Bool)
  | [] => .ok fun _ => false
  | item :: items => do
    let first ← item.set switches
    let others ← ClassTree.setOfAny switches items
    return fun c => first c || others c

end

/-- Whether a position is at a line feed or, where carriage returns count, at either
of the two characters that end a line. -/
def startsLine (carriageReturns : Bool) (before after : Option Char) : Bool :=
  before.isNone || before = some '\n' ||
    (carriageReturns && before = some '\r' && after ≠ some '\n')

/-- Whether a line ends at a position. -/
def endsLine (carriageReturns : Bool) (before after : Option Char) : Bool :=
  after.isNone ||
    (if carriageReturns then after = some '\r' || (after = some '\n' && before ≠ some '\r')
     else after = some '\n')

/-- The condition that an assertion puts on the neighbours of a position. -/
def Assertion.holds (switches : Switches) (kind : Assertion) (before after : Option Char) :
    Bool :=
  let isWord : Char → Bool :=
    if switches.unicode then Text.isWordCharacter else fun c => c.isAlphanum || c = '_'
  let left := before.any isWord
  let right := after.any isWord
  match kind with
  | .startText => before.isNone
  | .endText => after.isNone
  | .startLine =>
    if switches.multiLine then startsLine switches.carriageReturns before after
    else before.isNone
  | .endLine =>
    if switches.multiLine then endsLine switches.carriageReturns before after
    else after.isNone
  | .wordBoundary => left != right
  | .notWordBoundary => left == right
  | .wordStart => !left && right
  | .wordEnd => left && !right
  | .wordStartHalf => !left
  | .wordEndHalf => !right

/-- Whether the dot takes a character. -/
def dotTakes (switches : Switches) (c : Char) : Bool :=
  switches.dotMatchesNewLine || (c ≠ '\n' && !(switches.carriageReturns && c = '\r'))

mutual

/-- The matcher of a tree, and the switches after it. -/
def Tree.interpret (switches : Switches) : Tree → Except Fault (Matcher × Switches)
  | .empty => .ok (.empty, switches)
  | .flags change => .ok (.empty, switches.change change)
  | .literal value => do
    return (.character (← value.set switches), switches)
  | .anyCharacter =>
    if switches.unicode then .ok (.character (dotTakes switches), switches)
    else .error .invalidBytes
  | .assertion kind => .ok (.between (kind.holds switches), switches)
  | .shorthand value => do
    let set ← signedText switches value.negated (value.kind.set switches)
    return (.character set, switches)
  | .property query negated => do
    return (.character (← query.set switches negated), switches)
  | .bracketed negated body => do
    return (.character (← signedText switches negated (← body.set switches)), switches)
  | .repetition least most body => do
    let (body, switches) ← body.interpret switches
    return (.repetition least most body, switches)
  | .group kind body => do
    let inner :=
      match kind with
      | .plain change => switches.change change
      | _ => switches
    let (body, _) ← body.interpret inner
    return (body, switches)
  | .alternation branches => Tree.interpretBranches switches branches
  | .sequence items => Tree.interpretItems switches items

/-- The matcher of items one after the other. -/
def Tree.interpretItems (switches : Switches) : List Tree → Except Fault (Matcher × Switches)
  | [] => .ok (.empty, switches)
  | item :: items => do
    let (first, switches) ← item.interpret switches
    let (others, switches) ← Tree.interpretItems switches items
    return (.sequence first others, switches)

/-- The matcher of branches to choose from. The empty choice matches nothing. -/
def Tree.interpretBranches (switches : Switches) :
    List Tree → Except Fault (Matcher × Switches)
  | [] => .ok (.character fun _ => false, switches)
  | branch :: branches => do
    let (first, switches) ← branch.interpret switches
    let (others, switches) ← Tree.interpretBranches switches branches
    return (.choice first others, switches)

end

/-- Read a pattern, with Unicode switched on and no other switch. -/
def compilePlain (text : List Char) : Except Fault Matcher := do
  let tree ← Tree.read text
  return (← tree.interpret {}).1

end SchemaLang.Pattern
