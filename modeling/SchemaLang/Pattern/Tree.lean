/-!
# Pattern trees

A pattern is a regular expression as an author writes it. This module holds the
tree that reading produces, before any flag is applied or any name looked up, and
the faults that reading and interpreting can find.

`Tree.depth` and `ClassTree.depth` count the levels that the nesting limit bounds:
classes, repetitions, groups, alternations and sequences of at least two items.
-/

namespace SchemaLang.Pattern

/-- Why a text is no pattern. -/
inductive Fault where
  | groupUnclosed
  | groupUnopened
  | groupNameInvalid
  | groupNameRepeated
  | lookAroundUnsupported
  | flagUnknown
  | flagRepeated
  | flagDangling
  | repetitionMissing
  | repetitionUnclosed
  | repetitionInvalid
  | escapeUnfinished
  /-- The characters from the escaped one on are kept. -/
  | escapeUnknown (rest : List Char)
  | escapeRefused
  | backreferenceUnsupported
  | backreferenceInvalid
  | lookBehindUnbounded
  | hexadecimalInvalid
  | boundaryUnknown
  | classUnclosed
  | classRangeInvalid
  | classEscapeInvalid
  | nestedTooDeep
  | propertyUnknown
  | propertyNotAllowed
  | invalidBytes
deriving DecidableEq, Repr

/-- What is wrong, in words. -/
def Fault.message : Fault → String
  | groupUnclosed => "unclosed group"
  | groupUnopened => "unopened group"
  | groupNameInvalid => "invalid group name"
  | groupNameRepeated => "group name used twice"
  | lookAroundUnsupported => "look-around is not supported"
  | flagUnknown => "unknown flag"
  | flagRepeated => "flag given twice"
  | flagDangling => "flag negation without a flag"
  | repetitionMissing => "repetition of nothing"
  | repetitionUnclosed => "unclosed repetition count"
  | repetitionInvalid => "invalid repetition count"
  | escapeUnfinished => "unfinished escape"
  | escapeUnknown _ => "unknown escape"
  | escapeRefused => "escape without a meaning in schemas"
  | backreferenceUnsupported => "backreferences are not supported"
  | backreferenceInvalid => "backreference to no group"
  | lookBehindUnbounded => "look-behind without a fixed length"
  | hexadecimalInvalid => "invalid hexadecimal character"
  | boundaryUnknown => "unknown word boundary"
  | classUnclosed => "unclosed character class"
  | classRangeInvalid => "invalid character class range"
  | classEscapeInvalid => "invalid escape in a character class"
  | nestedTooDeep => "nested too deep"
  | propertyUnknown => "unknown character property"
  | propertyNotAllowed => "character property without Unicode"
  | invalidBytes => "pattern may match invalid text"

/-- How a character is written, as far as it matters. -/
inductive Spelling where
  | usual
  /-- As two hexadecimal digits, which stand for a byte where the pattern speaks of
  bytes. -/
  | byte
  /-- As the letter that rings a bell. -/
  | bell
deriving DecidableEq, Repr

/-- One character of a pattern. -/
structure Literal where
  char : Char
  spelling : Spelling := .usual
deriving DecidableEq, Repr

/-- The classes with a one-letter escape. -/
inductive Shorthand where
  | digit
  | space
  | word
deriving DecidableEq, Repr

/-- A class written as one letter. Its place in the text is kept as the number of
characters after it. -/
structure Abbreviation where
  kind : Shorthand
  negated : Bool
  after : Nat
deriving DecidableEq, Repr

/-- The classes of ASCII characters with a name. -/
inductive AsciiClass where
  | alnum
  | alpha
  | ascii
  | blank
  | cntrl
  | digit
  | graph
  | lower
  | print
  | punct
  | space
  | upper
  | word
  | xdigit
deriving DecidableEq, Repr

/-- A question about a character's Unicode properties, as it is written. -/
inductive Property where
  | named (name : List Char)
  | valued (name value : List Char)
deriving DecidableEq, Repr

/-- How two classes combine. -/
inductive ClassOperation where
  | intersection
  | difference
  | symmetricDifference
deriving DecidableEq, Repr

/-- A character class between brackets, or a part of one. -/
inductive ClassTree where
  | literal (value : Literal)
  | range (first last : Literal)
  | ascii (kind : AsciiClass) (negated : Bool)
  | shorthand (value : Abbreviation)
  | property (query : Property) (negated : Bool)
  | bracketed (negated : Bool) (body : ClassTree)
  | union (items : List ClassTree)
  | combined (operation : ClassOperation) (left right : ClassTree)
deriving Repr

/-- A sequence of items in a class; one item stands for itself. -/
def ClassTree.ofItems : List ClassTree → ClassTree
  | [item] => item
  | items => .union items

mutual

/-- How deep a class nests. -/
def ClassTree.depth : ClassTree → Nat
  | .bracketed _ body => 1 + body.depth
  | .union [] => 0
  | .union (item :: items) => 1 + max item.depth (ClassTree.depths items)
  | .combined _ left right => 1 + max left.depth right.depth
  | _ => 0

/-- How deep the deepest of some classes nests. -/
def ClassTree.depths : List ClassTree → Nat
  | [] => 0
  | item :: items => max item.depth (ClassTree.depths items)

end

/-- Conditions on a position that take no character. -/
inductive Assertion where
  | startLine
  | endLine
  | startText
  | endText
  | wordBoundary
  | notWordBoundary
  | wordStart
  | wordEnd
  | wordStartHalf
  | wordEndHalf
deriving DecidableEq, Repr

/-- The switches of a pattern. -/
inductive Flag where
  | caseInsensitive
  | multiLine
  | dotMatchesNewLine
  | swapGreed
  | unicode
  | carriageReturns
  | ignoreWhitespace
deriving DecidableEq, Repr

/-- Switches with their new positions, in the order written. -/
abbrev FlagChange := List (Flag × Bool)

/-- What a pair of parentheses does. -/
inductive GroupKind where
  | capture
  | plain (change : FlagChange)
deriving DecidableEq, Repr

/-- A pattern as written. -/
inductive Tree where
  | empty
  | flags (change : FlagChange)
  | literal (value : Literal)
  | anyCharacter
  | assertion (kind : Assertion)
  | shorthand (value : Abbreviation)
  | property (query : Property) (negated : Bool)
  | bracketed (negated : Bool) (body : ClassTree)
  | repetition (least : Nat) (most : Option Nat) (body : Tree)
  | group (kind : GroupKind) (body : Tree)
  | alternation (branches : List Tree)
  | sequence (items : List Tree)
deriving Repr

namespace Tree

/-- Items one after the other; one item stands for itself. -/
def ofItems : List Tree → Tree
  | [] => .empty
  | [item] => item
  | items => .sequence items

/-- Branches to choose from; one branch stands for itself. -/
def ofBranches : List Tree → Tree
  | [] => .empty
  | [branch] => branch
  | branches => .alternation branches

/-- Whether there is something that can be repeated. -/
def isRepeatable : Tree → Bool
  | .empty => false
  | .flags _ => false
  | _ => true

mutual

/-- How deep a pattern nests. -/
def depth : Tree → Nat
  | .bracketed _ body => 1 + body.depth
  | .repetition _ _ body => 1 + body.depth
  | .group _ body => 1 + body.depth
  | .alternation branches => 1 + depths branches
  | .sequence items => 1 + depths items
  | _ => 0

/-- How deep the deepest of some patterns nests. -/
def depths : List Tree → Nat
  | [] => 0
  | item :: items => max item.depth (depths items)

end

/-- The deepest nesting a pattern may have. -/
def depthLimit : Nat := 250

end Tree

end SchemaLang.Pattern
