import SchemaLang.Pattern.Tree

/-!
# Extended patterns

An extended pattern may look ahead and behind, refer back to what a group has matched,
keep a first match for good, and choose by a condition. Its tree is taken over a type
of tests for one character: as written while the pattern is read, and as a predicate
while a text is searched.

`least` is the number of characters a match takes at least, and `isConstant` says that
every match takes just as many. `isHard` says that a pattern goes beyond the plain
language, so that it cannot be matched without going back.
-/

namespace SchemaLang.Pattern

/-- A test of one character, as it is written. -/
inductive Atom where
  /-- Any character, line feeds included or not. -/
  | any (lineFeeds : Bool)
  | literal (c : Char) (anyCase : Bool)
  /-- A class or a property in the words of the plain language. -/
  | plain (text : List Char) (anyCase : Bool)
deriving DecidableEq, Repr

/-- Conditions on a position that take no character. -/
inductive Position where
  | startText
  | endText
  | startLine
  | endLine
  | wordBoundary
  | notWordBoundary
  | wordStart
  | wordEnd
deriving DecidableEq, Repr

namespace Position

/-- Whether the condition asks about words. -/
def isAboutWords : Position → Bool
  | .startText | .endText | .startLine | .endLine => false
  | .wordBoundary | .notWordBoundary | .wordStart | .wordEnd => true

end Position

/-- A pattern over tests of one character. -/
inductive Extended (α : Type) where
  | empty
  | one (test : α)
  | position (kind : Position)
  | sequence (items : List (Extended α))
  | alternation (branches : List (Extended α))
  | capture (group : Nat) (body : Extended α)
  /-- No character, where the body matches ahead or behind, or where it does not. -/
  | look (ahead negated : Bool) (body : Extended α)
  | repetition (least : Nat) (most : Option Nat) (greedy : Bool) (body : Extended α)
  /-- What the group has matched once more. -/
  | backreference (group : Nat)
  /-- The first match of the body and no other. -/
  | atomic (body : Extended α)
  /-- Forget where the match started. -/
  | restart
  /-- Where the search started. -/
  | searchStart
  /-- No character, if the group has been entered. -/
  | groupEntered (group : Nat)
  /-- The second part after a match of the first, or else the third. -/
  | conditional (condition yes no : Extended α)
deriving Repr

namespace Extended

variable {α : Type}

/-- Items one after the other without those that are empty. -/
def ofItems (items : List (Extended α)) : Extended α :=
  match items.filter fun item => match item with | .empty => false | _ => true with
  | [] => .empty
  | [item] => item
  | items => .sequence items

/-- Branches to choose from; one branch stands for itself. -/
def ofBranches : List (Extended α) → Extended α
  | [] => .empty
  | [branch] => branch
  | branches => .alternation branches

/-- Whether there is something that can be repeated. -/
def isRepeatable : Extended α → Bool
  | .empty | .position _ | .look _ _ _ => false
  | _ => true

mutual

/-- The least number of characters of a match. -/
def least : Extended α → Nat
  | .one _ => 1
  | .sequence items => leastTotal items
  | .alternation [] => 0
  | .alternation (branch :: branches) => leastOfAny branch.least branches
  | .capture _ body => body.least
  | .repetition count _ _ body => body.least * count
  | .atomic body => body.least
  | .conditional condition yes no => condition.least + min yes.least no.least
  | _ => 0

/-- The least number of characters of items together. -/
def leastTotal : List (Extended α) → Nat
  | [] => 0
  | item :: items => item.least + leastTotal items

/-- The least number of characters of any branch, if it is less than a bound. -/
def leastOfAny (bound : Nat) : List (Extended α) → Nat
  | [] => bound
  | branch :: branches => leastOfAny (min bound branch.least) branches

end

mutual

/-- Whether all matches have the same number of characters. -/
def isConstant : Extended α → Bool
  | .sequence items => allConstant items
  | .alternation [] => true
  | .alternation (branch :: branches) => branch.isConstant && allConstantOf branch.least branches
  | .capture _ body => body.isConstant
  | .repetition least most _ body => body.isConstant && most = some least
  | .backreference _ => false
  | .atomic body => body.isConstant
  | .conditional condition yes no =>
    condition.isConstant && yes.isConstant && no.isConstant &&
      condition.least + yes.least = no.least
  | _ => true

/-- Whether this holds of each item. -/
def allConstant : List (Extended α) → Bool
  | [] => true
  | item :: items => item.isConstant && allConstant items

/-- Whether each branch has matches of one length only. -/
def allConstantOf (length : Nat) : List (Extended α) → Bool
  | [] => true
  | branch :: branches =>
    branch.isConstant && branch.least = length && allConstantOf length branches

end

mutual

/-- Whether a pattern goes beyond the plain language. A group does if something refers
back to it. -/
def isHard (referenced : List Nat) : Extended α → Bool
  | .empty => false
  | .one _ => false
  | .position kind => kind.isAboutWords
  | .sequence items => anyHard referenced items
  | .alternation branches => anyHard referenced branches
  | .capture group body => referenced.contains group || body.isHard referenced
  | .repetition _ _ _ body => body.isHard referenced
  | _ => true

/-- Whether this holds of some item. -/
def anyHard (referenced : List Nat) : List (Extended α) → Bool
  | [] => false
  | item :: items => item.isHard referenced || anyHard referenced items

end

mutual

/-- Whether each look behind has a fixed length, or is a choice between branches that
have one each. -/
def looksBehindFixed : Extended α → Bool
  | .sequence items => allLookBehindFixed items
  | .alternation branches => allLookBehindFixed branches
  | .capture _ body => body.looksBehindFixed
  | .repetition _ _ _ body => body.looksBehindFixed
  | .atomic body => body.looksBehindFixed
  | .look true _ body => body.looksBehindFixed
  | .look false _ body =>
    body.looksBehindFixed &&
      match body with
      | .alternation branches => allConstant branches
      | body => body.isConstant
  | .conditional condition yes no =>
    condition.looksBehindFixed && yes.looksBehindFixed && no.looksBehindFixed
  | _ => true

/-- Whether this holds of each item. -/
def allLookBehindFixed : List (Extended α) → Bool
  | [] => true
  | item :: items => item.looksBehindFixed && allLookBehindFixed items

end

end Extended

end SchemaLang.Pattern
