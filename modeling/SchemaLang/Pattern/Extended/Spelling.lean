import SchemaLang.Pattern.Extended

/-!
# Extended patterns in plain words

A pattern that does not go beyond the plain language is spelled in it, and so are the
parts of a hard pattern that are matched on their own. Parentheses are put where a part
binds less tightly than its place asks for.
-/

namespace SchemaLang.Pattern

/-- How tightly a place in a pattern binds. -/
inductive Binding where
  | alternation
  | sequence
  | repetition
  | item
deriving DecidableEq, Repr

/-- The place of a way of binding among the others, loosest first. -/
def Binding.rank : Binding → Nat
  | .alternation => 0
  | .sequence => 1
  | .repetition => 2
  | .item => 3

/-- A text in parentheses that capture nothing, if a part binds less tightly than its
place. -/
def enclose (part place : Binding) (text : List Char) : List Char :=
  if part.rank < place.rank then "(?:".toList ++ text ++ [')'] else text

/-- A text that takes letters in any case. -/
def inAnyCase (anyCase : Bool) (text : List Char) : List Char :=
  if anyCase then "(?i:".toList ++ text ++ [')'] else text

/-- The characters that are marks outside classes. -/
def isOuterMark (c : Char) : Bool := "\\.+*?()|[]\x7b\x7d^$#".toList.contains c

/-- A test of one character in plain words. -/
def Atom.spelling : Atom → List Char
  | .any true => "(?s:.)".toList
  | .any false => ['.']
  | .literal c anyCase => inAnyCase anyCase (if isOuterMark c then ['\\', c] else [c])
  | .plain text anyCase => inAnyCase anyCase text

/-- A condition on a position in plain words. -/
def Position.spelling : Position → List Char
  | .startText => ['^']
  | .endText => ['$']
  | .startLine => "(?m:^)".toList
  | .endLine => "(?m:$)".toList
  | .wordBoundary => "\\b".toList
  | .notWordBoundary => "\\B".toList
  | .wordStart => "\\<".toList
  | .wordEnd => "\\>".toList

/-- How often a part is repeated, in plain words. -/
def countSpelling (least : Nat) (most : Option Nat) : List Char :=
  match least, most with
  | 0, some 1 => ['?']
  | 0, none => ['*']
  | 1, none => ['+']
  | least, most =>
    let upTo :=
      if most = some least then ""
      else "," ++ (most.map toString).getD ""
    ("\x7b" ++ toString least ++ upTo ++ "\x7d").toList

mutual

/-- A pattern in plain words at a place. What has no plain words is left out. -/
def Extended.spelling (place : Binding) : Extended Atom → List Char
  | .one test => test.spelling
  | .position kind => kind.spelling
  | .sequence items => enclose .sequence place (Extended.spellingOfItems items)
  | .alternation branches => enclose .alternation place (Extended.spellingOfBranches branches)
  | .capture _ body => '(' :: body.spelling .alternation ++ [')']
  | .repetition least most greedy body =>
    enclose .repetition place
      (body.spelling .item ++ countSpelling least most ++ if greedy then [] else ['?'])
  | _ => []

/-- Items in plain words, one after the other. -/
def Extended.spellingOfItems : List (Extended Atom) → List Char
  | [] => []
  | item :: items => item.spelling .repetition ++ Extended.spellingOfItems items

/-- Branches in plain words with bars between them. -/
def Extended.spellingOfBranches : List (Extended Atom) → List Char
  | [] => []
  | [branch] => branch.spelling .sequence
  | branch :: branches => branch.spelling .sequence ++ '|' :: Extended.spellingOfBranches branches

end

namespace Extended

mutual

/-- The parts of a pattern that are matched as plain patterns. In a place where what
follows may ask for another match only tests of one character are; elsewhere whole
parts that do not go beyond the plain language. -/
def plainParts (referenced : List Nat) (retried : Bool) (tree : Extended Atom) :
    List (Extended Atom) :=
  if !retried && !tree.isHard referenced then [tree]
  else
    match tree with
    | .one test => [.one test]
    | .sequence items => plainPartsOfItems referenced retried items
    | .alternation branches => plainPartsOfBranches referenced retried branches
    | .capture _ body => body.plainParts referenced retried
    | .repetition least most greedy body =>
      if least = 0 ∧ most = some 1 then body.plainParts referenced retried
      else
        body.plainParts referenced
          (retried || (Extended.repetition least most greedy body).isHard referenced)
    | .look _ _ body => body.plainParts referenced false
    | .atomic body => body.plainParts referenced false
    | .conditional condition yes no =>
      condition.plainParts referenced retried ++ yes.plainParts referenced retried ++
        no.plainParts referenced retried
    | _ => []

/-- The plain parts of items one after the other. Only after the last hard item is
nothing asked for again. -/
def plainPartsOfItems (referenced : List Nat) (retried : Bool) :
    List (Extended Atom) → List (Extended Atom)
  | [] => []
  | item :: items =>
    if !retried && !anyHard referenced (item :: items) then item :: items
    else item.plainParts referenced true ++ plainPartsOfItems referenced retried items

/-- The plain parts of branches. -/
def plainPartsOfBranches (referenced : List Nat) (retried : Bool) :
    List (Extended Atom) → List (Extended Atom)
  | [] => []
  | branch :: branches =>
    branch.plainParts referenced retried ++ plainPartsOfBranches referenced retried branches

end

end Extended

end SchemaLang.Pattern
