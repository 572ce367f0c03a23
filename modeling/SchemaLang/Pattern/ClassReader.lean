import SchemaLang.Pattern.Escape

/-!
# Reading character classes

A class between brackets may hold classes of its own, so reading keeps the open
ones on a stack together with the operations that wait for their right side. Each
round of the loop takes at least one character; the number of characters bounds
the rounds.
-/

namespace SchemaLang.Pattern

/-- What waits while an inner part of a class is read. -/
inductive ClassFrame where
  /-- A bracket is open; the items of the class around it are kept in reverse. -/
  | opened (outer : List ClassTree) (negated : Bool)
  /-- An operation has its left side. -/
  | operation (kind : ClassOperation) (left : ClassTree)
deriving Repr

/-- The ASCII class of a name. -/
def AsciiClass.ofName? (name : List Char) : Option AsciiClass :=
  match String.ofList name with
  | "alnum" => some .alnum
  | "alpha" => some .alpha
  | "ascii" => some .ascii
  | "blank" => some .blank
  | "cntrl" => some .cntrl
  | "digit" => some .digit
  | "graph" => some .graph
  | "lower" => some .lower
  | "print" => some .print
  | "punct" => some .punct
  | "space" => some .space
  | "upper" => some .upper
  | "word" => some .word
  | "xdigit" => some .xdigit
  | _ => none

/-- A named ASCII class after its opening bracket, if one stands there. -/
def readAsciiClass? (chars : List Char) : Option (ClassTree × List Char) :=
  match chars with
  | ':' :: rest =>
    let (negated, rest) :=
      match rest with
      | '^' :: rest => (true, rest)
      | rest => (false, rest)
    match rest.dropWhile (· ≠ ':') with
    | ':' :: ']' :: after =>
      (AsciiClass.ofName? (rest.takeWhile (· ≠ ':'))).map fun kind =>
        (.ascii kind negated, after)
    | _ => none
  | _ => none

/-- The hyphens at the start of a class, each standing for itself. -/
def readHyphens (verbose : Bool) (chars : List Char) : List ClassTree × List Char :=
  let (hyphens, rest) := collect verbose (· = '-') false chars
  (hyphens.map fun c => .literal ⟨c, .usual⟩, rest)

/-- The start of a class after its bracket: its sign and the characters that stand
for themselves only here. -/
def readClassStart (verbose : Bool) (chars : List Char) :
    Except Fault (Bool × List ClassTree × List Char) :=
  let (negated, rest) :=
    match skip verbose chars with
    | '^' :: rest => (true, skip verbose rest)
    | rest => (false, rest)
  let (hyphens, rest) := readHyphens verbose rest
  match hyphens, rest with
  | _, [] => .error .classUnclosed
  | [], ']' :: rest =>
    match skip verbose rest with
    | [] => .error .classUnclosed
    | rest => .ok (negated, [.literal ⟨']', .usual⟩], rest)
  | hyphens, rest => .ok (negated, hyphens, rest)

/-- A character or an escape in a class. -/
def readClassItem (verbose : Bool) :
    List Char → Except Fault (Piece × List Char)
  | [] => .error .classUnclosed
  | '\\' :: rest => readEscape verbose rest
  | c :: rest => .ok (.literal ⟨c, .usual⟩, rest)

/-- A piece as an item of a class. -/
def Piece.classItem : Piece → Except Fault ClassTree
  | .literal value => .ok (.literal value)
  | .shorthand value => .ok (.shorthand value)
  | .property query negated => .ok (.property query negated)
  | _ => .error .classEscapeInvalid

/-- A piece as the end of a range. -/
def Piece.rangeEnd : Piece → Except Fault Literal
  | .literal value => .ok value
  | _ => .error .classRangeInvalid

/-- The character after a hyphen that decides whether it begins a range. -/
def afterHyphen (verbose : Bool) (rest : List Char) : Option Char :=
  if verbose then
    match rest.dropWhile Text.isBlank with
    | '#' :: comment => (comment.dropWhile Text.isBlank).head? <|> rest.head?
    | c :: _ => some c
    | [] => rest.head?
  else rest.head?

/-- An item of a class, or a range of characters. -/
def readClassRange (verbose : Bool) (chars : List Char) :
    Except Fault (ClassTree × List Char) := do
  let (first, rest) ← readClassItem verbose chars
  match skip verbose rest with
  | [] => .error .classUnclosed
  | '-' :: rest =>
    let next := afterHyphen verbose rest
    if next = some ']' ∨ next = some '-' then
      return (← first.classItem, '-' :: rest)
    let (last, rest) ← readClassItem verbose (skip verbose rest)
    let low ← first.rangeEnd
    let high ← last.rangeEnd
    if low.char ≤ high.char then return (.range low high, rest)
    else .error .classRangeInvalid
  | rest => return (← first.classItem, rest)

/-- Give a waiting operation its right side. -/
def closeOperation (frames : List ClassFrame) (right : ClassTree) :
    ClassTree × List ClassFrame :=
  match frames with
  | .operation kind left :: frames => (.combined kind left right, frames)
  | frames => (right, frames)

/-- The operation between classes that stands here, if any. -/
def readOperation? : List Char → Option (ClassOperation × List Char)
  | '&' :: '&' :: rest => some (.intersection, rest)
  | '-' :: '-' :: rest => some (.difference, rest)
  | '~' :: '~' :: rest => some (.symmetricDifference, rest)
  | _ => none

/-- Read on inside a class until its outermost bracket is closed. -/
def readClassBody (verbose : Bool) :
    Nat → List ClassFrame → List ClassTree → List Char →
      Except Fault ((Bool × ClassTree) × List Char)
  | 0, _, _, _ => .error .classUnclosed
  | rounds + 1, frames, items, chars =>
    match skip verbose chars with
    | [] => .error .classUnclosed
    | '[' :: rest =>
      match readAsciiClass? rest with
      | some (item, rest) => readClassBody verbose rounds frames (item :: items) rest
      | none =>
        match readClassStart verbose rest with
        | .error fault => .error fault
        | .ok (negated, first, rest) =>
          readClassBody verbose rounds (.opened items negated :: frames) first rest
    | ']' :: rest =>
      let (body, frames) := closeOperation frames (ClassTree.ofItems items.reverse)
      match frames with
      | [.opened _ negated] => .ok ((negated, body), rest)
      | .opened outer negated :: frames =>
        readClassBody verbose rounds frames (.bracketed negated body :: outer) rest
      | _ => .error .classUnclosed
    | c :: rest =>
      match readOperation? (c :: rest) with
      | some (kind, rest) =>
        let (left, frames) := closeOperation frames (ClassTree.ofItems items.reverse)
        readClassBody verbose rounds (.operation kind left :: frames) [] rest
      | none =>
        match readClassRange verbose (c :: rest) with
        | .error fault => .error fault
        | .ok (item, rest) => readClassBody verbose rounds frames (item :: items) rest

/-- A class after its opening bracket: its sign and its body. -/
def readClass (verbose : Bool) (chars : List Char) :
    Except Fault ((Bool × ClassTree) × List Char) := do
  let (negated, first, rest) ← readClassStart verbose chars
  readClassBody verbose (rest.length + 1) [.opened [] negated] first rest

end SchemaLang.Pattern
