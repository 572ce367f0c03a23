import SchemaLang.Pattern.Extended.Escape

/-!
# Reading extended patterns

As with plain patterns the reader walks over the text once and keeps open groups on a
stack; each round takes at least one character, and the number of characters bounds the
rounds. The item read last waits until it is known whether it is repeated.

A switch set inside parentheses holds beyond them unless the parentheses themselves are
those of switches.
-/

namespace SchemaLang.Pattern

/-- What a pair of parentheses does. -/
inductive Parenthesis where
  | capture (group : Nat)
  | look (ahead negated : Bool)
  | atomic
  /-- Switches end with the parentheses; those from before them are kept. -/
  | plain (before : Manner)
  /-- The condition of a choice. -/
  | condition
  /-- The two sides of a choice whose condition is known. -/
  | sides (condition : Extended Atom)
deriving Repr

/-- A group that waits for its closing parenthesis, with what stands before it. -/
structure ExtendedFrame where
  kind : Parenthesis
  branches : List (Extended Atom)
  items : List (Extended Atom)
deriving Repr

/-- Where reading stands. Branches and items of the current group are kept in reverse. -/
structure ExtendedState where
  manner : Manner := {}
  /-- The number of groups opened so far. -/
  groups : Nat := 0
  names : List (List Char × Nat) := []
  /-- Whether a group is referred to by its number. -/
  numbered : Bool := false
  referenced : List Nat := []
  frames : List ExtendedFrame := []
  branches : List (Extended Atom) := []
  items : List (Extended Atom) := []
  /-- The item that may still be repeated. -/
  last? : Option (Extended Atom) := none
deriving Repr

namespace ExtendedState

/-- The state in which nothing waits to be repeated. -/
def settle (state : ExtendedState) : ExtendedState :=
  { state with items := state.last?.toList ++ state.items, last? := none }

/-- The state with one more item, which may be repeated. -/
def push (state : ExtendedState) (item : Extended Atom) : ExtendedState :=
  { state.settle with last? := some item }

/-- The state after a branch has ended. -/
def nextBranch (state : ExtendedState) : ExtendedState :=
  let state := state.settle
  { state with branches := .ofItems state.items.reverse :: state.branches, items := [] }

/-- All of the current group. References by number do not go together with names. -/
def body (state : ExtendedState) : Except Fault (Extended Atom) :=
  let state := state.settle
  if state.branches.isEmpty && state.numbered && !state.names.isEmpty then
    .error .backreferenceInvalid
  else .ok (.ofBranches (.ofItems state.items.reverse :: state.branches).reverse)

/-- The most parentheses inside each other. -/
def depthLimit : Nat := 63

/-- The state inside new parentheses. -/
def enter (state : ExtendedState) (kind : Parenthesis) : ExtendedState :=
  let state := state.settle
  { state with
    frames := ⟨kind, state.branches, state.items⟩ :: state.frames
    branches := []
    items := [] }

/-- The state after a reference to a group that has been opened. -/
def refer (state : ExtendedState) (group : Nat) : Except Fault ExtendedState :=
  if group ≤ state.groups then .ok { state with referenced := group :: state.referenced }
  else .error .backreferenceInvalid

end ExtendedState

/-- A choice by a condition. The first branch is taken if the condition holds, the
others if not. If there is nothing to choose from, the condition stands for itself. -/
def Extended.ofSides (condition : Extended Atom) : Extended Atom → Extended Atom
  | .empty => condition
  | .alternation [.empty, .empty] => condition
  | .alternation (yes :: no) => .conditional condition yes (.ofBranches no)
  | yes => .conditional condition yes .empty

/-- A condition with the text after it. A reference to a group asks whether the group
was entered; after any other condition the sides may not be left out. -/
def Extended.asCondition (rest : List Char) : Extended Atom → Except Fault (Extended Atom)
  | .backreference group => .ok (.groupEntered group)
  | condition => if rest.head? = some ')' then .error .repetitionMissing else .ok condition

/-- The state after a closing parenthesis, with the text that follows it. -/
def ExtendedState.leave (state : ExtendedState) (rest : List Char) :
    Except Fault ExtendedState := do
  let body ← state.body
  match state.frames with
  | [] => .error .groupUnopened
  | frame :: frames =>
    let outer := { state with
      frames := frames, branches := frame.branches, items := frame.items, last? := none }
    match frame.kind with
    | .capture group => return outer.push (.capture group body)
    | .look ahead negated => return outer.push (.look ahead negated body)
    | .atomic => return outer.push (.atomic body)
    | .plain manner => return { outer with manner := manner }.push body
    | .condition => return outer.enter (.sides (← body.asCondition rest))
    | .sides condition => return outer.push (.ofSides condition body)

/-- Whether a character may stand in the name of a group. -/
def isGroupNameCharacter (c : Char) : Bool := Text.isAlphanumeric c || c = '_'

/-- A name up to a closing mark. -/
def readNameUpTo (close : Char) (chars : List Char) : Except Fault (List Char × List Char) :=
  let name := chars.takeWhile isGroupNameCharacter
  match name, chars.drop name.length with
  | [], _ => .error .groupNameInvalid
  | name, c :: rest => if c = close then .ok (name, rest) else .error .groupNameInvalid
  | _, [] => .error .groupNameInvalid

/-- The group that a name or a number in its place stands for. -/
def ExtendedState.groupNamed (state : ExtendedState) (name : List Char) : Except Fault Nat :=
  match state.names.lookup name, readNumber? name with
  | some group, _ => .ok group
  | none, some (group, []) => .ok group
  | none, _ => .error .backreferenceInvalid

/-- The mark that closes a name after the one that opens it. -/
def closingMark (mark : Char) : Except Fault Char :=
  if mark = '<' then .ok '>'
  else if mark.toNat = 39 then .ok mark
  else .error .groupNameInvalid

/-- The group that stands in a reference up to a closing mark: a name, a number, or a
minus sign and how many groups back. -/
def ExtendedState.readGroup (state : ExtendedState) (close : Char) (chars : List Char) :
    Except Fault (Nat × List Char) :=
  match chars with
  | '-' :: rest =>
    match readNumber? rest with
    | some (back, c :: rest) =>
      if c = close && 0 < back && back ≤ state.groups then .ok (state.groups + 1 - back, rest)
      else .error .backreferenceInvalid
    | _ => .error .backreferenceInvalid
  | chars => do
    let (name, rest) ← readNameUpTo close chars
    return (← state.groupNamed name, rest)

/-- A group by its number. The length of the pattern bounds the number. -/
def ExtendedState.readNumbered (state : ExtendedState) (size : Nat) (chars : List Char) :
    Except Fault (Nat × ExtendedState × List Char) :=
  match readNumber? chars with
  | some (group, rest) =>
    if group < size / 2 then .ok (group, { state with numbered := true }, rest)
    else .error .backreferenceInvalid
  | none => .error .backreferenceInvalid

/-- The state after a reference to a group. -/
def ExtendedState.pushReference (state : ExtendedState) (group : Nat) :
    Except Fault ExtendedState :=
  (state.refer group).map (·.push (.backreference group))

/-- An escape after its backslash. -/
def ExtendedState.readEscape (state : ExtendedState) (size : Nat) (chars : List Char) :
    Except Fault (ExtendedState × List Char) :=
  let position (kind : Position) (rest : List Char) : Except Fault (ExtendedState × List Char) :=
    .ok (state.push (.position kind), rest)
  let boundary (kind : Position) (rest : List Char) : Except Fault (ExtendedState × List Char) :=
    match rest with
    | '\x7b' :: _ => .error .boundaryUnknown
    | rest => position kind rest
  match chars with
  | 'A' :: rest => position .startText rest
  | 'z' :: rest => position .endText rest
  | 'b' :: rest => boundary .wordBoundary rest
  | 'B' :: rest => boundary .notWordBoundary rest
  | '<' :: rest => position .wordStart rest
  | '>' :: rest => position .wordEnd rest
  | 'K' :: rest => .ok (state.push .restart, rest)
  | 'G' :: rest => .ok (state.push .searchStart, rest)
  | 'k' :: mark :: rest => do
    let (group, rest) ← state.readGroup (← closingMark mark) rest
    return (← state.pushReference group, rest)
  | ['k'] => .error .groupNameInvalid
  | chars => do
    if chars.head?.any Char.isDigit then
      let (group, state, rest) ← state.readNumbered size chars
      return (← state.pushReference group, rest)
    else
      let (atom, rest) ← readAtom state.manner chars
      return (state.push (.one atom), rest)

/-- Turn one switch. -/
def Manner.set (manner : Manner) (letter : Char) (on : Bool) : Option Manner :=
  match letter with
  | 'i' => some { manner with anyCase := on }
  | 'm' => some { manner with multiLine := on }
  | 's' => some { manner with lineFeeds := on }
  | 'U' => some { manner with swapGreed := on }
  | 'x' => some { manner with verbose := on }
  | 'u' => if on then some manner else none
  | _ => none

/-- The switches up to a colon or a closing parenthesis, which is left in place.
`previous` is the character before, with the question mark before the first. -/
def readManner : Nat → Manner → Bool → Char → List Char → Except Fault (Manner × List Char)
  | 0, _, _, _, _ => .error .groupUnclosed
  | rounds + 1, manner, on, previous, chars => do
    let rest ← skipExtended manner chars
    let previous := if rest.length < chars.length then ' ' else previous
    match rest with
    | [] => .error .groupUnclosed
    | ')' :: rest =>
      if previous = '?' || previous = '-' then .error .flagDangling
      else return (manner, ')' :: rest)
    | ':' :: rest =>
      if previous = '-' then .error .flagDangling else return (manner, ':' :: rest)
    | '-' :: rest =>
      if on then readManner rounds manner false '-' rest else .error .flagRepeated
    | letter :: rest =>
      match manner.set letter on with
      | some manner => readManner rounds manner on letter rest
      | none => .error .flagUnknown

/-- An opening parenthesis and what it begins. -/
def ExtendedState.readOpening (state : ExtendedState) (size : Nat) (chars : List Char) :
    Except Fault (ExtendedState × List Char) := do
  if ExtendedState.depthLimit ≤ state.frames.length then .error .nestedTooDeep
  else
    let captured := { state with groups := state.groups + 1 }
    let named (rest : List Char) : Except Fault (ExtendedState × List Char) := do
      let (name, rest) ← readNameUpTo '>' rest
      let names := (name, captured.groups) :: captured.names
      return ({ captured with names := names }.enter (.capture captured.groups), rest)
    let closed (group : Nat) (state : ExtendedState) (rest : List Char) :
        Except Fault (ExtendedState × List Char) := do
      match ← skipExtended state.manner rest with
      | ')' :: rest =>
        let state ← state.refer group
        return (state.enter (.sides (.groupEntered group)), rest)
      | _ => .error .groupUnclosed
    match ← skipExtended state.manner chars with
    | '?' :: '=' :: rest => return (state.enter (.look true false), rest)
    | '?' :: '!' :: rest => return (state.enter (.look true true), rest)
    | '?' :: '<' :: '=' :: rest => return (state.enter (.look false false), rest)
    | '?' :: '<' :: '!' :: rest => return (state.enter (.look false true), rest)
    | '?' :: '<' :: rest => named rest
    | '?' :: 'P' :: '<' :: rest => named rest
    | '?' :: 'P' :: '=' :: rest =>
      let (name, rest) ← readNameUpTo ')' rest
      return (← state.pushReference (← state.groupNamed name), rest)
    | '?' :: '>' :: rest => return (state.enter .atomic, rest)
    | '?' :: '(' :: first :: rest =>
      if first.isDigit then
        let (group, state, rest) ← state.readNumbered size (first :: rest)
        closed group state rest
      else
        match closingMark first with
        | .ok mark =>
          let (group, rest) ← state.readGroup mark rest
          closed group state rest
        | .error _ => return (state.enter .condition, first :: rest)
    | '?' :: rest =>
      match ← readManner (rest.length + 1) state.manner true '?' rest with
      | (manner, ':' :: rest) =>
        return ({ state.enter (.plain state.manner) with manner := manner }, rest)
      | (manner, rest) => return ({ state with manner := manner }.push .empty, rest.drop 1)
    | rest => return (captured.enter (.capture captured.groups), rest)

/-- The braces of a repetition after the opening one, if they hold a count: the least
and the greatest number of times. -/
def readExtendedRange? (manner : Manner) (chars : List Char) :
    Option ((Nat × Option Nat) × List Char) := do
  let chars ← (skipExtended manner chars).toOption
  let (least, rest) ←
    match chars with
    | ',' :: rest => some (0, ',' :: rest)
    | chars => readNumber? chars
  let rest ← (skipExtended manner rest).toOption
  let (most, rest) ←
    match rest with
    | ',' :: rest => do
      let rest ← (skipExtended manner rest).toOption
      match readNumber? rest with
      | some (most, rest) => some (some most, rest)
      | none => some (none, rest)
    | rest => some (some least, rest)
  match ← (skipExtended manner rest).toOption with
  | '\x7d' :: rest => some ((least, most), rest)
  | _ => none

/-- Repeat the last item. A question mark changes how much is taken first, and a plus
sign keeps what was taken. -/
def ExtendedState.repeatLast (state : ExtendedState) (least : Nat) (most : Option Nat)
    (chars : List Char) : Except Fault (ExtendedState × List Char) := do
  match state.last? with
  | none => .error .repetitionMissing
  | some item =>
    if !item.isRepeatable then .error .repetitionMissing
    else
      let rest ← skipExtended state.manner chars
      let (greedy, rest) :=
        match rest with
        | '?' :: rest => (false, rest)
        | rest => (true, rest)
      let repeated := .repetition least most (greedy != state.manner.swapGreed) item
      let (item, rest) :=
        match rest with
        | '+' :: rest => (.atomic repeated, rest)
        | rest => (repeated, rest)
      return ({ state with last? := some item }.settle, rest)

/-- One round of reading at a character. -/
def ExtendedState.step (state : ExtendedState) (size : Nat) (c : Char) (rest : List Char) :
    Except Fault (ExtendedState × List Char) :=
  let literal : Except Fault (ExtendedState × List Char) :=
    .ok (state.push (.one (.literal c state.manner.anyCase)), rest)
  match c with
  | '|' => .ok (state.nextBranch, rest)
  | ')' => (state.leave rest).map fun state => (state, rest)
  | '?' => state.repeatLast 0 (some 1) rest
  | '*' => state.repeatLast 0 none rest
  | '+' => state.repeatLast 1 none rest
  | '\x7b' =>
    match state.last?, readExtendedRange? state.manner rest with
    | some _, some ((least, most), rest) => state.repeatLast least most rest
    | _, _ => literal
  | '(' => state.readOpening size rest
  | '[' =>
    (readClassAtom state.manner rest).map fun (atom, rest) => (state.push (.one atom), rest)
  | '\\' => state.readEscape size rest
  | '.' => .ok (state.push (.one (.any state.manner.lineFeeds)), rest)
  | '^' =>
    .ok (state.push (.position (if state.manner.multiLine then .startLine else .startText)), rest)
  | '$' =>
    .ok (state.push (.position (if state.manner.multiLine then .endLine else .endText)), rest)
  | _ => literal

/-- An extended pattern with the groups that something refers back to, and the number of
its groups. -/
structure ExtendedPattern where
  tree : Extended Atom
  referenced : List Nat
  groups : Nat
deriving Repr

/-- Read on to the end of the text. -/
def readExtendedRounds (size : Nat) :
    Nat → ExtendedState → List Char → Except Fault ExtendedPattern
  | rounds, state, chars => do
    match rounds, ← skipExtended state.manner chars with
    | _, [] =>
      if state.frames.isEmpty then return ⟨← state.body, state.referenced, state.groups⟩
      else .error .groupUnclosed
    | 0, _ => .error .nestedTooDeep
    | rounds + 1, c :: rest =>
      let (state, rest) ← state.step size c rest
      readExtendedRounds size rounds state rest

/-- Read an extended pattern. -/
def ExtendedPattern.read (chars : List Char) : Except Fault ExtendedPattern :=
  readExtendedRounds (String.ofList chars).utf8ByteSize chars.length {} chars

end SchemaLang.Pattern
