import SchemaLang.Pattern.ClassReader

/-!
# Reading patterns

The reader walks over the text once. Open groups wait on a stack, each with the
branches and items read before it, so nesting takes no recursion; the depth of the
finished tree is checked at the end. Each round takes at least one character, and
the number of characters bounds the rounds.
-/

namespace SchemaLang.Pattern

/-- A group that waits for its closing parenthesis, with what stands before it. -/
structure GroupFrame where
  kind : GroupKind
  branches : List Tree
  items : List Tree
  verbose : Bool

/-- Where reading stands. Branches and items of the current group are kept in
reverse. -/
structure ReadState where
  verbose : Bool := false
  names : List (List Char) := []
  frames : List GroupFrame := []
  branches : List Tree := []
  items : List Tree := []

namespace ReadState

/-- The state with one more item. -/
def push (state : ReadState) (item : Tree) : ReadState :=
  { state with items := item :: state.items }

/-- All of the current group. -/
def body (state : ReadState) : Tree :=
  Tree.ofBranches ((Tree.ofItems state.items.reverse :: state.branches).reverse)

/-- The state after a branch has ended. -/
def nextBranch (state : ReadState) : ReadState :=
  { state with branches := Tree.ofItems state.items.reverse :: state.branches, items := [] }

/-- The state inside a new group. -/
def enter (state : ReadState) (kind : GroupKind) (verbose : Bool) : ReadState :=
  { state with
    verbose := verbose
    frames := ⟨kind, state.branches, state.items, state.verbose⟩ :: state.frames
    branches := []
    items := [] }

/-- The state after the current group is closed. -/
def leave (state : ReadState) : Except Fault ReadState :=
  match state.frames with
  | [] => .error .groupUnopened
  | frame :: frames =>
    .ok { state with
      verbose := frame.verbose
      frames := frames
      branches := frame.branches
      items := .group frame.kind state.body :: frame.items }

/-- Repeat the last item. -/
def repeatLast (state : ReadState) (least : Nat) (most : Option Nat) : Except Fault ReadState :=
  match state.items with
  | item :: items =>
    if item.isRepeatable then .ok { state with items := .repetition least most item :: items }
    else .error .repetitionMissing
  | [] => .error .repetitionMissing

end ReadState

/-- The switch of a letter. -/
def Flag.ofChar? : Char → Option Flag
  | 'i' => some .caseInsensitive
  | 'm' => some .multiLine
  | 's' => some .dotMatchesNewLine
  | 'U' => some .swapGreed
  | 'u' => some .unicode
  | 'R' => some .carriageReturns
  | 'x' => some .ignoreWhitespace
  | _ => none

/-- Where reading a list of switches stands. -/
structure FlagState where
  change : FlagChange := []
  negated : Bool := false
  dangling : Bool := false

/-- The switches up to a colon or a closing parenthesis, which is left in place. -/
def readFlags (state : FlagState) : List Char → Except Fault (FlagChange × List Char)
  | [] => .error .groupUnclosed
  | c :: rest =>
    if c = ':' ∨ c = ')' then
      if state.dangling then .error .flagDangling else .ok (state.change, c :: rest)
    else if c = '-' then
      if state.negated then .error .flagRepeated
      else readFlags { state with negated := true, dangling := true } rest
    else
      match Flag.ofChar? c with
      | none => .error .flagUnknown
      | some flag =>
        if state.change.any (·.1 = flag) then .error .flagRepeated
        else
          readFlags
            { state with change := state.change ++ [(flag, !state.negated)], dangling := false }
            rest

/-- Whether a character may stand in a group's name. -/
def isNameCharacter (first : Bool) (c : Char) : Bool :=
  if first then c = '_' || Text.isAlphabetic c
  else c = '_' || c = '.' || c = '[' || c = ']' || Text.isAlphanumeric c

/-- A group's name up to its closing mark. -/
def readGroupName (names : List (List Char)) (chars : List Char) :
    Except Fault (List Char × List Char) :=
  let name := chars.takeWhile (· ≠ '>')
  match name, chars.dropWhile (· ≠ '>') with
  | [], _ => .error .groupNameInvalid
  | _, [] => .error .groupNameInvalid
  | first :: others, _ :: rest =>
    if !isNameCharacter true first || !others.all (isNameCharacter false) then
      .error .groupNameInvalid
    else if names.contains name then .error .groupNameRepeated
    else .ok (name, rest)

/-- What an opening parenthesis begins. -/
inductive Opening where
  | group (kind : GroupKind)
  | named (name : List Char)
  | switches (change : FlagChange)

/-- The start of a group after its parenthesis. -/
def readOpening (names : List (List Char)) (chars : List Char) :
    Except Fault (Opening × List Char) :=
  let named (rest : List Char) : Except Fault (Opening × List Char) :=
    (readGroupName names rest).map fun (name, rest) => (.named name, rest)
  match chars with
  | '?' :: '=' :: _ => .error .lookAroundUnsupported
  | '?' :: '!' :: _ => .error .lookAroundUnsupported
  | '?' :: '<' :: '=' :: _ => .error .lookAroundUnsupported
  | '?' :: '<' :: '!' :: _ => .error .lookAroundUnsupported
  | '?' :: 'P' :: '<' :: rest => named rest
  | '?' :: '<' :: rest => named rest
  | '?' :: rest =>
    match readFlags {} rest with
    | .error fault => .error fault
    | .ok (change, ':' :: rest) => .ok (.group (.plain change), rest)
    | .ok (change, rest) =>
      if change.isEmpty then .error .repetitionMissing
      else .ok (.switches change, rest.drop 1)
  | rest => .ok (.group .capture, rest)

/-- Whether whitespace is ignored after a change of switches. -/
def verboseAfter (change : FlagChange) (verbose : Bool) : Bool :=
  ((change.find? (·.1 = .ignoreWhitespace)).map (·.2)).getD verbose

/-- The rest after a mark that makes a repetition take as little as it can. What is
taken changes, whether a text matches does not. -/
def dropLazy : List Char → List Char
  | '?' :: rest => rest
  | rest => rest

/-- One round of reading at a character. -/
def readStep (state : ReadState) (c : Char) (rest : List Char) :
    Except Fault (ReadState × List Char) :=
  let repeated (least : Nat) (most : Option Nat) : Except Fault (ReadState × List Char) :=
    (state.repeatLast least most).map fun state => (state, dropLazy rest)
  match c with
  | '(' =>
    match readOpening state.names (skip state.verbose rest) with
    | .error fault => .error fault
    | .ok (.switches change, rest) =>
      let state := state.push (.flags change)
      .ok ({ state with verbose := verboseAfter change state.verbose }, rest)
    | .ok (.named name, rest) =>
      .ok ({ state.enter .capture state.verbose with names := name :: state.names }, rest)
    | .ok (.group kind, rest) =>
      let verbose :=
        match kind with
        | .plain change => verboseAfter change state.verbose
        | _ => state.verbose
      .ok (state.enter kind verbose, rest)
  | ')' => state.leave.map fun state => (state, rest)
  | '|' => .ok (state.nextBranch, rest)
  | '[' =>
    (readClass state.verbose rest).map fun ((negated, body), rest) =>
      (state.push (.bracketed negated body), rest)
  | '?' => repeated 0 (some 1)
  | '*' => repeated 0 none
  | '+' => repeated 1 none
  | '\x7b' =>
    match state.repeatLast 0 none with
    | .error fault => .error fault
    | .ok _ =>
      match readRange state.verbose rest with
      | .error fault => .error fault
      | .ok ((least, most), rest) =>
        (state.repeatLast least most).map fun state => (state, dropLazy rest)
  | '\\' =>
    (readEscape state.verbose rest).map fun (piece, rest) => (state.push piece.tree, rest)
  | '.' => .ok (state.push .anyCharacter, rest)
  | '^' => .ok (state.push (.assertion .startLine), rest)
  | '$' => .ok (state.push (.assertion .endLine), rest)
  | c => .ok (state.push (.literal ⟨c, .usual⟩), rest)

/-- Read on to the end of the text. -/
def readRounds : Nat → ReadState → List Char → Except Fault Tree
  | rounds, state, chars =>
    match rounds, skip state.verbose chars with
    | _, [] => if state.frames.isEmpty then .ok state.body else .error .groupUnclosed
    | 0, _ => .error .nestedTooDeep
    | rounds + 1, c :: rest =>
      match readStep state c rest with
      | .error fault => .error fault
      | .ok (state, rest) => readRounds rounds state rest

/-- Read a pattern. -/
def Tree.read (chars : List Char) : Except Fault Tree := do
  let tree ← readRounds chars.length {} chars
  if tree.depth ≤ Tree.depthLimit then return tree else .error .nestedTooDeep

end SchemaLang.Pattern
