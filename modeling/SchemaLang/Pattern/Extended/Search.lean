import SchemaLang.Pattern.Extended
import SchemaLang.Pattern.Matcher

/-!
# Searching with extended patterns

An extended pattern is searched for by trying one way after the other. What is still to
be matched is a list of tasks, and each way not yet tried is kept with the tasks, the
position and the groups it starts from. A task is done in one step: it changes the
position, puts smaller tasks in front, keeps further ways for later, or fails, and then
the way kept last is tried.

A search that has failed too often is given up; the text then counts as one without a
match.
-/

namespace SchemaLang.Pattern

/-- An extended pattern whose tests are known. -/
abbrev Searched := Extended (Char → Bool)

/-- Where the groups matched: for each group the position where it was entered and the
one where it was left. -/
structure Groups where
  entered : List (Nat × Nat) := []
  left : List (Nat × Nat) := []
deriving DecidableEq, Repr

mutual

/-- Something still to be done. -/
inductive Task where
  | visit (tree : Searched)
  /-- Note where a group is left. -/
  | leave (group : Nat)
  /-- Repeat the body once more or go on. The rounds done are counted; where an empty
  round would not end, the position of the last round is kept. -/
  | again (least : Nat) (most : Option Nat) (greedy : Bool) (body : Searched) (count : Nat)
      (start? : Option Nat)
  /-- Go to a position. -/
  | goTo (position : Nat)
  /-- Give up all ways but these. -/
  | keepOnly (others : List Way)
  /-- Give up all ways but these and fail. -/
  | failWith (others : List Way)

/-- A way that has not been tried. -/
inductive Way where
  | mk (tasks : List Task) (position : Nat) (groups : Groups)

end

/-- Where a search stands. -/
structure Search where
  tasks : List Task
  position : Nat := 0
  groups : Groups := {}
  others : List Way := []

namespace Search

/-- The search that tries a way after those that come first. -/
def keep (search : Search) (tasks : List Task) : Search :=
  { search with others := .mk tasks search.position search.groups :: search.others }

/-- The search with tasks in front of those that wait. -/
def first (search : Search) (tasks : List Task) : Search :=
  { search with tasks := tasks ++ search.tasks }

/-- A search that goes on, or the ways left after a failure. -/
abbrev Step := Except (List Way) Search

/-- The search if a condition holds. -/
def require (search : Search) (holds : Bool) : Step :=
  if holds then .ok search else .error search.others

/-- What a group has matched, if it has been entered and left in that order. -/
def groupText? (search : Search) (text : Array Char) (group : Nat) : Option (Array Char) :=
  match search.groups.entered.lookup group, search.groups.left.lookup group with
  | some first, some last => if first ≤ last then some (text.extract first last) else none
  | _, _ => none

/-- Take a text that the group has matched once more. -/
def takeAgain (search : Search) (text : Array Char) (group : Nat) : Step :=
  match search.groupText? text group with
  | some part =>
    let next := search.position + part.size
    if text.extract search.position next = part then .ok { search with position := next }
    else .error search.others
  | none => .error search.others

/-- One more round of a repetition, or the tasks after it. -/
def again (search : Search) (least : Nat) (most : Option Nat) (greedy : Bool) (body : Searched)
    (count : Nat) (start? : Option Nat) : Step :=
  let needsProgress := most.isNone && body.least = 0
  if most = some count then .ok search
  else if needsProgress && start? = some search.position then .error search.others
  else if count < least then
    .ok (search.first [.visit body, .again least most greedy body (count + 1) none])
  else
    let start? := if needsProgress then some search.position else none
    let round := [.visit body, .again least most greedy body (count + 1) start?]
    if greedy then .ok ((search.keep search.tasks).first round)
    else .ok (search.keep (round ++ search.tasks))

/-- Look ahead or behind with a body of fixed length. -/
def look (search : Search) (ahead negated : Bool) (body : Searched) : Step :=
  let back := if ahead then 0 else body.least
  let start := search.position - back
  if search.position < back then search.require negated
  else if negated then
    let after := search.keep search.tasks
    .ok { after with tasks := [.visit body, .failWith search.others], position := start }
  else .ok { search.first [.visit body, .goTo search.position] with position := start }

/-- Whether a condition on a position holds. -/
def holdsAt (kind : Position) (text : Array Char) (position : Nat) (isWord : Char → Bool) : Bool :=
  let before := Matcher.before? text position
  let after := text[position]?
  let left := before.any isWord
  let right := after.any isWord
  match kind with
  | .startText => before.isNone
  | .endText => after.isNone
  | .startLine => before.isNone || before = some '\n'
  | .endLine => after.isNone || after = some '\n'
  | .wordBoundary => left != right
  | .notWordBoundary => left == right
  | .wordStart => !left && right
  | .wordEnd => left && !right

/-- Visit a pattern. -/
def visit (search : Search) (text : Array Char) (isWord : Char → Bool) : Searched → Step
  | .empty => .ok search
  | .one accepts =>
    if text[search.position]?.any accepts then
      .ok { search with position := search.position + 1 }
    else .error search.others
  | .position kind => search.require (holdsAt kind text search.position isWord)
  | .sequence items => .ok (search.first (items.map .visit))
  | .alternation [] => .error search.others
  | .alternation [branch] => .ok (search.first [.visit branch])
  | .alternation (branch :: branches) =>
    .ok ((search.keep (.visit (.alternation branches) :: search.tasks)).first [.visit branch])
  | .capture group body =>
    let groups := { search.groups with
      entered := (group, search.position) :: search.groups.entered.filter (·.1 ≠ group) }
    .ok ({ search with groups := groups }.first [.visit body, .leave group])
  | .repetition least most greedy body =>
    .ok (search.first [.again least most greedy body 0 none])
  | .look false false (.alternation branches) =>
    .ok (search.first [.visit (.alternation (branches.map (.look false false)))])
  | .look false true (.alternation branches) =>
    .ok (search.first (branches.map fun branch => .visit (.look false true branch)))
  | .look ahead negated body => search.look ahead negated body
  | .backreference group => search.takeAgain text group
  | .atomic body => .ok (search.first [.visit body, .keepOnly search.others])
  | .restart => .ok search
  | .searchStart => search.require (search.position = 0)
  | .groupEntered group => search.require (search.groups.entered.lookup group).isSome
  | .conditional condition yes no =>
    .ok ((search.keep (.visit no :: search.tasks)).first
      [.visit condition, .keepOnly search.others, .visit yes])

/-- Do one task, already taken from the list. -/
def perform (search : Search) (text : Array Char) (isWord : Char → Bool) : Task → Step
  | .visit tree => search.visit text isWord tree
  | .leave group =>
    let groups := { search.groups with
      left := (group, search.position) :: search.groups.left.filter (·.1 ≠ group) }
    .ok { search with groups := groups }
  | .again least most greedy body count start? =>
    search.again least most greedy body count start?
  | .goTo position => .ok { search with position := position }
  | .keepOnly others => .ok { search with others := others }
  | .failWith others => .error others

/-- How often a search may fail before it is given up. -/
def failureLimit : Nat := 1000000

/-- How many steps a search may take before it is given up. -/
def stepLimit : Nat := 30000000

/-- Whether a search comes to its end within a number of steps and failures. -/
def succeeds (text : Array Char) (isWord : Char → Bool) : Nat → Nat → Search → Bool
  | 0, _, _ => false
  | steps + 1, failures, search =>
    match search.tasks with
    | [] => true
    | task :: tasks =>
      match { search with tasks := tasks }.perform text isWord task, failures with
      | .ok search, failures => succeeds text isWord steps failures search
      | .error [], _ => false
      | .error _, 0 => false
      | .error (.mk tasks position groups :: others), failures + 1 =>
        succeeds text isWord steps failures ⟨tasks, position, groups, others⟩

end Search

/-- A pattern at any distance from the start of a text, the nearest first. The whole
match is group zero. -/
def Extended.anywhere (tree : Searched) : Searched :=
  .sequence [.repetition 0 none false (.one fun _ => true), .capture 0 tree]

/-- Whether a pattern matches anywhere in a text. -/
def Extended.occursIn (tree : Searched) (isWord : Char → Bool) (text : String) : Bool :=
  Search.succeeds text.toList.toArray isWord Search.stepLimit Search.failureLimit
    { tasks := [.visit tree.anywhere] }

end SchemaLang.Pattern
