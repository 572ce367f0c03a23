/-!
# Matching

A matcher is what a pattern means once its switches are applied and its names are
looked up: characters are tested by predicates, and a condition on a position sees
the character on either side.

Over a given text a matcher relates the positions where a match can start to those
where it can end. A set of positions is held as a number whose bits are the members,
and matching takes a whole set of starts to the set of ends. Repetition repeats that
step on the positions that are new; more rounds than the text has positions add
nothing, so the text's length bounds the rounds.
-/

namespace SchemaLang.Pattern

/-- What a pattern matches. -/
inductive Matcher where
  | empty
  /-- One character that the test accepts. -/
  | character (accepts : Char → Bool)
  /-- No character, at a position whose neighbours satisfy the condition. -/
  | between (holds : Option Char → Option Char → Bool)
  | sequence (first second : Matcher)
  | choice (first second : Matcher)
  | repetition (least : Nat) (most : Option Nat) (body : Matcher)

/-- A set of positions in a text: position `n` belongs to it when bit `n` is set. -/
abbrev Positions := Nat

namespace Positions

/-- The positions up to a bound, itself left out, that satisfy a test. -/
def ofTest (test : Nat → Bool) (bound : Nat) : Positions :=
  (List.range bound).foldr (fun position set => 2 * set + (test position).toNat) 0

/-- The members of the first set that are not in the second. -/
def without (set other : Positions) : Positions := set ^^^ (set &&& other)

end Positions

/-- What a matcher does over one text. -/
inductive Route where
  /-- Stay at one of these positions. -/
  | stay (places : Positions)
  /-- Pass over the character after one of these positions. -/
  | pass (places : Positions)
  | sequence (first second : Route)
  | choice (first second : Route)
  | repetition (least most : Nat) (body : Route)
deriving Repr

namespace Route

/-- A step repeated a number of times. -/
def rounds (step : Positions → Positions) : Nat → Positions → Positions
  | 0, starts => starts
  | count + 1, starts => if starts = 0 then 0 else rounds step count (step starts)

/-- All positions met within a number of rounds, given those met before and those of
them from which no step has been taken. -/
def reached (step : Positions → Positions) : Nat → Positions → Positions → Positions
  | 0, met, _ => met
  | count + 1, met, fresh =>
    let found := Positions.without (step fresh) met
    if found = 0 then met else reached step count (met ||| found) found

/-- The positions where a match that starts in a set can end. -/
def ends : Route → Positions → Positions
  | .stay places, starts => starts &&& places
  | .pass places, starts => (starts &&& places) <<< 1
  | .sequence first second, starts => second.ends (first.ends starts)
  | .choice first second, starts => first.ends starts ||| second.ends starts
  | .repetition least most body, starts =>
    let needed := rounds body.ends least starts
    reached body.ends (most - least) needed needed

end Route

namespace Matcher

/-- The character before a position. -/
def before? (text : Array Char) : Nat → Option Char
  | 0 => none
  | position + 1 => text[position]?

/-- What a matcher does over a text. -/
def route (text : Array Char) : Matcher → Route
  | .empty => .stay (Positions.ofTest (fun _ => true) (text.size + 1))
  | .character accepts =>
    .pass (Positions.ofTest (fun position => text[position]?.any accepts) text.size)
  | .between holds =>
    .stay (Positions.ofTest (fun position => holds (before? text position) text[position]?)
      (text.size + 1))
  | .sequence first second => .sequence (first.route text) (second.route text)
  | .choice first second => .choice (first.route text) (second.route text)
  | .repetition least most body =>
    let enough := text.size + 1
    let needed := min least enough
    .repetition needed
      (match most with
        | none => needed + enough
        | some most => needed + min (most - least) enough)
      (body.route text)

/-- Whether a match occurs anywhere in a text. -/
def occursIn (matcher : Matcher) (text : String) : Bool :=
  let chars := text.toList.toArray
  (matcher.route chars).ends (Positions.ofTest (fun _ => true) (chars.size + 1)) ≠ 0

/-- The test of a matcher that takes exactly one character wherever it matches. -/
def single? : Matcher → Option (Char → Bool)
  | .character accepts => some accepts
  | _ => none

end Matcher

end SchemaLang.Pattern
