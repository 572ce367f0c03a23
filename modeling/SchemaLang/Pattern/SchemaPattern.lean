import SchemaLang.Pattern.Extended.Reader
import SchemaLang.Pattern.Extended.Search
import SchemaLang.Pattern.Extended.Spelling
import SchemaLang.Pattern.Meaning
import SchemaLang.Pattern.SchemaText

/-!
# Patterns of schemas

The pattern of a schema is an extended pattern. If it does not go beyond the plain
language it is spelled in that language and matched as such; otherwise it is searched
for, and only the tests of its characters are taken from the plain language. Either way
every part that is matched as a plain pattern must be one.
-/

namespace SchemaLang.Pattern

/-- A pattern that a schema states. -/
inductive SchemaPattern where
  | plain (matcher : Matcher)
  | searched (tree : Searched)

namespace Extended

variable {α β : Type}

mutual

/-- A pattern with each test replaced, if every test can be. -/
def resolve (test : α → Except Fault β) : Extended α → Except Fault (Extended β)
  | .empty => .ok .empty
  | .one atom => (test atom).map .one
  | .position kind => .ok (.position kind)
  | .sequence items => (resolveAll test items).map .sequence
  | .alternation branches => (resolveAll test branches).map .alternation
  | .capture group body => (body.resolve test).map (.capture group)
  | .look ahead negated body => (body.resolve test).map (.look ahead negated)
  | .repetition least most greedy body => (body.resolve test).map (.repetition least most greedy)
  | .backreference group => .ok (.backreference group)
  | .atomic body => (body.resolve test).map .atomic
  | .restart => .ok .restart
  | .searchStart => .ok .searchStart
  | .groupEntered group => .ok (.groupEntered group)
  | .conditional condition yes no => do
    return .conditional (← condition.resolve test) (← yes.resolve test) (← no.resolve test)

/-- Patterns with each test replaced. -/
def resolveAll (test : α → Except Fault β) :
    List (Extended α) → Except Fault (List (Extended β))
  | [] => .ok []
  | item :: items => do return (← item.resolve test) :: (← resolveAll test items)

end

end Extended

/-- The test that an atom stands for. -/
def Atom.test (atom : Atom) : Except Fault (Char → Bool) := do
  match (← compilePlain atom.spelling).single? with
  | some accepts => return accepts
  | none => .error .invalidBytes

/-- A pattern of which each part is known to the plain language. -/
def ExtendedPattern.compile (pattern : ExtendedPattern) : Except Fault SchemaPattern := do
  let tree := pattern.tree
  if !tree.isHard pattern.referenced then
    return .plain (← compilePlain (tree.spelling .alternation))
  else if !tree.looksBehindFixed then .error .lookBehindUnbounded
  else
    let _ ← (tree.plainParts pattern.referenced true).mapM fun part =>
      compilePlain (part.spelling .sequence)
    return .searched (← tree.resolve Atom.test)

namespace SchemaPattern

/-- Read the pattern of a schema. -/
def read (text : String) : Except Fault SchemaPattern := do
  (← ExtendedPattern.read (← schemaText text.toList)).compile

/-- Whether a pattern matches anywhere in a text. -/
def occursIn (pattern : SchemaPattern) (text : String) : Bool :=
  match pattern with
  | .plain matcher => matcher.occursIn text
  | .searched tree => tree.occursIn Text.isWordCharacter text

end SchemaPattern

end SchemaLang.Pattern
