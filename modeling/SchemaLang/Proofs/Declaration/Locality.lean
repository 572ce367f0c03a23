import Mathlib.Data.List.Basic
import SchemaLang.Declaration.Grammar
import SchemaLang.Proofs.Relabelling

/-!
# What reading depends on

A reader decides by the kinds and the texts of tokens. Their locations only go into what is read
and into errors. The token for the end of the text is never taken, so nothing after it is looked
at. To say both, a reader is run on two lists of tokens that are the same up to the first such
token, apart from locations that are changed in the second. Both runs give the same value and leave
the same tokens before the end, or both are refused at the same token for the same reason, with
the locations changed in the same way. This is one of the tokens that were given, and no other
error is left: a reader does not run out of tokens.

Loops count down from the number of tokens, which differs between the two lists. It is large
enough in both, because every round takes a token.
-/

namespace SchemaLang

open Token

variable (ρ : Relabelling)

/-- The kind of a token stays. -/
@[simp] theorem Token.relabel_kind (token : Token) : (token.relabel ρ).kind = token.kind := rfl

/-- So does its text. -/
@[simp] theorem Token.relabel_text (token : Token) : (token.relabel ρ).text = token.text := rfl

/-- Which symbol a token is depends on both. -/
@[simp] theorem Token.relabel_isSymbol (token : Token) (symbol : String) :
    (token.relabel ρ).isSymbol symbol = token.isSymbol symbol := rfl

namespace Reading

open List

variable {α β : Type}

/-- Some of all given tokens, and the end of the text behind them. -/
structure Ends (all before : List Token) (last : Token) : Prop where
  isEnd : last.kind = .endOfText
  inside : ∀ token ∈ before, token.kind ≠ .endOfText
  given : before ⊆ all
  lastGiven : last ∈ all

/-- Two runs end alike on tokens that are the same up to the end of the text, apart from changed
locations. Their value is of a kind, and at least so many tokens are taken. -/
inductive Alike (all : List Token) (change : α → α) (good : α → Prop) (least : Nat)
    (before : List Token) (last : Token) (after other : List Token) :
    Except Error (α × List Token) → Except Error (α × List Token) → Prop where
  | value {value : α} {rest : List Token} (isGood : good value) (suffix : rest <:+ before)
      (progress : rest.length + least ≤ before.length) :
      Alike all change good least before last after other (.ok (value, rest ++ last :: after))
        (.ok (change value, rest.map (relabel ρ) ++ last.relabel ρ :: other))
  | fault {found : Token} {expected : Expectation} (isRead : found ∈ all) :
      Alike all change good least before last after other (.error (.unexpected found expected))
        (.error (.unexpected (found.relabel ρ) expected))

/-- Two readers agree on all lists that start with the same tokens up to the end of the text, apart
from changed locations. -/
def Agree (all : List Token) (change : α → α) (good : α → Prop) (least : Nat)
    (before : List Token) (first second : Reading α) : Prop :=
  ∀ (last : Token) (after other : List Token), Ends all before last →
    Alike ρ all change good least before last after other (first (before ++ last :: after))
      (second (before.map (relabel ρ) ++ last.relabel ρ :: other))

/-- Two readers agree, whatever they read. -/
abbrev Follow (all : List Token) (change : α → α) (least : Nat) (before : List Token)
    (first second : Reading α) : Prop := Agree ρ all change (fun _ => True) least before first second

variable {ρ} {all : List Token} {change : α → α} {good : α → Prop} {least : Nat}
  {before : List Token} {last : Token} {after other : List Token}

variable {value : α}

/-- Nothing is taken. -/
theorem Alike.here (isGood : good value) :
    Alike ρ all change good 0 before last after other (.ok (value, before ++ last :: after))
      (.ok (change value, before.map (relabel ρ) ++ last.relabel ρ :: other)) :=
  .value isGood suffix_rfl (Nat.le_refl _)

variable {token : Token}

/-- One token is taken. -/
theorem Alike.next (isGood : good value) :
    Alike ρ all change good 1 (token :: before) last after other
      (.ok (value, before ++ last :: after))
      (.ok (change value, before.map (relabel ρ) ++ last.relabel ρ :: other)) :=
  .value isGood (suffix_cons _ _) (Nat.le_refl _)

section Runs

variable {first second : Except Error (α × List Token)}

/-- What is taken later is taken of the tokens before as well. -/
theorem Alike.lift {rest : List Token} {more total : Nat}
    (alike : Alike ρ all change good more rest last after other first second)
    (suffix : rest <:+ before) (progress : rest.length + least ≤ before.length)
    (enough : total ≤ least + more) :
    Alike ρ all change good total before last after other first second := by
  cases alike with
  | value isGood suffixAgain _ => exact .value isGood (suffixAgain.trans suffix) (by omega)
  | fault isRead => exact .fault isRead

/-- What is known of the number of tokens taken may be forgotten. -/
theorem Alike.weaken (alike : Alike ρ all change good least before last after other first second) :
    Alike ρ all change good 0 before last after other first second := by
  cases alike with
  | value isGood suffix _ => exact .value isGood suffix suffix.length_le
  | fault isRead => exact .fault isRead

/-- A choice by a condition that does not look at locations. -/
theorem Alike.ite {condition : Prop} [Decidable condition]
    {third fourth : Except Error (α × List Token)}
    (holds : condition → Alike ρ all change good least before last after other first second)
    (fails : ¬ condition → Alike ρ all change good least before last after other third fourth) :
    Alike ρ all change good least before last after other (if condition then first else third)
      (if condition then second else fourth) := by
  split
  · exact holds ‹_›
  · exact fails ‹_›

end Runs

section Steps

variable {changeLast : β → β} {final : β → Prop} {first second : Reading α}
  {next nextOther : α → Reading β}

section

variable (agree : Agree ρ all change good least before first second)
include agree

/-- Readers that agree, one after the other. -/
theorem Agree.sequence {more total : Nat}
    (continues : ∀ value rest, good value → rest.length + least ≤ before.length → Agree ρ all
      changeLast final more rest (next value) (nextOther (change value)))
    (enough : total ≤ least + more) :
    Agree ρ all changeLast final total before (first >>= next) (second >>= nextOther) := by
  intro last after other ends
  have alike := agree last after other ends
  show Alike ρ all changeLast final total before last after other
    (first (before ++ last :: after) >>= fun result => next result.1 result.2)
    (second (before.map (relabel ρ) ++ last.relabel ρ :: other) >>= fun result =>
      nextOther result.1 result.2)
  generalize first (before ++ last :: after) = firstEnd at alike ⊢
  generalize second (before.map (relabel ρ) ++ last.relabel ρ :: other) = secondEnd
    at alike ⊢
  cases alike with
  | fault isRead => exact .fault isRead
  | @value value rest isGood suffix progress =>
    have later := continues value rest isGood progress last after other
      ⟨ends.isEnd, fun token member => ends.inside token (suffix.subset member),
        List.Subset.trans suffix.subset ends.given, ends.lastGiven⟩
    exact later.lift suffix progress enough

/-- The first of two readers takes the tokens that are needed. -/
theorem Agree.bind
    (continues : ∀ value rest, good value → rest.length + least ≤ before.length → Agree ρ all
      changeLast final 0 rest (next value) (nextOther (change value))) :
    Agree ρ all changeLast final least before (first >>= next) (second >>= nextOther) :=
  agree.sequence continues (by omega)

omit agree in
/-- The second of two readers takes the tokens that are needed. -/
theorem Agree.andThen (agree : Agree ρ all change good 0 before first second)
    (continues : ∀ value rest,
      Agree ρ all changeLast final least rest (next value) (nextOther (change value))) :
    Agree ρ all changeLast final least before (first >>= next) (second >>= nextOther) :=
  agree.sequence (fun value rest _ _ => continues value rest) (by omega)

/-- Readers that agree and take tokens agree. -/
theorem Agree.weaken : Agree ρ all change good 0 before first second :=
  fun last after other ends => (agree last after other ends).weaken

end

/-- A choice between readers that does not look at locations. -/
theorem Agree.ite {condition : Prop} [Decidable condition] {third fourth : Reading α}
    (holds : Agree ρ all change good least before first second)
    (fails : Agree ρ all change good least before third fourth) :
    Agree ρ all change good least before (if condition then first else third)
      (if condition then second else fourth) := by
  split
  · exact holds
  · exact fails

/-- A value is given, and no token is taken. -/
theorem agree_pure (isGood : good value) :
    Agree ρ all change good 0 before (pure value) (pure (change value)) :=
  fun _ _ _ _ => .here isGood

/-- Reading ends with a value. -/
theorem follow_pure : Follow ρ all change 0 before (pure value) (pure (change value)) :=
  agree_pure trivial

/-- A token that was given before is refused. -/
theorem agree_reject {found : Token} (isRead : found ∈ all) (expected : Expectation) :
    Agree ρ all change good least before (reject found expected)
      (reject (found.relabel ρ) expected) := fun _ _ _ _ => .fault isRead

/-- The next token is refused. There is one, since the end of the text is not taken. -/
theorem agree_unexpected (expected : Expectation) :
    Agree ρ all change good least before (unexpected expected) (unexpected expected) := by
  intro last after other ends
  cases before with
  | nil => exact .fault ends.lastGiven
  | cons token before => exact .fault (ends.given mem_cons_self)

/-- The next token is looked at, and it is one of the given ones. -/
theorem agree_current : Agree ρ all (relabel ρ) (· ∈ all) 0 before current current := by
  intro last after other ends
  cases before with
  | nil => exact .here ends.lastGiven
  | cons token before => exact .here (ends.given mem_cons_self)

/-- Which symbol comes next does not depend on locations. -/
theorem agree_sees (symbol : String) : Follow ρ all id 0 before (sees symbol) (sees symbol) := by
  intro last after other _
  cases before with
  | nil | cons _ _ => exact .here trivial

/-- The end of the text is no symbol. -/
theorem isSymbol_of_isEnd (isEnd : last.kind = .endOfText) (symbol : String) :
    ¬ last.isSymbol symbol = true := by
  simp [isSymbol, isEnd]

/-- The same symbol is taken, and it is never the end of the text. -/
theorem agree_eat (symbol : String) : Follow ρ all id 0 before (eat symbol) (eat symbol) := by
  intro last after other ends
  cases before with
  | nil =>
    exact .ite (fun isIt => absurd isIt (isSymbol_of_isEnd ends.isEnd symbol))
      fun _ => .here trivial
  | cons token before =>
    exact .ite (fun _ => (Alike.next trivial).weaken) fun _ => .here trivial

/-- A symbol that has to be there is taken, and it is one of the given tokens. -/
theorem agree_expect (symbol : String) :
    Agree ρ all (relabel ρ) (· ∈ all) 1 before (expect symbol) (expect symbol) := by
  intro last after other ends
  cases before with
  | nil =>
    exact .ite (fun isIt => absurd isIt (isSymbol_of_isEnd ends.isEnd symbol)) fun _ =>
      .fault ends.lastGiven
  | cons token before =>
    have isRead := ends.given mem_cons_self
    exact .ite (fun _ => .next isRead) fun _ => .fault isRead

/-- A name that has to be there is taken, and it is one of the given tokens. -/
theorem agree_identifier (expected : Expectation) :
    Agree ρ all (relabel ρ) (fun token => token ∈ all ∧ token.kind = .identifier) 1 before
      (identifier expected) (identifier expected) := by
  intro last after other ends
  cases before with
  | nil => exact .ite (fun isName => by simp [ends.isEnd] at isName) fun _ => .fault ends.lastGiven
  | cons token before =>
    have isRead := ends.given mem_cons_self
    exact .ite (fun isName => .next ⟨isRead, isName⟩) fun _ => .fault isRead

/-- A token that is not the end is taken. -/
theorem agree_advance_cons : Follow ρ all (relabel ρ) 1 (token :: before) advance advance := by
  intro last after other ends
  have isToken := ends.inside token mem_cons_self
  simp only [map_cons, cons_append, advance, relabel_kind, isToken, if_false]
  exact .next trivial

/-- The next token is taken, unless it is the end of the text. -/
theorem agree_advance : Follow ρ all (relabel ρ) 0 before advance advance := by
  cases before with
  | nil =>
    intro last after other ends
    simp only [map_nil, nil_append, advance, relabel_kind, ends.isEnd, if_true]
    exact .here trivial
  | cons token before => exact agree_advance_cons.weaken

/-- A number is read from its token alone. -/
theorem Agree.number (isRead : token ∈ all) {next nextOther : Double → Reading β}
    (continues : ∀ value, Agree ρ all changeLast final least before (next value) (nextOther
      value)) :
    Agree ρ all changeLast final least before (number token >>= next)
      (number (token.relabel ρ) >>= nextOther) := by
  unfold Reading.number
  rw [relabel_text]
  split
  · rename_i value _
    split
    · exact continues value
    · exact fun _ _ _ _ => .fault isRead
  · exact fun _ _ _ _ => .fault isRead

/-- The number of tokens ahead is greater than that of those before the end. -/
theorem Agree.remaining {next nextOther : Nat → Reading β}
    (continues : ∀ rounds others, before.length < rounds → before.length < others →
      Agree ρ all changeLast final least before (next rounds) (nextOther others)) :
    Agree ρ all changeLast final least before (remaining >>= next) (remaining >>= nextOther) := by
  intro last after other ends
  refine continues _ _ ?_ ?_ last after other ends
  · simp
  · simp

/-- What is found by looking ahead does not depend on the tokens after the end. -/
theorem Agree.get {next nextOther : List Token → Reading β}
    (continues : ∀ last after other, last.kind = .endOfText →
      Agree ρ all changeLast final least before (next (before ++ last :: after))
        (nextOther (before.map (relabel ρ) ++ last.relabel ρ :: other))) :
    Agree ρ all changeLast final least before (get >>= next) (get >>= nextOther) :=
  fun last after other ends => continues last after other ends.isEnd last after other ends

/-- The next token, before a reader that is refused at the end. -/
theorem Agree.currentToken {next nextOther : Token → Reading β}
    (atEnd : ∀ last, last.kind = .endOfText →
      Agree ρ all changeLast final least [] (next last) (nextOther (last.relabel ρ)))
    (onToken : ∀ token rest, token ∈ all → before = token :: rest →
      Agree ρ all changeLast final least (token :: rest) (next token)
        (nextOther (token.relabel ρ))) :
    Agree ρ all changeLast final least before (current >>= next) (current >>= nextOther) := by
  intro last after other ends
  cases before with
  | nil => exact atEnd last ends.isEnd last after other ends
  | cons token rest =>
    exact onToken token rest (ends.given mem_cons_self) rfl last after other ends

end Steps

/-! ## Types -/

/-- A bound is read from one token or from none. -/
theorem agree_bound (kind : NumericKind) : Follow ρ all id 0 before (bound kind) (bound kind) := by
  unfold bound
  refine agree_current.bind fun token rest isRead _ => .ite (.number isRead fun value => ?_) ?_
  · refine .ite (agree_reject isRead _) ?_
    exact agree_advance.bind fun _ _ _ _ => follow_pure
  · exact follow_pure

/-- A range is refused at its closing parenthesis if its bounds are not in order. -/
theorem agree_range (kind : NumericKind) : Follow ρ all id 0 before (range kind) (range kind) := by
  unfold range
  refine (agree_expect "(").weaken.bind fun _ _ _ _ => ?_
  refine (agree_bound kind).bind fun least _ _ _ => ?_
  refine (agree_expect ".").weaken.bind fun _ _ _ _ => ?_
  refine (agree_expect ".").weaken.bind fun _ _ _ _ => ?_
  refine (agree_bound kind).bind fun greatest _ _ _ => ?_
  refine (agree_expect ")").weaken.bind fun close _ isRead _ => ?_
  exact .ite (agree_reject isRead _) follow_pure

/-- The further parts of a name end before the end of the text. -/
theorem nameParts_local (before : List Token) {last : Token} (isEnd : last.kind = .endOfText) :
    ∃ text rest, rest <:+ before ∧
      (∀ after, nameParts (before ++ last :: after) = (text, rest ++ last :: after)) ∧
      ∀ after, nameParts (before.map (relabel ρ) ++ last.relabel ρ :: after) =
        (text, rest.map (relabel ρ) ++ last.relabel ρ :: after) := by
  have noPoint := isSymbol_of_isEnd isEnd "."
  match before with
  | [] =>
    refine ⟨"", [], suffix_rfl, fun after => ?_, fun after => ?_⟩
    · cases after <;> simp [nameParts, noPoint]
    · cases after <;> simp [nameParts, noPoint]
  | [token] =>
    refine ⟨"", [token], suffix_rfl, fun after => ?_, fun after => ?_⟩
    · simp [nameParts, isEnd]
    · simp [nameParts, isEnd]
  | point :: part :: before =>
    by_cases isPart : (point.isSymbol "." && part.kind = .identifier) = true
    · obtain ⟨text, rest, suffix, read, readOther⟩ := nameParts_local before isEnd
      refine ⟨"." ++ part.text ++ text, rest, ?_, fun after => ?_, fun after => ?_⟩
      · exact suffix.trans ((suffix_cons part before).trans (suffix_cons point _))
      · simp only [cons_append, nameParts, isPart, if_true, read]
      · have same :
            ((point.relabel ρ).isSymbol "." && (part.relabel ρ).kind = .identifier) = true := isPart
        simp only [map_cons, cons_append, nameParts, same, if_true, readOther, relabel_text]
    · refine ⟨"", point :: part :: before, suffix_rfl, fun after => ?_, fun after => ?_⟩
      · simp only [cons_append, nameParts, if_neg isPart]
      · exact if_neg isPart

/-- A type without brackets takes its name and what belongs to it. -/
theorem agree_atom : Follow ρ all id 1 before atom atom := by
  unfold atom
  refine (agree_identifier _).bind fun token rest _ _ => ?_
  rw [relabel_text]
  split
  · refine (agree_sees "(").bind fun opens _ _ _ => .ite ?_ follow_pure
    split
    · exact agree_range _
    · exact agree_unexpected _
  · intro last after other ends
    obtain ⟨text, left, suffix, read, readOther⟩ := nameParts_local rest ends.isEnd
    show Alike ρ all id (fun _ => True) 0 rest last after other
      (.ok (FieldType.reference (token.text ++ (nameParts (rest ++ last :: after)).1),
        (nameParts (rest ++ last :: after)).2))
      (.ok (FieldType.reference (token.text ++
          (nameParts (rest.map (relabel ρ) ++ last.relabel ρ :: other)).1),
        (nameParts (rest.map (relabel ρ) ++ last.relabel ρ :: other)).2))
    rw [read, readOther]
    exact .value trivial suffix suffix.length_le

variable {rounds others : Nat}

/-- Every pair of brackets takes two tokens, so the rounds are enough on both sides. -/
theorem agree_brackets (enough : before.length < rounds) (enoughOther : before.length < others)
    (type : FieldType String) :
    Follow ρ all id 0 before (brackets rounds type) (brackets others type) := by
  induction rounds generalizing others before type with
  | zero => omega
  | succ rounds ih =>
    rcases others with _ | others
    · omega
    unfold brackets
    refine (agree_eat "[").bind fun opens rest _ _ => .ite ?_ follow_pure
    refine ((agree_expect "]").bind fun _ left _ taken => ?_).weaken
    exact ih (by omega) (by omega) _

/-- A type without bars takes its name at least. -/
theorem agree_arm : Follow ρ all id 1 before arm arm := by
  unfold arm
  refine agree_atom.bind fun type rest _ _ => ?_
  exact .remaining fun _ _ enough enoughOther => agree_brackets enough enoughOther type

/-- Every further arm takes its bar and a name. -/
theorem agree_furtherArms (enough : before.length < rounds)
    (enoughOther : before.length < others) :
    Follow ρ all id 0 before (furtherArms rounds) (furtherArms others) := by
  induction rounds generalizing others before with
  | zero => omega
  | succ rounds ih =>
    rcases others with _ | others
    · omega
    unfold furtherArms
    refine (agree_eat "|").bind fun bar rest _ _ => .ite ?_ follow_pure
    refine (agree_arm.bind fun type left _ taken => ?_).weaken
    exact (ih (by omega) (by omega)).bind fun _ _ _ _ => follow_pure

/-- Types hold no locations, so both readers give the same one. -/
theorem agree_fieldType : Follow ρ all id 1 before fieldType fieldType := by
  unfold fieldType
  refine agree_arm.bind fun first rest _ _ => ?_
  refine .remaining fun _ _ enough enoughOther => ?_
  refine (agree_furtherArms enough enoughOther).bind fun types _ _ _ => ?_
  cases types with
  | nil | cons _ _ => exact follow_pure

/-! ## Declarations -/

/-- An import stands at its keyword. -/
theorem agree_importing (keyword : Token) :
    Follow ρ all (Import.relabel ρ) 1 before (importing keyword)
      (importing (keyword.relabel ρ)) := by
  unfold importing
  refine .currentToken (fun last isEnd => ?_) fun path rest isRead _ =>
    .ite (agree_unexpected _) ?_
  · simp only [relabel_kind, isEnd, ne_eq, reduceCtorEq, not_false_eq_true, if_true]
    exact agree_unexpected _
  · refine agree_advance_cons.bind fun _ _ _ _ => .ite (agree_reject isRead _) ?_
    refine agree_current.bind fun word _ _ _ => .ite ?_ follow_pure
    refine agree_advance.bind fun _ _ _ _ => ?_
    exact (agree_identifier _).weaken.bind fun _ _ _ _ => follow_pure

/-- A member is refused at its own token if it is there already. -/
theorem agree_members (enough : before.length < rounds) (enoughOther : before.length < others)
    (earlier : List String) :
    Follow ρ all id 0 before (members rounds earlier) (members others earlier) := by
  induction rounds generalizing others before earlier with
  | zero => omega
  | succ rounds ih =>
    rcases others with _ | others
    · omega
    unfold members
    refine (agree_sees "\x7d").bind fun closes rest _ _ => .ite follow_pure ?_
    refine ((agree_identifier _).bind fun member left isRead taken =>
      .ite (agree_reject isRead.1 _) ?_).weaken
    refine (agree_eat ",").bind fun _ further _ _ => ?_
    exact ih (by omega) (by omega) _

/-- An enum stands at the token of its name. -/
theorem agree_enumeration :
    Follow ρ all (EnumDeclaration.relabel ρ) 1 before enumeration enumeration := by
  unfold enumeration
  refine (agree_identifier _).bind fun name _ _ _ => ?_
  refine (agree_expect "\x7b").weaken.bind fun _ _ _ _ => ?_
  refine .remaining fun _ _ enough enoughOther => ?_
  refine (agree_members enough enoughOther []).bind fun members _ _ _ =>
    .ite (agree_unexpected _) ?_
  exact (agree_expect "\x7d").weaken.bind fun _ _ _ _ => follow_pure

/-- A second mark is refused at its token. -/
theorem agree_optionalMark (already : Bool) :
    Follow ρ all id 0 before (optionalMark already) (optionalMark already) := by
  unfold optionalMark
  refine agree_current.bind fun mark _ isRead _ => ?_
  refine (agree_eat "?").bind fun marked _ _ _ => .ite ?_ follow_pure
  exact .ite (agree_reject isRead _) follow_pure

/-- A field stands at the token of its name. -/
theorem agree_field :
    Agree ρ all (Field.relabel ρ) (fun field => ⟨.identifier, field.name, field.location⟩ ∈ all) 1
      before field field := by
  unfold field
  refine (agree_identifier _).bind fun name _ isRead _ => ?_
  refine (agree_eat "?").bind fun markedName _ _ _ => ?_
  refine (agree_expect ":").weaken.bind fun _ _ _ _ => ?_
  refine agree_fieldType.weaken.bind fun type _ _ _ => ?_
  refine (agree_optionalMark markedName).bind fun optional _ _ _ => ?_
  refine (agree_sees "|").bind fun bar _ _ _ => ?_
  refine (agree_sees "[").bind fun bracket _ _ _ => .ite (agree_unexpected _) ?_
  refine (agree_eat ",").bind fun _ _ _ _ => agree_pure ?_
  rw [← isRead.2]
  exact isRead.1

/-- A field is refused at the token of its name if a field before it has that name. Names do not
depend on locations. -/
theorem agree_fields (enough : before.length < rounds) (enoughOther : before.length < others)
    (earlier : List Field) :
    Follow ρ all (map (Field.relabel ρ)) 0 before (fields rounds earlier)
      (fields others (earlier.map (Field.relabel ρ))) := by
  induction rounds generalizing others before earlier with
  | zero => omega
  | succ rounds ih =>
    rcases others with _ | others
    · omega
    unfold fields
    refine (agree_eat "\x7d").bind fun closes rest _ _ => .ite follow_pure ?_
    refine (agree_field.bind fun next left isRead taken => ?_).weaken
    have sameNames : ((earlier.map (Field.relabel ρ)).any fun other =>
        other.name = (next.relabel ρ).name) = earlier.any fun other => other.name = next.name := by
      rw [any_map]
      rfl
    have appended : earlier.map (Field.relabel ρ) ++ [next.relabel ρ] =
        (earlier ++ [next]).map (Field.relabel ρ) := by
      rw [map_append, map_singleton]
    rw [sameNames, appended]
    exact .ite (agree_reject isRead _) (ih (by omega) (by omega) _)

/-- A record stands at the token of its name. -/
theorem agree_record : Follow ρ all (RecordDeclaration.relabel ρ) 1 before record record := by
  unfold record
  refine (agree_identifier _).bind fun name _ _ _ => ?_
  refine (agree_expect "\x7b").weaken.bind fun _ _ _ _ => ?_
  refine .remaining fun _ _ enough enoughOther => ?_
  exact (agree_fields enough enoughOther []).bind fun _ _ _ _ => follow_pure

/-- An argument takes one token and holds no location. -/
theorem agree_argument : Follow ρ all id 1 before argument argument := by
  unfold argument
  refine .currentToken (fun last isEnd => ?_) fun token rest isRead _ => ?_
  · rw [relabel_kind, isEnd]
    exact agree_unexpected _
  · rw [relabel_kind]
    split
    · exact agree_advance_cons.bind fun _ _ _ _ => follow_pure
    · exact .number isRead fun value => agree_advance_cons.bind fun _ _ _ _ => follow_pure
    · exact agree_advance_cons.bind fun _ _ _ _ => follow_pure
    · exact agree_unexpected _

/-- Every argument takes a token, also the first, which has no comma before it. -/
theorem agree_arguments (enough : before.length < rounds) (enoughOther : before.length < others)
    (earlier : List Argument) :
    Follow ρ all id 0 before (arguments rounds earlier) (arguments others earlier) := by
  induction rounds generalizing others before earlier with
  | zero => omega
  | succ rounds ih =>
    rcases others with _ | others
    · omega
    have next : ∀ rest : List Token, rest.length ≤ before.length → Follow ρ all id 0 rest
        (argument >>= fun next => arguments rounds (earlier ++ [next]))
        (argument >>= fun next => arguments others (earlier ++ [next])) := by
      intro rest fewer
      refine (agree_argument.bind fun value left _ taken => ?_).weaken
      exact ih (by omega) (by omega) _
    unfold arguments
    refine (agree_eat ")").bind fun closes rest _ fewer => .ite follow_pure (.ite ?_ ?_)
    · exact (agree_expect ",").weaken.bind fun _ left _ taken => next left (by omega)
    · exact next rest (by omega)

/-- A constraint stands at the token of its name. -/
theorem agree_call : Follow ρ all (Call.relabel ρ) 1 before call call := by
  unfold call
  refine (agree_identifier _).bind fun name _ _ _ => ?_
  refine (agree_eat "(").bind fun opens _ _ _ => .ite ?_ follow_pure
  refine .remaining fun _ _ enough enoughOther => ?_
  exact (agree_arguments enough enoughOther []).bind fun _ _ _ _ => follow_pure

/-- Whether another rule begins is seen before the end of the text. -/
theorem beginsRule_local (isEnd : last.kind = .endOfText) (after other : List Token) :
    beginsRule (before.map (relabel ρ) ++ last.relabel ρ :: other) =
      beginsRule (before ++ last :: after) := by
  have noColon := isSymbol_of_isEnd isEnd ":"
  match before with
  | [] => cases after <;> cases other <;> simp [beginsRule, isEnd]
  | [key] => simp [beginsRule, noColon]
  | key :: colon :: before => rfl

/-- Whether the rule goes on after a comma is seen from the next two tokens. -/
theorem agree_furtherCalls (enough : before.length < rounds)
    (enoughOther : before.length < others) :
    Follow ρ all (map (Call.relabel ρ)) 0 before (furtherCalls rounds)
      (furtherCalls others) := by
  induction rounds generalizing others before with
  | zero => omega
  | succ rounds ih =>
    rcases others with _ | others
    · omega
    unfold furtherCalls
    refine (agree_eat ",").bind fun comma rest _ _ => .ite ?_ follow_pure
    refine .get fun last after other isEnd => ?_
    rw [beginsRule_local isEnd after other]
    refine (agree_sees "\x7d").bind fun closes _ _ _ => .ite follow_pure ?_
    refine (agree_call.bind fun next left _ taken => ?_).weaken
    exact (ih (by omega) (by omega)).bind fun _ _ _ _ => follow_pure

/-- A rule stands at the token of its key. -/
theorem agree_rules (enough : before.length < rounds) (enoughOther : before.length < others) :
    Follow ρ all (map (Rule.relabel ρ)) 0 before (rules rounds) (rules others) := by
  induction rounds generalizing others before with
  | zero => omega
  | succ rounds ih =>
    rcases others with _ | others
    · omega
    unfold rules
    refine (agree_eat "\x7d").bind fun closes rest _ _ => .ite follow_pure ?_
    refine ((agree_identifier _).bind fun key left _ taken => ?_).weaken
    refine (agree_expect ":").weaken.bind fun _ _ _ _ => ?_
    refine agree_call.weaken.bind fun first _ _ _ => ?_
    refine .remaining fun _ _ ample ampleOther => ?_
    refine (agree_furtherCalls ample ampleOther).bind fun calls _ _ _ => ?_
    exact (ih (by omega) (by omega)).bind fun _ _ _ _ => follow_pure

/-- A block stands at its keyword. -/
theorem agree_validation (keyword : Token) :
    Follow ρ all (ValidationBlock.relabel ρ) 1 before (validation keyword)
      (validation (keyword.relabel ρ)) := by
  have body : ∀ (target? : Option String) (rest : List Token),
      Follow ρ all (ValidationBlock.relabel ρ) 1 rest
        (do
          let _ ← expect "\x7b"
          let rules ← rules (← remaining)
          return (⟨target?, rules, keyword.location⟩ : ValidationBlock))
        (do
          let _ ← expect "\x7b"
          let rules ← rules (← remaining)
          return (⟨target?, rules, (keyword.relabel ρ).location⟩ : ValidationBlock)) := by
    intro target? rest
    refine (agree_expect "\x7b").bind fun _ _ _ _ => ?_
    refine .remaining fun _ _ enough enoughOther => ?_
    exact (agree_rules enough enoughOther).bind fun _ _ _ _ => follow_pure
  unfold validation
  refine agree_current.andThen fun token _ => .ite ?_ (body _ _)
  exact agree_advance.andThen fun _ _ => body _ _

/-- Every declaration takes its keyword at least. -/
theorem agree_declaration :
    Follow ρ all (Declaration.relabel ρ) 1 before declaration declaration := by
  unfold declaration
  refine agree_current.andThen fun keyword _ => .ite ?_ (.ite ?_ (.ite ?_ (.ite ?_ (.ite ?_ ?_))))
  · exact agree_advance.andThen fun _ _ =>
      (agree_importing keyword).bind fun _ _ _ _ => follow_pure
  · exact agree_advance.andThen fun _ _ => agree_enumeration.bind fun _ _ _ _ => follow_pure
  · exact agree_advance.andThen fun _ _ => agree_record.bind fun _ _ _ _ => follow_pure
  · exact agree_advance.andThen fun _ _ => agree_record.bind fun _ _ _ _ => follow_pure
  · exact agree_advance.andThen fun _ _ =>
      (agree_validation keyword).bind fun _ _ _ _ => follow_pure
  · exact agree_unexpected _

/-- Declarations are read alike from all tokens that are the same up to the end of the text, apart
from changed locations. -/
theorem agree_declarations (enough : before.length < rounds)
    (enoughOther : before.length < others) :
    Follow ρ all (map (Declaration.relabel ρ)) 0 before (declarations rounds)
      (declarations others) := by
  induction rounds generalizing others before with
  | zero => omega
  | succ rounds ih =>
    rcases others with _ | others
    · omega
    unfold declarations
    refine agree_current.bind fun token rest _ _ => .ite follow_pure ?_
    refine (agree_declaration.bind fun first left _ taken => ?_).weaken
    exact (ih (by omega) (by omega)).bind fun _ _ _ _ => follow_pure

end Reading

end SchemaLang
