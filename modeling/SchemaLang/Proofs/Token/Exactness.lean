import Mathlib.Data.List.DropRight
import SchemaLang.Proofs.Token.Lexemes

/-!
# What a text is tokenized to

A text is cut into lexemes, the longest one each time, until none starts what is left. The cut is
stated by `Cut`, which does not know how lexemes are found, and there is one only. `Placed` says
which tokens the lexemes stand for and where: a place counts the newlines before it and the
characters since the last one, over the text and not over the lexemes.

`tokenize_exact` joins both. If nothing is left, the tokens are those of the lexemes and one for the
end. Otherwise the error stands where the text is stuck, and it tells a string that is never closed
from other characters.
-/

namespace SchemaLang

open List

/-! ## Places -/

/-- The place behind some characters of a module. -/
def Location.behind (source : String) (before : List Char) : Location :=
  ⟨source, 1 + before.count '\n', 1 + (before.rtakeWhile (· ≠ '\n')).length⟩

theorem Location.after_behind (source : String) (before : List Char) (c : Char) :
    (behind source before).after c = behind source (before ++ [c]) := by
  by_cases newline : c = '\n'
  · subst newline
    simp [after, behind, Nat.add_assoc]
  · have sameLine : count '\n' [c] = 0 :=
      count_eq_zero.mpr (by simpa using Ne.symm newline)
    simp [after, behind, newline, sameLine, Nat.add_assoc]

/-- Going on from a place counts on. -/
theorem Location.afterAll_behind (source : String) (before chars : List Char) :
    (behind source before).afterAll chars = behind source (before ++ chars) := by
  induction chars generalizing before with
  | nil => rw [append_nil]; rfl
  | cons c rest ih =>
    calc (behind source before).afterAll (c :: rest)
        = ((behind source before).after c).afterAll rest := rfl
      _ = (behind source (before ++ [c])).afterAll rest := by rw [after_behind]
      _ = behind source (before ++ c :: rest) := by
        rw [ih, append_assoc, singleton_append]

namespace Lexeme

/-! ## Cuts -/

/-- The characters of some lexemes. -/
def spelling (lexemes : List Lexeme) : List Char := lexemes.flatMap (·.chars)

theorem spelling_nil : spelling [] = [] := rfl

theorem spelling_cons (lexeme : Lexeme) (lexemes : List Lexeme) :
    spelling (lexeme :: lexemes) = lexeme.chars ++ spelling lexemes := rfl

/-- A text is cut into its longest lexemes, as far as they go, and what is left. -/
inductive Cut : List Char → List Lexeme → List Char → Prop where
  | stuck {chars} (stuck : Stuck chars) : Cut chars [] chars
  | next {lexeme rest lexemes left} (longest : lexeme.Longest (lexeme.chars ++ rest))
      (cut : Cut rest lexemes left) : Cut (lexeme.chars ++ rest) (lexeme :: lexemes) left

variable {lexemes : List Lexeme}

/-- A cut loses nothing. -/
theorem Cut.spelling_append {chars left : List Char} (isCut : Cut chars lexemes left) :
    spelling lexemes ++ left = chars := by
  induction isCut with
  | stuck => rfl
  | next longest cut ih =>
    rw [spelling_cons, append_assoc, ih]

/-- A text can be cut in one way only. -/
theorem Cut.unique {chars left rest : List Char} {others : List Lexeme}
    (isCut : Cut chars lexemes left) (other : Cut chars others rest) :
    others = lexemes ∧ rest = left := by
  induction isCut generalizing others rest with
  | @stuck chars isStuck =>
    cases other with
    | stuck => exact ⟨rfl, rfl⟩
    | next longest => exact absurd longest.starts (isStuck _ longest.spelled)
  | @next lexeme tail lexemes left longest cut ih =>
    generalize whole : lexeme.chars ++ tail = chars at other longest
    cases other with
    | stuck isStuck => exact absurd longest.starts (isStuck _ longest.spelled)
    | @next second secondTail _ _ secondLongest secondCut =>
      have same : lexeme = second := longest.unique secondLongest
      subst same
      have sameTail : tail = secondTail := append_cancel_left whole
      subst sameTail
      obtain ⟨sameLexemes, sameLeft⟩ := ih secondCut
      exact ⟨congrArg _ sameLexemes, sameLeft⟩

theorem Spelled.length_pos {lexeme : Lexeme} (spelled : lexeme.Spelled) :
    0 < lexeme.chars.length := by
  obtain ⟨c, body, same, -⟩ := spelled.start
  rw [same]
  exact Nat.succ_pos _

/-- What cutting a text comes to: the cut itself, or lexemes after it that do not matter, since the
first of them is a string that is never closed. -/
structure CutTo (chars : List Char) (found : List Lexeme × List Char) (lexemes : List Lexeme)
    (left : List Char) : Prop where
  isCut : Cut chars lexemes left
  whole : left.head? ≠ some '"' → found = (lexemes, left)
  unclosed : left.head? = some '"' →
    ∃ body more rest, found = (lexemes ++ ⟨.openString, body⟩ :: more, rest)

/-- One more lexeme before a cut. -/
theorem CutTo.next {lexeme : Lexeme} {rest left : List Char} {found : List Lexeme × List Char}
    (longest : lexeme.Longest (lexeme.chars ++ rest)) (cutTo : CutTo rest found lexemes left) :
    CutTo (lexeme.chars ++ rest) (lexeme :: found.1, found.2) (lexeme :: lexemes) left where
  isCut := .next longest cutTo.isCut
  whole noQuote := by rw [cutTo.whole noQuote]
  unclosed quote := by
    obtain ⟨body, more, others, rfl⟩ := cutTo.unclosed quote
    exact ⟨body, more, others, rfl⟩

/-- Cutting a text with enough rounds makes its cut. -/
theorem cut_cutTo (rounds : Nat) (chars : List Char) (enough : chars.length ≤ rounds) :
    ∃ lexemes left, CutTo chars (cut rounds chars) lexemes left := by
  induction rounds generalizing chars with
  | zero =>
    obtain rfl : chars = [] := eq_nil_of_length_eq_zero (Nat.le_zero.mp enough)
    exact ⟨[], [], .stuck stuck_nil, fun _ => rfl, nofun⟩
  | succ rounds ih =>
    have finding := first?_finding chars
    unfold cut
    generalize first? chars = found at finding ⊢
    cases finding with
    | nothing isStuck noQuote => exact ⟨[], chars, .stuck isStuck, fun _ => rfl,
      fun quote => absurd quote noQuote⟩
    | openString isStuck =>
      exact ⟨[], _, .stuck isStuck, fun noQuote => absurd rfl noQuote, fun _ => ⟨_, _, _, rfl⟩⟩
    | @lexeme lexeme _ longest =>
      obtain ⟨rest, rfl⟩ := longest.starts
      have shorter : rest.length ≤ rounds := by
        have nonempty : 0 < lexeme.chars.length := longest.spelled.length_pos
        rw [length_append] at enough
        omega
      obtain ⟨lexemes, left, cutTo⟩ := ih rest shorter
      dsimp only
      rw [drop_left]
      exact ⟨lexeme :: lexemes, left, cutTo.next longest⟩

/-! ## Tokens -/

/-- What a lexeme that is no blank and no comment stands for. -/
inductive Denotes : Lexeme → TokenKind → String → Prop where
  | string {raw meaning} (quoted : Quoted raw meaning) :
      Denotes ⟨.string, '"' :: (raw ++ ['"'])⟩ .string (String.ofList meaning)
  | number {chars} : Denotes ⟨.number, chars⟩ .number (String.ofList chars)
  | identifier {chars} : Denotes ⟨.identifier, chars⟩ .identifier (String.ofList chars)
  | symbol {chars} : Denotes ⟨.symbol, chars⟩ .symbol (String.ofList chars)

/-- The tokens of some lexemes that follow some characters of a module. -/
inductive Placed (source : String) : List Char → List Lexeme → List Token → Prop where
  | done {before} : Placed source before [] []
  | silent {before lexeme lexemes tokens} (isSilent : lexeme.kind = .blank ∨ lexeme.kind = .comment)
      (rest : Placed source (before ++ lexeme.chars) lexemes tokens) :
      Placed source before (lexeme :: lexemes) tokens
  | token {before lexeme kind text lexemes tokens} (denotes : Denotes lexeme kind text)
      (rest : Placed source (before ++ lexeme.chars) lexemes tokens) :
      Placed source before (lexeme :: lexemes) (⟨kind, text, .behind source before⟩ :: tokens)

/-- The characters of a string mean what they are unescaped to. -/
theorem Quoted.unescape_eq {raw meaning : List Char} (quoted : Quoted raw meaning) :
    unescape raw = meaning := by
  induction quoted with
  | done => rfl
  | plain _ notEscape _ _ ih => simp [unescape, notEscape, ih]
  | newline _ ih | tab _ ih | carriageReturn _ ih => simp [unescape, escaped, ih]
  | itself unnamed _ _ ih =>
    simp [unescape, escaped, unnamed, ih]

variable {lexeme : Lexeme}

theorem Denotes.token?_eq {kind : TokenKind} {text : String} (denotes : Denotes lexeme kind text)
    (location : Location) : lexeme.token? location = some ⟨kind, text, location⟩ := by
  cases denotes with
  | string quoted => simp [token?, inside, quoted.unescape_eq]
  | _ => rfl

theorem Denotes.closed {kind : TokenKind} {text : String} (denotes : Denotes lexeme kind text) :
    lexeme.kind ≠ .openString := by
  cases denotes <;> simp

theorem Spelled.silent_or_denotes (spelled : lexeme.Spelled) :
    (lexeme.kind = .blank ∨ lexeme.kind = .comment) ∨ ∃ kind text, Denotes lexeme kind text := by
  cases spelled with
  | blank => exact .inl (.inl rfl)
  | comment => exact .inl (.inr rfl)
  | string quoted => exact .inr ⟨_, _, .string quoted⟩
  | number | negative => exact .inr ⟨_, _, .number⟩
  | identifier => exact .inr ⟨_, _, .identifier⟩
  | symbol => exact .inr ⟨_, _, .symbol⟩

variable {lexemes : List Lexeme}

/-- The lexemes of a cut have tokens. -/
theorem Cut.placed {chars left : List Char} (isCut : Cut chars lexemes left) (source : String)
    (before : List Char) : ∃ tokens, Placed source before lexemes tokens := by
  induction isCut generalizing before with
  | stuck => exact ⟨[], .done⟩
  | @next lexeme rest lexemes left longest cut ih =>
    obtain ⟨tokens, placed⟩ := ih (before ++ lexeme.chars)
    rcases longest.spelled.silent_or_denotes with isSilent | ⟨kind, text, denotes⟩
    · exact ⟨tokens, .silent isSilent placed⟩
    · exact ⟨_, .token denotes placed⟩

/-- Placing lexemes goes on behind them. -/
theorem Placed.place_append {source : String} {before : List Char} {tokens : List Token}
    (placed : Placed source before lexemes tokens) (left : List Char) (more : List Lexeme) :
    place left (.behind source before) (lexemes ++ more) =
      (place left (.behind source (before ++ spelling lexemes)) more).map (tokens ++ ·) := by
  induction placed with
  | done =>
    rw [spelling_nil, append_nil, nil_append]
    cases place left _ more <;> rfl
  | @silent before lexeme lexemes tokens isSilent rest ih =>
    have closed : lexeme.kind ≠ .openString := by rcases isSilent with kind | kind <;> simp [kind]
    have noToken (location : Location) : lexeme.token? location = none := by
      rcases isSilent with kind | kind <;> simp [token?, kind]
    rw [cons_append, place, if_neg closed, Location.afterAll_behind, ih,
      spelling_cons, ← append_assoc, noToken]
    cases place left _ more <;> rfl
  | @token before lexeme kind text lexemes tokens denotes rest ih =>
    rw [cons_append, place, if_neg denotes.closed, Location.afterAll_behind,
      ih, spelling_cons, ← append_assoc, denotes.token?_eq]
    cases place left _ more <;> rfl

end Lexeme

open Lexeme

/-- Tokenizing a text is exact in content and place.

There is one cut of the text into longest lexemes. If it reaches the end, the tokens are those of
its lexemes, each at the place that the characters before it make, and the end of the text. If it
gets stuck, the error is at that place: an unterminated string if a quote stands there, and
unexpected characters if not. -/
theorem tokenize_exact (source text : String) :
    ∃ lexemes left, Cut text.toList lexemes left ∧
      (∀ others rest, Cut text.toList others rest → others = lexemes ∧ rest = left) ∧
      ((left = [] ∧ ∃ tokens, Placed source [] lexemes tokens ∧
          tokenize source text =
            .ok (tokens ++ [⟨.endOfText, "", .behind source text.toList⟩])) ∨
        (left.head? = some '"' ∧
          tokenize source text =
            .error (.unterminatedString (.behind source (spelling lexemes)))) ∨
        (left ≠ [] ∧ left.head? ≠ some '"' ∧
          tokenize source text =
            .error (.characters (String.ofList (strange left))
              (.behind source (spelling lexemes))))) := by
  obtain ⟨lexemes, left, isCut, whole, unclosed⟩ :=
    cut_cutTo text.toList.length text.toList (Nat.le_refl _)
  obtain ⟨tokens, placed⟩ := isCut.placed source []
  refine ⟨lexemes, left, isCut, fun others rest other => isCut.unique other, ?_⟩
  have started : Location.start source = .behind source [] := rfl
  by_cases quote : left.head? = some '"'
  · obtain ⟨body, more, rest, found⟩ := unclosed quote
    refine .inr (.inl ⟨quote, ?_⟩)
    rw [tokenize, found, started]
    dsimp only
    rw [placed.place_append]
    rfl
  have found := whole quote
  have placing := placed.place_append left []
  rw [List.append_nil, List.nil_append, place] at placing
  by_cases done : left = []
  · subst done
    refine .inl ⟨rfl, tokens, placed, ?_⟩
    rw [tokenize, found, started, ← isCut.spelling_append, List.append_nil]
    exact placing
  · refine .inr (.inr ⟨done, quote, ?_⟩)
    rw [if_neg (by simpa using done)] at placing
    rw [tokenize, found, started]
    exact placing

end SchemaLang
