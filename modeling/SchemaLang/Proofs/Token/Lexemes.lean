import Mathlib.Data.List.Infix
import Mathlib.Data.List.TakeWhile
import SchemaLang.Token.Lexer

/-!
# The language of lexemes

What a lexeme is, said without the functions that find one: a run of blanks, a comment, a
closed string, a numeral, an identifier or a symbol. The kinds start with different characters,
so at most one of them can start a text, and `Lexeme.first?` finds the longest lexeme of that
kind. It also names the strings that are never closed; no lexeme starts a text there.

Each kind is found by taking characters as long as they belong to it. For numerals this needs an
argument, since a point or an exponent mark counts only if a digit follows: a shorter numeral ends
before a digit or before the part that the longer one goes on with.
-/

namespace SchemaLang.Lexeme

open List Text

/-! ## Spellings -/

/-- The inside of a string as it is written, and what it means. No line ends in it. -/
inductive Quoted : List Char → List Char → Prop where
  | done : Quoted [] []
  | plain {c raw meaning} (notQuote : c ≠ '"') (notEscape : c ≠ '\\') (sameLine : c ≠ '\n')
      (rest : Quoted raw meaning) : Quoted (c :: raw) (c :: meaning)
  | newline {raw meaning} (rest : Quoted raw meaning) :
      Quoted ('\\' :: 'n' :: raw) ('\n' :: meaning)
  | tab {raw meaning} (rest : Quoted raw meaning) : Quoted ('\\' :: 't' :: raw) ('\t' :: meaning)
  | carriageReturn {raw meaning} (rest : Quoted raw meaning) :
      Quoted ('\\' :: 'r' :: raw) ('\r' :: meaning)
  | itself {c raw meaning} (unnamed : c ≠ 'n' ∧ c ≠ 't' ∧ c ≠ 'r') (sameLine : c ≠ '\n')
      (rest : Quoted raw meaning) : Quoted ('\\' :: c :: raw) (c :: meaning)

/-- Decimal digits of any script, one at least. -/
def Digits (chars : List Char) : Prop :=
  chars ≠ [] ∧ ∀ c ∈ chars, Text.isDecimalDigit c = true

/-- A fraction, which may be left out. -/
inductive Fraction : List Char → Prop where
  | none : Fraction []
  | some {digits} (isDigits : Digits digits) : Fraction ('.' :: digits)

/-- An exponent, which may be left out. -/
inductive Exponent : List Char → Prop where
  | none : Exponent []
  | unsigned {mark digits} (isMark : mark = 'e' ∨ mark = 'E') (isDigits : Digits digits) :
      Exponent (mark :: digits)
  | signed {mark sign digits} (isMark : mark = 'e' ∨ mark = 'E') (isSign : sign = '+' ∨ sign = '-')
      (isDigits : Digits digits) : Exponent (mark :: sign :: digits)

/-- A numeral without a sign. -/
inductive Magnitude : List Char → Prop where
  | intro {whole fraction exponent} (isWhole : Digits whole) (isFraction : Fraction fraction)
      (isExponent : Exponent exponent) : Magnitude (whole ++ fraction ++ exponent)

/-- The lexemes. A string that is not closed is none. -/
inductive Spelled : Lexeme → Prop where
  | blank {chars} (nonempty : chars ≠ []) (blanks : ∀ c ∈ chars, isBlank c = true) :
      Spelled ⟨.blank, chars⟩
  | comment {body} (sameLine : '\n' ∉ body) : Spelled ⟨.comment, '#' :: body⟩
  | string {raw meaning} (quoted : Quoted raw meaning) : Spelled ⟨.string, '"' :: (raw ++ ['"'])⟩
  | number {chars} (magnitude : Magnitude chars) : Spelled ⟨.number, chars⟩
  | negative {chars} (magnitude : Magnitude chars) : Spelled ⟨.number, '-' :: chars⟩
  | identifier {first body} (starts : startsIdentifier first = true)
      (continues : ∀ c ∈ body, continuesIdentifier c = true) : Spelled ⟨.identifier, first :: body⟩
  | symbol {c} (isSymbol : isSymbol c = true) : Spelled ⟨.symbol, [c]⟩

/-- A lexeme starts a text, and none that starts it is longer. -/
structure Longest (lexeme : Lexeme) (chars : List Char) : Prop where
  spelled : lexeme.Spelled
  starts : lexeme.chars <+: chars
  longest : ∀ other : Lexeme, other.Spelled → other.chars <+: chars →
    other.chars.length ≤ lexeme.chars.length

/-- No lexeme starts a text. -/
def Stuck (chars : List Char) : Prop := ∀ lexeme : Lexeme, lexeme.Spelled → ¬ lexeme.chars <+: chars

/-! ## First characters -/

/-- The kind of the lexemes that start with a character. -/
def kindOfStart? (c : Char) : Option LexemeKind :=
  if isBlank c then some .blank
  else if c = '#' then some .comment
  else if c = '"' then some .string
  else if isDecimalDigit c || c = '-' then some .number
  else if startsIdentifier c then some .identifier
  else if isSymbol c then some .symbol
  else none

variable {c : Char}

/-- A character that starts an identifier is no digit. -/
theorem isDecimalDigit_of_startsIdentifier (starts : startsIdentifier c = true) :
    isDecimalDigit c = false := by
  simp only [startsIdentifier, Bool.or_eq_true, decide_eq_true_eq] at starts
  rcases starts with letter | rfl
  · have code : (65 ≤ c.toNat ∧ c.toNat ≤ 90) ∨ (97 ≤ c.toNat ∧ c.toNat ≤ 122) := by
      delta Char.isAlpha Char.isUpper Char.isLower at letter
      simpa [UInt32.le_iff_toNat_le, ← Char.toNat_val] using letter
    have ascii : c.toNat < 128 := by omega
    have notDigit : c.isDigit = false := by
      by_contra isDigit
      have digitCode : 48 ≤ c.toNat ∧ c.toNat ≤ 57 := by
        simpa [Char.isDigit, UInt32.le_iff_toNat_le, ← Char.toNat_val] using isDigit
      omega
    rw [isDecimalDigit, if_pos ascii, notDigit]
  · decide

variable {holds : Char → Bool}

/-- A character of a class is none that is outside of it. -/
theorem ne_of_class {other : Char} (inside : holds c = true) (outside : holds other = false) :
    c ≠ other := by
  rintro rfl
  rw [inside] at outside
  cases outside

theorem kindOfStart?_digit (digit : isDecimalDigit c = true) : kindOfStart? c = some .number := by
  have differs (other : Char) (outside : isDecimalDigit other = false) : c ≠ other :=
    ne_of_class digit outside
  have notBlank : isBlank c = false := by
    simp [isBlank, differs ' ' (by decide), differs '\t' (by decide),
      differs '\r' (by decide), differs '\n' (by decide)]
  simp [kindOfStart?, notBlank, differs '#' (by decide), differs '"' (by decide), digit]

theorem kindOfStart?_identifier (starts : startsIdentifier c = true) :
    kindOfStart? c = some .identifier := by
  have differs (other : Char) (outside : startsIdentifier other = false) : c ≠ other :=
    ne_of_class starts outside
  have notBlank : isBlank c = false := by
    simp [isBlank, differs ' ' (by decide), differs '\t' (by decide),
      differs '\r' (by decide), differs '\n' (by decide)]
  simp [kindOfStart?, notBlank, differs '#' (by decide),
    differs '"' (by decide), differs '-' (by decide), starts,
    isDecimalDigit_of_startsIdentifier starts]

theorem kindOfStart?_symbol (symbol : isSymbol c = true) : kindOfStart? c = some .symbol := by
  simp only [isSymbol, contains_eq_mem, decide_eq_true_eq, mem_cons, not_mem_nil,
    or_false] at symbol
  rcases symbol with rfl | rfl | rfl | rfl | rfl | rfl | rfl | rfl | rfl | rfl | rfl <;> decide

variable {chars : List Char}

/-- A numeral without a sign starts with a digit. -/
theorem Magnitude.start (magnitude : Magnitude chars) :
    ∃ c body, chars = c :: body ∧ isDecimalDigit c = true := by
  obtain ⟨⟨nonempty, digits⟩, _, _⟩ := magnitude
  rename_i whole fraction exponent _ _
  cases whole with
  | nil => exact absurd rfl nonempty
  | cons c rest => exact ⟨c, rest ++ fraction ++ exponent, rfl, digits c mem_cons_self⟩

variable {lexeme : Lexeme}

/-- The first character of a lexeme tells its kind. -/
theorem Spelled.start (spelled : lexeme.Spelled) :
    ∃ c body, lexeme.chars = c :: body ∧ kindOfStart? c = some lexeme.kind := by
  cases spelled with
  | @blank chars nonempty blanks =>
    cases chars with
    | nil => exact absurd rfl nonempty
    | cons c rest =>
      exact ⟨c, rest, rfl, by rw [kindOfStart?, if_pos (blanks c mem_cons_self)]⟩
  | comment | string | negative => exact ⟨_, _, rfl, rfl⟩
  | number magnitude =>
    obtain ⟨c, body, same, digit⟩ := magnitude.start
    exact ⟨c, body, same, kindOfStart?_digit digit⟩
  | identifier starts => exact ⟨_, _, rfl, kindOfStart?_identifier starts⟩
  | symbol symbol => exact ⟨_, _, rfl, kindOfStart?_symbol symbol⟩

variable {rest : List Char}

/-- A lexeme that starts a text has the kind that the first character tells. -/
theorem Spelled.kind_of_prefix (spelled : lexeme.Spelled) (starts : lexeme.chars <+: c :: rest) :
    kindOfStart? c = some lexeme.kind := by
  obtain ⟨first, body, same, tells⟩ := spelled.start
  rw [same, cons_prefix_cons] at starts
  rw [← starts.1, tells]

/-- A text has one longest lexeme at its start. -/
theorem Longest.unique {first second : Lexeme} (one : first.Longest chars)
    (other : second.Longest chars) : first = second := by
  have sameLength : first.chars.length = second.chars.length :=
    Nat.le_antisymm (other.longest first one.spelled one.starts)
      (one.longest second other.spelled other.starts)
  have sameChars : first.chars = second.chars :=
    (prefix_of_prefix_length_le one.starts other.starts sameLength.le).eq_of_length sameLength
  obtain ⟨c, body, firstStart, firstTells⟩ := one.spelled.start
  obtain ⟨d, others, secondStart, secondTells⟩ := other.spelled.start
  rw [sameChars, secondStart] at firstStart
  rw [← (cons.inj firstStart).1, secondTells] at firstTells
  obtain ⟨kind, chars⟩ := first
  obtain ⟨otherKind, otherChars⟩ := second
  cases sameChars
  rw [show otherKind = kind from Option.some.inj firstTells]

/-- Nothing starts an empty text. -/
theorem stuck_nil : Stuck [] := by
  intro lexeme spelled starts
  obtain ⟨c, body, same, _⟩ := spelled.start
  rw [prefix_nil.mp starts] at same
  cases same

/-- To be the longest it is enough to be the longest of its kind. -/
theorem longest_of_kind (spelled : lexeme.Spelled) (starts : lexeme.chars <+: c :: rest)
    (longest : ∀ other : Lexeme, other.Spelled → other.kind = lexeme.kind → other.chars <+: c ::
      rest → other.chars.length ≤ lexeme.chars.length) : lexeme.Longest (c :: rest) := by
  refine ⟨spelled, starts, fun other otherSpelled otherStarts => ?_⟩
  have own := spelled.kind_of_prefix starts
  have others := otherSpelled.kind_of_prefix otherStarts
  exact longest other otherSpelled (Option.some.inj (others.symm.trans own)) otherStarts

/-! ## Runs of characters -/

/-- What starts a text and lies in a class is not longer than the run of that class. -/
theorem run_longest {pre : List Char} (inside : ∀ c ∈ pre, holds c = true)
    (starts : pre <+: chars) : pre.length ≤ (chars.takeWhile holds).length := by
  obtain ⟨more, rfl⟩ := starts
  rw [takeWhile_append_of_pos inside, length_append]
  omega

/-- The characters of a run belong to its class. -/
theorem run_inside : ∀ c ∈ chars.takeWhile holds, holds c = true := fun _ => mem_takeWhile_imp

theorem blank_longest (blank : isBlank c = true) (rest : List Char) :
    Longest ⟨.blank, c :: rest.takeWhile isBlank⟩ (c :: rest) := by
  have whole : c :: rest.takeWhile isBlank = (c :: rest).takeWhile isBlank := by
    rw [takeWhile_cons_of_pos blank]
  refine longest_of_kind (.blank (by simp) ?_) ?_ fun other spelled kind starts => ?_
  · rw [whole]
    exact run_inside
  · exact prefix_cons_inj c |>.mpr <| takeWhile_prefix _
  · cases spelled with
    | blank _ blanks =>
      rw [whole]
      exact run_longest blanks starts
    | _ => cases kind

theorem comment_longest (rest : List Char) :
    Longest ⟨.comment, '#' :: rest.takeWhile (· ≠ '\n')⟩ ('#' :: rest) := by
  refine longest_of_kind (.comment ?_) ?_ fun other spelled kind starts => ?_
  · intro member
    have sameLine := run_inside _ member
    simp at sameLine
  · exact prefix_cons_inj _ |>.mpr <| takeWhile_prefix _
  · cases spelled with
    | @comment body sameLine =>
      have inside : ∀ c ∈ body, decide (c ≠ '\n') = true := by
        intro c member
        have differs : c ≠ '\n' := fun same => sameLine (same ▸ member)
        simpa using differs
      exact Nat.succ_le_succ (run_longest inside (cons_prefix_cons.mp starts).2)
    | _ => cases kind

theorem identifier_longest (startsIt : startsIdentifier c = true) (rest : List Char) :
    Longest ⟨.identifier, c :: rest.takeWhile continuesIdentifier⟩ (c :: rest) := by
  refine longest_of_kind (.identifier startsIt run_inside) ?_ fun other spelled kind starts => ?_
  · exact prefix_cons_inj _ |>.mpr <| takeWhile_prefix _
  · cases spelled with
    | identifier _ continues =>
      exact Nat.succ_le_succ (run_longest continues (cons_prefix_cons.mp starts).2)
    | _ => cases kind

theorem symbol_longest (isOne : isSymbol c = true) (rest : List Char) :
    Longest ⟨.symbol, [c]⟩ (c :: rest) := by
  refine longest_of_kind (.symbol isOne) ⟨rest, rfl⟩ fun other spelled kind starts => ?_
  cases spelled with
  | symbol => exact Nat.le_refl _
  | _ => cases kind

/-! ## Strings -/

/-- The inside of a closed string is found as it is written. -/
theorem Quoted.stringBody_eq {raw meaning : List Char} (quoted : Quoted raw meaning)
    (more : List Char) : stringBody (raw ++ '"' :: more) = (raw, true) := by
  induction quoted with
  | done => simp [stringBody]
  | plain notQuote notEscape sameLine _ ih =>
    simp [stringBody, notQuote, notEscape, sameLine, ih]
  | newline _ ih | tab _ ih | carriageReturn _ ih => simp [stringBody, ih]
  | itself _ sameLine _ ih => simp [stringBody, sameLine, ih]

/-- An escaped character stands for what `escaped` says. -/
theorem Quoted.escape {raw meaning : List Char} (sameLine : c ≠ '\n') (rest : Quoted raw meaning) :
    Quoted ('\\' :: c :: raw) (escaped c :: meaning) := by
  unfold escaped
  split
  · rename_i isNamed
    exact isNamed ▸ .newline rest
  split
  · rename_i isNamed
    exact isNamed ▸ .tab rest
  split
  · rename_i isNamed
    exact isNamed ▸ .carriageReturn rest
  · rename_i notNewline notTab notReturn
    exact .itself ⟨notNewline, notTab, notReturn⟩ sameLine rest

variable {body : List Char}

/-- What is found as the inside of a closed string is one, and means what it is unescaped to. -/
theorem stringBody_quoted (rest : List Char) (closed : stringBody rest = (body, true)) :
    Quoted body (unescape body) ∧ body ++ ['"'] <+: rest := by
  fun_induction stringBody rest generalizing body with
  | case1 | case2 | case5 => cases closed
  | case3 c rest sameLine inner isClosed found ih =>
    cases closed
    obtain ⟨quoted, starts⟩ := ih found
    exact ⟨quoted.escape sameLine, by simpa using starts⟩
  | case4 =>
    cases closed
    exact ⟨.done, by simp⟩
  | case6 c rest _ notQuote plain inner isClosed found ih =>
    cases closed
    obtain ⟨quoted, starts⟩ := ih found
    obtain ⟨sameLine, notEscape⟩ : c ≠ '\n' ∧ c ≠ '\\' := by simpa using plain
    have means : unescape (c :: inner) = c :: unescape inner := by simp [unescape, notEscape]
    exact ⟨means ▸ .plain notQuote notEscape sameLine quoted, by simpa using starts⟩

/-- A string that is closed is the longest lexeme. -/
theorem string_longest (closed : stringBody rest = (body, true)) :
    Longest ⟨.string, '"' :: (body ++ ['"'])⟩ ('"' :: rest) := by
  obtain ⟨quoted, starts⟩ := stringBody_quoted rest closed
  refine longest_of_kind (.string quoted) (prefix_cons_inj _ |>.mpr starts)
    fun other spelled kind otherStarts => ?_
  cases spelled with
  | @string raw meaning otherQuoted =>
    obtain ⟨more, rfl⟩ := (cons_prefix_cons.mp otherStarts).2
    rw [append_assoc, singleton_append, otherQuoted.stringBody_eq more] at closed
    cases closed
    exact Nat.le_refl _
  | _ => cases kind

/-- No lexeme starts at a quote that is never closed. -/
theorem stuck_of_open (isOpen : stringBody rest = (body, false)) : Stuck ('"' :: rest) := by
  intro other spelled starts
  have kind : some LexemeKind.string = some other.kind := spelled.kind_of_prefix starts
  cases spelled with
  | @string raw meaning quoted =>
    obtain ⟨more, rfl⟩ := (cons_prefix_cons.mp starts).2
    rw [append_assoc, singleton_append, quoted.stringBody_eq more] at isOpen
    cases isOpen
  | _ => cases kind

/-! ## Numerals -/

variable {digits : List Char}

/-- A run of digits after digits is one run. -/
theorem Digits.takeWhile_append (isDigits : Digits digits) (rest : List Char) :
    (digits ++ rest).takeWhile isDecimalDigit = digits ++ rest.takeWhile isDecimalDigit :=
  takeWhile_append_of_pos isDigits.2

/-- Digits that are found at the start of a text, if the first character is one. -/
theorem digits_takeWhile (digit : isDecimalDigit c = true) :
    Digits ((c :: rest).takeWhile isDecimalDigit) :=
  ⟨by simp [digit], run_inside⟩

/-- The fraction that is found is one and stands there. -/
theorem fraction_found (chars : List Char) :
    Fraction (fraction chars) ∧ fraction chars <+: chars := by
  unfold fraction
  split
  · split
    · rename_i c rest digit
      exact ⟨.some (digits_takeWhile digit), (prefix_cons_inj _).mpr <| takeWhile_prefix _⟩
    · exact ⟨.none, nil_prefix⟩
  · exact ⟨.none, nil_prefix⟩

/-- The exponent that is found is one and stands there. -/
theorem exponent_found (chars : List Char) :
    Exponent (exponent chars) ∧ exponent chars <+: chars := by
  have runs : ∀ more : List Char, (more.takeWhile isDecimalDigit).isEmpty ≠ true →
      Digits (more.takeWhile isDecimalDigit) := by
    intro more nonempty
    exact ⟨by simpa using nonempty, run_inside⟩
  unfold exponent
  split
  · rename_i mark rest
    split
    · rename_i isMark
      have marked : mark = 'e' ∨ mark = 'E' := by simpa using isMark
      split
      · rename_i sign more
        split
        · rename_i isSign
          have signed : sign = '+' ∨ sign = '-' := by simpa using isSign
          dsimp only
          split
          · exact ⟨.none, nil_prefix⟩
          · rename_i nonempty
            exact ⟨.signed marked signed (runs more nonempty), by simp [ takeWhile_prefix]⟩
        · dsimp only
          split
          · exact ⟨.none, nil_prefix⟩
          · rename_i nonempty
            exact ⟨.unsigned marked (runs _ nonempty),
              prefix_cons_inj _ |>.mpr <| takeWhile_prefix _⟩
      · exact ⟨.none, nil_prefix⟩
    · exact ⟨.none, nil_prefix⟩
  · exact ⟨.none, nil_prefix⟩

/-- Two pieces that follow each other in a text start it together. -/
theorem starts_append {first second : List Char} (starts : first <+: chars)
    (follows : second <+: chars.drop first.length) : first ++ second <+: chars := by
  obtain ⟨more, rfl⟩ := starts
  rw [drop_left] at follows
  exact (prefix_append_right_inj first).mpr follows

/-- The numeral that is found at a digit is one and stands there. -/
theorem unsignedNumeral_found (digit : isDecimalDigit c = true) (rest : List Char) :
    Magnitude (unsignedNumeral (c :: rest)) ∧ unsignedNumeral (c :: rest) <+: c :: rest := by
  unfold unsignedNumeral
  dsimp only
  generalize isRun : (c :: rest).takeWhile isDecimalDigit = digits
  have isWhole : Digits digits := isRun ▸ digits_takeWhile digit
  have wholeStarts : digits <+: c :: rest := isRun ▸ takeWhile_prefix _
  obtain ⟨isFraction, fractionStarts⟩ := fraction_found ((c :: rest).drop digits.length)
  generalize fraction ((c :: rest).drop digits.length) = part at isFraction fractionStarts ⊢
  obtain ⟨isExponent, exponentStarts⟩ :=
    exponent_found (((c :: rest).drop digits.length).drop part.length)
  refine ⟨.intro isWhole isFraction isExponent,
    starts_append (starts_append wholeStarts fractionStarts) ?_⟩
  rwa [length_append, ← drop_drop]

/-- Digits before a character that is none are the whole run. -/
theorem Digits.takeWhile_eq (isDigits : Digits digits) (ends : isDecimalDigit c = false) :
    (digits ++ c :: rest).takeWhile isDecimalDigit = digits := by
  rw [isDigits.takeWhile_append, takeWhile_cons_of_neg (by simp [ends]), append_nil]

/-- Digits after a point belong to its fraction, with those that follow. -/
theorem fraction_point (isDigits : Digits digits) (rest : List Char) :
    fraction ('.' :: (digits ++ rest)) = '.' :: (digits ++ rest.takeWhile isDecimalDigit) := by
  obtain ⟨nonempty, inside⟩ := isDigits
  obtain ⟨c, others, rfl⟩ := exists_cons_of_ne_nil nonempty
  rw [cons_append, fraction, if_pos (inside c mem_cons_self), ← cons_append,
    Digits.takeWhile_append ⟨nonempty, inside⟩]

variable {mark : Char}

/-- A mark of an exponent is no digit and no point. -/
theorem mark_plain (isMark : mark = 'e' ∨ mark = 'E') :
    isDecimalDigit mark = false ∧ mark ≠ '.' := by
  rcases isMark with rfl | rfl <;> decide

variable {part : List Char}

/-- A fraction before the mark of an exponent is the whole fraction. -/
theorem Fraction.fraction_append (isFraction : Fraction part) (isMark : mark = 'e' ∨ mark = 'E') :
    fraction (part ++ mark :: rest) = part := by
  obtain ⟨notDigit, notPoint⟩ := mark_plain isMark
  cases isFraction with
  | none => rcases isMark with rfl | rfl <;> rfl
  | some isDigits =>
    rw [cons_append, fraction_point isDigits,
      takeWhile_cons_of_neg (by simp [notDigit]), append_nil]

/-- Digits before a fraction and the mark of an exponent are the whole run. -/
theorem Fraction.takeWhile_append (isFraction : Fraction part) (isWhole : Digits digits)
    (isMark : mark = 'e' ∨ mark = 'E') :
    (digits ++ (part ++ mark :: rest)).takeWhile isDecimalDigit = digits := by
  cases isFraction with
  | none => exact isWhole.takeWhile_eq (mark_plain isMark).1
  | some isDigits => exact isWhole.takeWhile_eq (by decide)

/-- A numeral up to the mark of an exponent goes on with what is found there. -/
theorem unsignedNumeral_mark (isWhole : Digits digits) (isFraction : Fraction part)
    (isMark : mark = 'e' ∨ mark = 'E') :
    unsignedNumeral (digits ++ part ++ mark :: rest) =
      digits ++ part ++ exponent (mark :: rest) := by
  rw [append_assoc, unsignedNumeral]
  rw [isFraction.takeWhile_append isWhole isMark, drop_left,
    isFraction.fraction_append isMark, drop_left]

/-- A numeral without an exponent is no longer than the one that is found. -/
theorem unsignedNumeral_unmarked (isWhole : Digits digits) (isFraction : Fraction part)
    (rest : List Char) :
    (digits ++ part).length ≤ (unsignedNumeral (digits ++ part ++ rest)).length := by
  rw [append_assoc, unsignedNumeral]
  cases isFraction with
  | none =>
    rw [isWhole.takeWhile_append]
    simp only [length_append, length_nil]
    omega
  | some isDigits =>
    rw [cons_append, isWhole.takeWhile_eq (by decide), drop_left, fraction_point isDigits]
    simp only [length_append, length_cons]
    omega

/-- An exponent is no longer than the one that is found where it stands. -/
theorem Exponent.length_le {power : List Char} (isExponent : Exponent power) (rest : List Char) :
    power.length ≤ (exponent (power ++ rest)).length := by
  cases isExponent with
  | none => exact Nat.zero_le _
  | @unsigned mark digits isMark isDigits =>
    obtain ⟨nonempty, inside⟩ := isDigits
    obtain ⟨c, others, rfl⟩ := exists_cons_of_ne_nil nonempty
    have digit : isDecimalDigit c = true := inside c mem_cons_self
    have unsigned : ¬ ((decide (c = '+') || decide (c = '-')) = true) := by
      have notPlus : c ≠ '+' := ne_of_class digit (by decide)
      have notMinus : c ≠ '-' := ne_of_class digit (by decide)
      simp [notPlus, notMinus]
    have run := Digits.takeWhile_append ⟨nonempty, inside⟩ rest
    simp only [cons_append, exponent] at run ⊢
    rw [if_pos (by simpa using isMark), if_neg unsigned, run]
    simp
  | @signed mark sign digits isMark isSign isDigits =>
    simp only [cons_append, exponent]
    rw [if_pos (by simpa using isMark), if_pos (by simpa using isSign),
      isDigits.takeWhile_append, if_neg (by simp [isDigits.1])]
    simp

/-- An exponent that is not left out starts with a mark. -/
theorem Exponent.nil_or_mark {power : List Char} (isExponent : Exponent power) :
    power = [] ∨ ∃ mark tail, power = mark :: tail ∧ (mark = 'e' ∨ mark = 'E') := by
  cases isExponent with
  | none => exact .inl rfl
  | unsigned isMark _ | signed isMark _ _ => exact .inr ⟨_, _, rfl, isMark⟩

/-- No numeral that starts a text is longer than the one that is found. -/
theorem Magnitude.length_le {numeral : List Char} (magnitude : Magnitude numeral)
    (starts : numeral <+: chars) : numeral.length ≤ (unsignedNumeral chars).length := by
  obtain ⟨rest, rfl⟩ := starts
  obtain ⟨isWhole, isFraction, isExponent⟩ := magnitude
  have bound := isExponent.length_le rest
  rcases isExponent.nil_or_mark with rfl | ⟨mark, tail, rfl, isMark⟩
  · rw [append_nil]
    exact unsignedNumeral_unmarked isWhole isFraction rest
  · rw [append_assoc _ (mark :: tail), cons_append, unsignedNumeral_mark isWhole isFraction isMark]
    rw [cons_append] at bound
    simp only [length_append] at bound ⊢
    omega

/-- The numeral that is found at a digit is the longest lexeme. -/
theorem number_longest (digit : isDecimalDigit c = true) (rest : List Char) :
    Longest ⟨.number, unsignedNumeral (c :: rest)⟩ (c :: rest) := by
  obtain ⟨magnitude, starts⟩ := unsignedNumeral_found digit rest
  refine longest_of_kind (.number magnitude) starts fun other spelled kind otherStarts => ?_
  cases spelled with
  | number otherMagnitude => exact otherMagnitude.length_le otherStarts
  | negative =>
    obtain ⟨isMinus, -⟩ := cons_prefix_cons.mp otherStarts
    rw [← isMinus] at digit
    cases digit
  | _ => cases kind

/-- The numeral that is found at a minus before a digit is the longest lexeme. -/
theorem negative_longest (digit : isDecimalDigit c = true) (rest : List Char) :
    Longest ⟨.number, '-' :: unsignedNumeral (c :: rest)⟩ ('-' :: c :: rest) := by
  obtain ⟨magnitude, starts⟩ := unsignedNumeral_found digit rest
  refine longest_of_kind (.negative magnitude) (prefix_cons_inj _ |>.mpr starts)
    fun other spelled kind otherStarts => ?_
  cases spelled with
  | number otherMagnitude =>
    obtain ⟨first, others, rfl, isDigit⟩ := otherMagnitude.start
    obtain ⟨rfl, -⟩ := cons_prefix_cons.mp otherStarts
    cases isDigit
  | negative otherMagnitude =>
    exact Nat.succ_le_succ (otherMagnitude.length_le (cons_prefix_cons.mp otherStarts).2)
  | _ => cases kind

/-- No lexeme starts at a minus without a digit. -/
theorem stuck_of_minus (noDigit : ∀ c more, rest = c :: more → isDecimalDigit c = false) :
    Stuck ('-' :: rest) := by
  intro other spelled starts
  have kind : some LexemeKind.number = some other.kind := spelled.kind_of_prefix starts
  cases spelled with
  | number magnitude =>
    obtain ⟨first, others, rfl, isDigit⟩ := magnitude.start
    obtain ⟨rfl, -⟩ := cons_prefix_cons.mp starts
    cases isDigit
  | negative magnitude =>
    obtain ⟨first, others, rfl, isDigit⟩ := magnitude.start
    obtain ⟨more, rfl⟩ := (cons_prefix_cons.mp starts).2
    rw [noDigit first _ rfl] at isDigit
    cases isDigit
  | _ => cases kind

/-! ## The lexeme that is found -/

/-- What is found at the start of a text: the longest lexeme, a string that is never closed where
no lexeme starts, or nothing where none does. -/
inductive Finding : List Char → Option Lexeme → Prop where
  | lexeme {lexeme : Lexeme} {chars : List Char} (longest : Longest lexeme chars) :
      Finding chars (some lexeme)
  | openString {body rest : List Char} (stuck : Stuck ('"' :: rest)) :
      Finding ('"' :: rest) (some ⟨.openString, '"' :: body⟩)
  | nothing {chars : List Char} (stuck : Stuck chars) (noQuote : chars.head? ≠ some '"') :
      Finding chars none

theorem ofQuote_finding (rest : List Char) : Finding ('"' :: rest) (some (ofQuote rest)) := by
  unfold ofQuote
  split
  · rename_i body closed
    exact .lexeme (string_longest closed)
  · rename_i body isOpen
    exact .openString (stuck_of_open isOpen)

/-- No lexeme starts with a character that no kind starts with. -/
theorem stuck_of_kindOfStart? (noKind : kindOfStart? c = none) : Stuck (c :: rest) := by
  intro other spelled starts
  have kind : kindOfStart? c = some other.kind := spelled.kind_of_prefix starts
  rw [noKind] at kind
  cases kind

/-- `first?` finds the longest lexeme, and where no lexeme starts it finds none but an unclosed
string. -/
theorem first?_finding (chars : List Char) : Finding chars (first? chars) := by
  fun_cases first? chars with
  | case1 => exact .nothing stuck_nil (by simp)
  | case2 c rest blank => exact .lexeme (blank_longest blank rest)
  | case3 rest => exact .lexeme (comment_longest rest)
  | case4 rest => exact ofQuote_finding rest
  | case5 c rest _ _ _ digit => exact .lexeme (number_longest digit rest)
  | case6 c rest digit => exact .lexeme (negative_longest digit rest)
  | case7 c rest noDigit =>
    refine .nothing (stuck_of_minus ?_) (by simp)
    rintro _ _ ⟨⟩
    exact Bool.eq_false_iff.mpr noDigit
  | case8 => exact .nothing (stuck_of_minus (by simp)) (by simp)
  | case9 c rest _ _ _ _ _ starts => exact .lexeme (identifier_longest starts rest)
  | case10 c rest _ _ _ _ _ _ symbol => exact .lexeme (symbol_longest symbol rest)
  | case11 c rest notBlank notComment notQuote noDigit notMinus noIdentifier noSymbol =>
    refine .nothing (stuck_of_kindOfStart? ?_) (by simpa using notQuote)
    simp [kindOfStart?, notBlank, notComment, notQuote, noDigit, notMinus, noIdentifier, noSymbol]

end SchemaLang.Lexeme
