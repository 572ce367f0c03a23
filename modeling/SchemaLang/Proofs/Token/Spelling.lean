import SchemaLang.Proofs.Token.Exactness

/-!
# Spelling tokens

A list of items is written down with gaps between them: identifiers, numbers and symbols as they
are spelled, and strings by what they mean, with the three characters escaped that cannot stand in
a string. Tokenizing the text gives the items back, whatever the gaps are made of.

The text is read from its end. `Reads` says that a text is cut to its end and what its lexemes
stand for, and each piece that is put before a text keeps this. Two things need an argument. A
blank before a text runs together with the blanks that the text starts with, so it changes the
first lexeme and adds none. An item is cut off where it ends only because what follows starts with
a blank or a comment, and no lexeme of the item's kind goes on with these.
-/

namespace SchemaLang

open List

variable {rest : List Char}

namespace Lexeme

/-! ## Items and gaps -/

/-- One item of a text: an identifier, a number or a symbol by its spelling, or a string by its
meaning. -/
inductive Item where
  | identifier (text : String) (spelled : Spelled ⟨.identifier, text.toList⟩)
  | number (text : String) (spelled : Spelled ⟨.number, text.toList⟩)
  | symbol (text : String) (spelled : Spelled ⟨.symbol, text.toList⟩)
  | string (meaning : String)

/-- A character as it is written inside a string. -/
def writeChar (c : Char) : List Char :=
  if c = '\\' then ['\\', '\\'] else if c = '"' then ['\\', '"']
  else if c = '\n' then ['\\', 'n'] else [c]

namespace Item

/-- An item as it is written. -/
def chars : Item → List Char
  | identifier text _ => text.toList
  | number text _ => text.toList
  | symbol text _ => text.toList
  | string meaning => '"' :: (meaning.toList.flatMap writeChar ++ ['"'])

/-- The kind of token that an item is, and its text. -/
def word : Item → TokenKind × String
  | identifier text _ => (.identifier, text)
  | number text _ => (.number, text)
  | symbol text _ => (.symbol, text)
  | string meaning => (.string, meaning)

end Item

/-- One piece of a gap: a blank, or a comment up to the end of its line. -/
inductive Filler where
  | blank (c : Char) (isBlank : isBlank c = true)
  | comment (body : List Char) (sameLine : '\n' ∉ body)

/-- A piece of a gap as it is written. A comment brings the end of its line with it. -/
def Filler.chars : Filler → List Char
  | blank c _ => [c]
  | comment body _ => '#' :: (body ++ ['\n'])

/-- Items in order, with a gap before the first and a gap behind each of them. Only the gaps at
the two ends may be empty. -/
structure Layout where
  lead : List Filler
  items : List (Item × List Filler)
  separated : ∀ pair ∈ items.dropLast, pair.2 ≠ []

/-- Items with their gaps as they are written. -/
def writeItems (items : List (Item × List Filler)) : List Char :=
  items.flatMap fun pair => pair.1.chars ++ pair.2.flatMap Filler.chars

/-- The text of a layout. -/
def Layout.text (layout : Layout) : String :=
  .ofList (layout.lead.flatMap Filler.chars ++ writeItems layout.items)

example : (Layout.mk [] [(.string "a\\\"\n#", [.comment ['"'] (by decide)])] (by simp)).text =
    "\"a\\\\\\\"\\n#\"#\"\n" := by decide

/-! ## Lexemes that end before a gap -/

/-- Nothing follows, or what follows starts with a blank or a comment. -/
def Ends (rest : List Char) : Prop := ∀ c ∈ rest.head?, isBlank c = true ∨ c = '#'

/-- A class without the four blanks and the mark of comments has none that starts a gap. -/
theorem Ends.outside (ends : Ends rest) {inside : Char → Bool}
    (noneStarts : [' ', '\t', '\r', '\n', '#'].any inside = false) :
    ∀ c ∈ rest.head?, inside c = false := by
  intro c isHead
  refine Bool.eq_false_iff.mpr (any_eq_false.mp noneStarts c ?_)
  have starts := ends c isHead
  simpa [isBlank, or_assoc] using starts

/-- A lexeme is the longest where it ends, if the next character is in none of its kind. -/
theorem longest_of_outside (inside : Char → Bool) {lexeme : Lexeme} (spelled : lexeme.Spelled)
    (within : ∀ other : Lexeme, other.Spelled → other.kind = lexeme.kind →
      ∀ c ∈ other.chars, inside c = true)
    (outside : ∀ c ∈ rest.head?, inside c = false) : lexeme.Longest (lexeme.chars ++ rest) := by
  obtain ⟨first, body, isFirst, -⟩ := spelled.start
  have starts : lexeme.chars <+: lexeme.chars ++ rest := prefix_append _ _
  rw [isFirst, cons_append] at starts ⊢
  rw [← isFirst] at starts
  refine longest_of_kind spelled starts fun other otherSpelled sameKind otherStarts => ?_
  rw [← cons_append, ← isFirst] at otherStarts
  by_contra longer
  -- A longer lexeme would hold the first character behind the shorter one.
  obtain ⟨more, isMore⟩ := prefix_of_prefix_length_le (prefix_append _ _) otherStarts
    (Nat.le_of_not_le longer)
  rw [← isMore, prefix_append_right_inj] at otherStarts
  cases more with
  | nil =>
    rw [append_nil] at isMore
    exact longer (Nat.le_of_eq (congrArg length isMore.symm))
  | cons c others =>
    obtain ⟨last, rfl⟩ := otherStarts
    have isInside := within other otherSpelled sameKind c (isMore ▸ by simp)
    rw [outside c rfl] at isInside
    cases isInside

/-- The characters of numerals. -/
def isNumeralChar (c : Char) : Bool :=
  Text.isDecimalDigit c || ['.', 'e', 'E', '+', '-'].contains c

theorem Digits.within {digits : List Char} (isDigits : Digits digits) :
    ∀ c ∈ digits, isNumeralChar c = true := by
  intro c member
  rw [isNumeralChar, isDigits.2 c member, Bool.true_or]

theorem Fraction.within {part : List Char} (isFraction : Fraction part) :
    ∀ c ∈ part, isNumeralChar c = true := by
  cases isFraction with
  | none => simp
  | some isDigits => exact forall_mem_cons.mpr ⟨by decide, isDigits.within⟩

theorem Exponent.within {power : List Char} (isExponent : Exponent power) :
    ∀ c ∈ power, isNumeralChar c = true := by
  have marks : ∀ {mark : Char}, mark = 'e' ∨ mark = 'E' → isNumeralChar mark = true := by
    rintro mark (rfl | rfl) <;> decide
  cases isExponent with
  | none => simp
  | unsigned isMark isDigits => exact forall_mem_cons.mpr ⟨marks isMark, isDigits.within⟩
  | signed isMark isSign isDigits =>
    refine forall_mem_cons.mpr ⟨marks isMark, forall_mem_cons.mpr ⟨?_, isDigits.within⟩⟩
    rcases isSign with rfl | rfl <;> decide

variable {chars : List Char}

theorem Magnitude.within (magnitude : Magnitude chars) : ∀ c ∈ chars, isNumeralChar c = true := by
  obtain ⟨isWhole, isFraction, isExponent⟩ := magnitude
  rw [forall_mem_append, forall_mem_append]
  exact ⟨⟨isWhole.within, isFraction.within⟩, isExponent.within⟩

theorem number_ends (spelled : Spelled ⟨.number, chars⟩) (ends : Ends rest) :
    Longest ⟨.number, chars⟩ (chars ++ rest) := by
  refine longest_of_outside isNumeralChar spelled ?_ (ends.outside (by decide))
  intro other otherSpelled isNumber
  cases otherSpelled with
  | number magnitude => exact magnitude.within
  | negative magnitude => exact forall_mem_cons.mpr ⟨by decide, magnitude.within⟩
  | _ => cases isNumber

theorem identifier_ends (spelled : Spelled ⟨.identifier, chars⟩) (ends : Ends rest) :
    Longest ⟨.identifier, chars⟩ (chars ++ rest) := by
  refine longest_of_outside (fun c => startsIdentifier c || continuesIdentifier c) spelled ?_
    (ends.outside (by decide))
  intro other otherSpelled isIdentifier
  cases otherSpelled with
  | identifier starts continues =>
    refine forall_mem_cons.mpr ⟨by rw [starts, Bool.true_or], fun c member => ?_⟩
    rw [continues c member, Bool.or_true]
  | _ => cases isIdentifier

/-- What a string is written as means the string. -/
theorem quoted_write (meaning : List Char) : Quoted (meaning.flatMap writeChar) meaning := by
  induction meaning with
  | nil => exact .done
  | cons c rest ih =>
    rw [flatMap_cons]
    unfold writeChar
    split
    · rename_i isEscape
      subst isEscape
      exact .itself (by decide) (by decide) ih
    split
    · rename_i isQuote
      subst isQuote
      exact .itself (by decide) (by decide) ih
    split
    · rename_i isNewline
      subst isNewline
      exact .newline ih
    · rename_i notEscape notQuote sameLine
      exact .plain notQuote notEscape sameLine ih

/-! ## Texts that are read to their end -/

/-- What some lexemes stand for, in order. -/
inductive Means : List Lexeme → List (TokenKind × String) → Prop where
  | done : Means [] []
  | silent {lexeme lexemes words} (isSilent : lexeme.kind = .blank ∨ lexeme.kind = .comment)
      (rest : Means lexemes words) : Means (lexeme :: lexemes) words
  | token {lexeme kind text lexemes words} (denotes : Denotes lexeme kind text)
      (rest : Means lexemes words) : Means (lexeme :: lexemes) ((kind, text) :: words)

/-- A text is cut to its end, and its lexemes stand for these kinds and texts. -/
def Reads (chars : List Char) (words : List (TokenKind × String)) : Prop :=
  ∃ lexemes, Cut chars lexemes [] ∧ Means lexemes words

theorem reads_nil : Reads [] [] := ⟨[], .stuck stuck_nil, .done⟩

variable {words : List (TokenKind × String)}

/-- The blanks at the start of a text are one lexeme, so the text without them reads the same. -/
theorem Reads.dropBlanks (reads : Reads chars words) : Reads (chars.dropWhile isBlank) words := by
  obtain ⟨lexemes, isCut, means⟩ := reads
  cases isCut with
  | stuck => exact ⟨[], .stuck stuck_nil, means⟩
  | @next lexeme tail lexemes _ longest cut =>
    obtain ⟨c, body, isFirst, -⟩ := longest.spelled.start
    by_cases blank : isBlank c = true
    · rw [isFirst, cons_append] at longest ⊢
      obtain rfl := longest.unique (blank_longest blank (body ++ tail))
      obtain ⟨-, isRun⟩ := cons.inj isFirst
      have whole := takeWhile_append_dropWhile (p := isBlank) (l := body ++ tail)
      have isTail : (body ++ tail).dropWhile isBlank = tail := by
        rw [isRun] at whole
        exact append_cancel_left whole
      rw [dropWhile_cons_of_pos blank, isTail]
      cases means with
      | silent _ means => exact ⟨lexemes, cut, means⟩
      | token denotes => cases denotes
    · have same : (lexeme.chars ++ tail).dropWhile isBlank = lexeme.chars ++ tail := by
        rw [isFirst, cons_append, dropWhile_cons_of_neg blank]
      rw [same]
      exact ⟨_, .next longest cut, means⟩

variable {rest : List Char}

/-- A blank before a text makes the blanks at its start one longer. -/
theorem Reads.blank {c : Char} (isBlank : isBlank c = true) (reads : Reads rest words) :
    Reads (c :: rest) words := by
  obtain ⟨lexemes, isCut, means⟩ := reads.dropBlanks
  have longest := blank_longest isBlank rest
  have whole : c :: rest =
      (c :: rest.takeWhile Lexeme.isBlank) ++ rest.dropWhile Lexeme.isBlank := by
    rw [cons_append, takeWhile_append_dropWhile]
  rw [whole] at longest ⊢
  exact ⟨_, .next longest isCut, .silent (.inl rfl) means⟩

/-- A comment reaches to the end of its line. -/
theorem Reads.comment {body : List Char} (sameLine : '\n' ∉ body)
    (reads : Reads ('\n' :: rest) words) : Reads ('#' :: body ++ '\n' :: rest) words := by
  obtain ⟨lexemes, isCut, means⟩ := reads
  have inside : ∀ c ∈ body, decide (c ≠ '\n') = true := by
    intro c member
    have differs : c ≠ '\n' := fun same => sameLine (same ▸ member)
    simpa using differs
  have longest := comment_longest (body ++ '\n' :: rest)
  rw [takeWhile_append_of_pos inside, takeWhile_cons_of_neg (by simp), append_nil] at longest
  exact ⟨_, .next longest isCut, .silent (.inr rfl) means⟩

/-- A gap before a text changes nothing that is read. -/
theorem Reads.gap (gap : List Filler) (reads : Reads rest words) :
    Reads (gap.flatMap Filler.chars ++ rest) words := by
  induction gap with
  | nil => exact reads
  | cons filler fillers ih =>
    rw [flatMap_cons, append_assoc]
    cases filler with
    | blank c isBlank => exact ih.blank isBlank
    | comment body sameLine =>
      have read := (ih.blank (c := '\n') (by decide)).comment sameLine
      simpa [Filler.chars] using read

/-- The lexeme of an item that is not a string stands for its spelling. -/
theorem denotes_spelling {kind : LexemeKind} {tokenKind : TokenKind} {text : String}
    (denotes : Denotes ⟨kind, text.toList⟩ tokenKind (.ofList text.toList)) :
    Denotes ⟨kind, text.toList⟩ tokenKind text := by
  rwa [String.ofList_toList] at denotes

/-- An item before the end of a text, or before a gap, is read first. -/
theorem Reads.item (item : Item) (ends : Ends rest) (reads : Reads rest words) :
    Reads (item.chars ++ rest) (item.word :: words) := by
  obtain ⟨lexemes, isCut, means⟩ := reads
  cases item with
  | identifier text spelled =>
    exact ⟨_, .next (identifier_ends spelled ends) isCut,
      .token (denotes_spelling .identifier) means⟩
  | number text spelled =>
    exact ⟨_, .next (number_ends spelled ends) isCut, .token (denotes_spelling .number) means⟩
  | symbol text spelled =>
    have longest : Longest ⟨.symbol, text.toList⟩ (text.toList ++ rest) := by
      generalize text.toList = chars at spelled
      cases spelled with
      | symbol isSymbol => exact symbol_longest isSymbol rest
    exact ⟨_, .next longest isCut, .token (denotes_spelling .symbol) means⟩
  | string meaning =>
    have quoted := quoted_write meaning.toList
    have longest : Longest ⟨.string, (Item.string meaning).chars⟩
        ((Item.string meaning).chars ++ rest) := by
      have found := string_longest (quoted.stringBody_eq rest)
      simpa [Item.chars] using found
    have denotes := Denotes.string quoted
    rw [String.ofList_toList] at denotes
    exact ⟨_, .next longest isCut, .token denotes means⟩

/-! ## Whole texts -/

/-- A gap that is not empty ends what stands before it. -/
theorem ends_gap {gap : List Filler} (nonempty : gap ≠ []) (rest : List Char) :
    Ends (gap.flatMap Filler.chars ++ rest) := by
  obtain ⟨filler, fillers, rfl⟩ := exists_cons_of_ne_nil nonempty
  cases filler with
  | blank c isBlank =>
    rintro _ ⟨⟩
    exact .inl isBlank
  | comment body _ =>
    rintro _ ⟨⟩
    exact .inr rfl

/-- Items with gaps between them are read one after the other. The gap behind the last one may be
empty, since then the text ends there. -/
theorem reads_items {items : List (Item × List Filler)}
    (separated : ∀ pair ∈ items.dropLast, pair.2 ≠ []) :
    Reads (writeItems items) (items.map fun pair => pair.1.word) := by
  induction items with
  | nil => exact reads_nil
  | cons pair others ih =>
    obtain ⟨item, gap⟩ := pair
    rw [writeItems, flatMap_cons, append_assoc]
    have later : ∀ pair ∈ others.dropLast, pair.2 ≠ [] := by
      cases others with
      | nil => simp
      | cons next rest => exact fun pair member => separated pair (mem_cons_of_mem _ member)
    refine ((ih later).gap gap).item item ?_
    by_cases nonempty : gap = []
    · cases others with
      | nil => simp [nonempty, Ends, writeItems]
      | cons next rest => exact absurd nonempty (separated (item, gap) mem_cons_self)
    · exact ends_gap nonempty _

variable {lexemes : List Lexeme}

/-- The tokens of what some lexemes stand for, behind some characters. -/
theorem Means.placed (means : Means lexemes words) (source : String) (before : List Char) :
    ∃ tokens, Placed source before lexemes tokens ∧
      tokens.map (fun token => (token.kind, token.text)) = words := by
  induction means generalizing before with
  | done => exact ⟨[], .done, rfl⟩
  | @silent lexeme lexemes words isSilent _ ih =>
    obtain ⟨tokens, placed, same⟩ := ih (before ++ lexeme.chars)
    exact ⟨tokens, .silent isSilent placed, same⟩
  | @token lexeme kind text lexemes words denotes _ ih =>
    obtain ⟨tokens, placed, same⟩ := ih (before ++ lexeme.chars)
    exact ⟨_, .token denotes placed, by rw [map_cons, same]⟩

/-- A text that is cut to its end is tokenized to the tokens of its lexemes and the end. -/
theorem Cut.tokenize_eq {source text : String} {tokens : List Token}
    (isCut : Cut text.toList lexemes []) (placed : Placed source [] lexemes tokens) :
    tokenize source text = .ok (tokens ++ [⟨.endOfText, "", .behind source text.toList⟩]) := by
  obtain ⟨others, left, cutTo⟩ := cut_cutTo text.toList.length text.toList (Nat.le_refl _)
  obtain ⟨rfl, rfl⟩ := isCut.unique cutTo.isCut
  have placing := placed.place_append [] []
  rw [append_nil, nil_append, place] at placing
  rw [tokenize, cutTo.whole (by simp), ← isCut.spelling_append, append_nil]
  exact placing

end Lexeme

open Lexeme

/-- Spelling items and tokenizing the text gives the items back: the tokens are the items in order,
identifiers, numbers and symbols as they are spelled and strings as what they mean, and then the
end of the text. -/
theorem tokenize_layout (source : String) (layout : Layout) :
    ∃ tokens, tokenize source layout.text = .ok tokens ∧
      tokens.map (fun token => (token.kind, token.text)) =
        layout.items.map (fun pair => pair.1.word) ++ [(.endOfText, "")] := by
  obtain ⟨lexemes, isCut, means⟩ := (reads_items layout.separated).gap layout.lead
  obtain ⟨tokens, placed, same⟩ := means.placed source []
  rw [← String.toList_ofList (l := _ ++ _)] at isCut
  refine ⟨_, isCut.tokenize_eq placed, ?_⟩
  rw [List.map_append, same]
  rfl

end SchemaLang
