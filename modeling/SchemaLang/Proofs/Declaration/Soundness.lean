import SchemaLang.Declaration.Grammar
import SchemaLang.Proofs.Declaration.Phrases

/-!
# What is read is a phrase

The tokens that a reader takes are a phrase of the language, and its value is what the phrase
says. Each reader is followed step by step; a loop gives as many phrases as it has rounds, and
the checks between its rounds become the conditions of the production.
-/

namespace SchemaLang.Reading

open Phrase List

variable {α β : Type}

/-! ## Single steps -/

/-- Two readers succeed exactly when the first does and the second does on what it leaves. -/
theorem bind_ok_iff {reader : Reading α} {next : α → Reading β} {tokens rest : List Token}
    {result : β} :
    (reader >>= next) tokens = .ok (result, rest) ↔ ∃ value middle,
      reader tokens = .ok (value, middle) ∧ next value middle = .ok (result, rest) := by
  constructor
  · intro done
    obtain ⟨⟨value, middle⟩, read, continued⟩ := Outcome.bind_ok_iff.mp done
    exact ⟨value, middle, read, continued⟩
  · rintro ⟨value, middle, read, continued⟩
    exact Outcome.bind_ok_iff.mpr ⟨(value, middle), read, continued⟩

variable {tokens rest : List Token} {value : α}

/-- A value alone takes no tokens. -/
theorem pure_ok_iff {result : α} :
    (pure value : Reading α) tokens = .ok (result, rest) ↔ value = result ∧ tokens = rest := by
  constructor
  · rintro ⟨⟩
    exact ⟨rfl, rfl⟩
  · rintro ⟨rfl, rfl⟩
    rfl

variable {expected : Expectation}

/-- A rejected token gives no value. -/
theorem reject_ne_ok {found : Token} :
    (reject found expected : Reading α) tokens ≠ .ok (value, rest) := by
  rintro ⟨⟩

/-- Neither does an unexpected one. -/
theorem unexpected_ne_ok : (unexpected expected : Reading α) tokens ≠ .ok (value, rest) := by
  cases tokens <;> rintro ⟨⟩

variable {token : Token}

/-- Looking at the next token takes nothing; there has to be one. -/
theorem current_ok_iff :
    current tokens = .ok (token, rest) ↔ rest = tokens ∧ ∃ others, tokens = token :: others := by
  cases tokens with
  | nil => simp [current, overrun]
  | cons first others => simp [current, eq_comm, and_comm]

/-- The next token is none of the symbols. -/
def Stops (symbols : List String) (tokens : List Token) : Prop :=
  ∃ token rest, tokens = token :: rest ∧ ∀ symbol ∈ symbols, token.isSymbol symbol = false

variable {symbol : String}

/-- Asking for a symbol takes nothing either. -/
theorem sees_ok_iff {seen : Bool} :
    sees symbol tokens = .ok (seen, rest) ↔
      rest = tokens ∧ ∃ token others, tokens = token :: others ∧ token.isSymbol symbol = seen := by
  cases tokens with
  | nil => simp [sees, overrun]
  | cons first others => simp [sees, eq_comm, and_comm]

/-- A symbol is eaten if it is next. -/
theorem eat_true_iff :
    eat symbol tokens = .ok (true, rest) ↔
      ∃ token, tokens = token :: rest ∧ token.isSymbol symbol = true := by
  cases tokens with
  | nil => simp [eat, overrun]
  | cons first others =>
    by_cases isSymbol : first.isSymbol symbol = true
    · simp [eat, isSymbol]
    · simp [eat, isSymbol]

/-- If it is not, everything is left. -/
theorem eat_false_iff :
    eat symbol tokens = .ok (false, rest) ↔ rest = tokens ∧ Stops [symbol] tokens := by
  cases tokens with
  | nil => simp [eat, overrun, Stops]
  | cons first others =>
    by_cases isSymbol : first.isSymbol symbol = true
    · simp [eat, isSymbol, Stops]
    · have isOther : first.isSymbol symbol = false := by simpa using isSymbol
      simp only [eat, isOther, Bool.false_eq_true, if_false, Except.ok.injEq, Prod.mk.injEq,
        true_and]
      constructor
      · rintro rfl
        exact ⟨rfl, first, others, rfl, by simpa using isOther⟩
      · rintro ⟨rfl, _⟩
        rfl

/-- An expected symbol has to be next. -/
theorem expect_ok_iff :
    expect symbol tokens = .ok (token, rest) ↔
      tokens = token :: rest ∧ token.isSymbol symbol = true := by
  cases tokens with
  | nil => simp [expect, overrun]
  | cons first others =>
    by_cases isSymbol : first.isSymbol symbol = true
    · simp only [expect, isSymbol, if_true, Except.ok.injEq, Prod.mk.injEq, cons.injEq]
      constructor
      · rintro ⟨rfl, rfl⟩
        exact ⟨⟨rfl, rfl⟩, isSymbol⟩
      · rintro ⟨⟨rfl, rfl⟩, _⟩
        exact ⟨rfl, rfl⟩
    · simp only [expect, isSymbol, if_false, reduceCtorEq, cons.injEq, false_iff]
      rintro ⟨⟨rfl, _⟩, same⟩
      exact isSymbol same

/-- Any name will do where a name is expected. -/
theorem identifier_ok_iff :
    identifier expected tokens = .ok (token, rest) ↔
      tokens = token :: rest ∧ token.kind = .identifier := by
  cases tokens with
  | nil => simp [identifier, overrun]
  | cons first others =>
    by_cases isName : first.kind = .identifier
    · simp only [identifier, isName, if_true, Except.ok.injEq, Prod.mk.injEq, cons.injEq]
      constructor
      · rintro ⟨rfl, rfl⟩
        exact ⟨⟨rfl, rfl⟩, isName⟩
      · rintro ⟨⟨rfl, rfl⟩, _⟩
        exact ⟨rfl, rfl⟩
    · simp only [identifier, isName, if_false, reduceCtorEq, cons.injEq, false_iff]
      rintro ⟨⟨rfl, _⟩, same⟩
      exact isName same

/-- Any token but the one for the end is passed; that one stays for readers to look at. -/
theorem advance_ok_iff {first : Token} {others : List Token} (isToken : first.kind ≠ .endOfText) :
    advance (first :: others) = .ok (token, rest) ↔ first = token ∧ others = rest := by
  simp only [advance, isToken, if_false, Except.ok.injEq, Prod.mk.injEq]

/-- The text of a number token says which number it is. -/
theorem number_ok_iff {value : Double} :
    number token tokens = .ok (value, rest) ↔
      rest = tokens ∧ Double.read? token.text = some value ∧ value.isFinite = true := by
  unfold number
  cases Double.read? token.text with
  | none => simp [reject]
  | some found =>
    by_cases isFinite : found.isFinite = true
    · simp only [isFinite, if_true, pure_ok_iff, Option.some.injEq]
      constructor
      · rintro ⟨rfl, rfl⟩
        exact ⟨rfl, rfl, isFinite⟩
      · rintro ⟨rfl, rfl, _⟩
        exact ⟨rfl, rfl⟩
    · simp only [isFinite, reject, if_false, reduceCtorEq, Option.some.injEq, false_iff]
      rintro ⟨_, rfl, same⟩
      exact isFinite same

/-- Counting tokens takes none; the count bounds the loops. -/
theorem remaining_ok_iff {count : Nat} :
    remaining tokens = .ok (count, rest) ↔ count = tokens.length ∧ rest = tokens := by
  simp only [remaining, Except.ok.injEq, Prod.mk.injEq]
  exact and_congr eq_comm eq_comm

/-- The tokens that a reader takes are a phrase for its value. -/
def Derives (reader : Reading α) (phrase : List Token → α → Prop) : Prop :=
  ∀ {tokens value rest}, reader tokens = .ok (value, rest) →
    ∃ used, tokens = used ++ rest ∧ phrase used value

/-- A symbol that may be taken may be left out. -/
theorem eat_derives : Derives (eat symbol) fun used _ => Perhaps symbol used := by
  intro tokens taken rest done
  cases taken with
  | true =>
    obtain ⟨token, rfl, isSymbol⟩ := eat_true_iff.mp done
    exact ⟨[token], rfl, .present isSymbol⟩
  | false =>
    obtain ⟨rfl, _⟩ := eat_false_iff.mp done
    exact ⟨[], rfl, .absent⟩

/-! ## Types -/

/-- A bound is a number of the kind that the range is for. -/
theorem bound_derives (kind : NumericKind) : Derives (bound kind) (Bound kind) := by
  intro tokens value? rest done
  simp only [bound, bind_ok_iff, current_ok_iff] at done
  obtain ⟨token, _, ⟨rfl, others, rfl⟩, done⟩ := done
  split at done
  · rename_i isNumber
    simp only [bind_ok_iff, number_ok_iff] at done
    obtain ⟨value, _, ⟨rfl, spelled, finite⟩, done⟩ := done
    split at done
    · exact absurd done reject_ne_ok
    · rename_i whole
      simp only [bind_ok_iff, advance_ok_iff (show token.kind ≠ .endOfText by simp [isNumber]),
        pure_ok_iff] at done
      obtain ⟨_, _, ⟨rfl, rfl⟩, rfl, rfl⟩ := done
      refine ⟨[token], rfl, .present ⟨isNumber, spelled, finite⟩ fun isInteger => ?_⟩
      simpa [isInteger] using whole
  · obtain ⟨rfl, rfl⟩ := pure_ok_iff.mp done
    exact ⟨[], rfl, .absent⟩

/-- Bounds that are not out of order are in order. -/
theorem ordered_iff {least? greatest? : Option Double} :
    disordered least? greatest? = false ↔ Ordered least? greatest? := by
  unfold Ordered
  cases least? with
  | none => simp [disordered]
  | some least =>
    cases greatest? with
    | none | some _ => simp [disordered]

/-- A range after the name of its type. -/
theorem range_derives {kind : NumericKind} (isName : token.kind = .identifier)
    (builtIn : Primitive.ofKeyword? token.text = some kind.primitive) :
    Derives (range kind) fun used type => Atom (token :: used) type := by
  intro tokens type rest done
  simp only [range, bind_ok_iff, expect_ok_iff] at done
  obtain ⟨opens, _, ⟨rfl, isOpening⟩, least?, _, readLeast, point, _, ⟨rfl, isPoint⟩,
    pointAgain, _, ⟨rfl, isPointAgain⟩, greatest?, _, readGreatest, closes, _, ⟨rfl, isClosing⟩,
    done⟩ := done
  obtain ⟨first, rfl, least⟩ := bound_derives kind readLeast
  obtain ⟨second, rfl, greatest⟩ := bound_derives kind readGreatest
  split at done
  · exact absurd done reject_ne_ok
  · rename_i ordered
    obtain ⟨rfl, rfl⟩ := pure_ok_iff.mp done
    refine ⟨opens :: (first ++ point :: pointAgain :: (second ++ [closes])), by simp, ?_⟩
    exact .range isName builtIn isOpening least isPoint isPointAgain greatest isClosing
      (ordered_iff.mp (by simpa using ordered))

/-- Names joined to what stands before them by points. -/
def joined (names : List String) : String := names.foldr (fun name text => "." ++ name ++ text) ""

/-- Joining names one by one joins them all. -/
theorem append_joined (first : String) (names : List String) :
    first ++ joined names = ".".intercalate (first :: names) := by
  induction names generalizing first with
  | nil => simp [joined]
  | cons name names ih =>
    rw [String.intercalate_cons_cons, ← ih name]
    simp [joined, String.append_assoc]

/-- The further parts of a name are names after points. -/
theorem nameParts_derives (tokens : List Token) :
    ∃ used names, tokens = used ++ (nameParts tokens).2 ∧ Further "." Name used names ∧
      (nameParts tokens).1 = joined names := by
  match tokens with
  | [] => exact ⟨[], [], rfl, .nil, rfl⟩
  | [token] => exact ⟨[], [], rfl, .nil, rfl⟩
  | point :: part :: rest =>
    by_cases isPart : (point.isSymbol "." && part.kind = .identifier) = true
    · obtain ⟨used, names, same, further, text⟩ := nameParts_derives rest
      simp only [nameParts, isPart, if_true]
      rw [Bool.and_eq_true, decide_eq_true_eq] at isPart
      refine ⟨point :: ([part] ++ used), part.text :: names, ?_, ?_, ?_⟩
      · simp only [cons_append, nil_append, ← same]
      · exact .cons isPart.1 (.identifier isPart.2) further
      · exact congrArg ("." ++ part.text ++ ·) text
    · simp only [nameParts, if_neg isPart]
      exact ⟨[], [], rfl, .nil, rfl⟩

/-- What an atom is depends on its first token, and after a type for numbers on the next one. -/
theorem atom_derives : Derives atom Atom := by
  intro tokens type rest done
  simp only [atom, bind_ok_iff, identifier_ok_iff] at done
  obtain ⟨token, middle, ⟨rfl, isName⟩, done⟩ := done
  cases named : Primitive.ofKeyword? token.text with
  | some primitive =>
    simp only [named, bind_ok_iff, sees_ok_iff] at done
    obtain ⟨opens, _, ⟨rfl, _⟩, done⟩ := done
    split at done
    · cases isNumeric : primitive.numericKind? with
      | some kind =>
        rw [isNumeric] at done
        have sameType : primitive = kind.primitive := by
          cases primitive <;> cases isNumeric <;> rfl
        rw [sameType] at named
        obtain ⟨used, rfl, phrase⟩ := range_derives isName named done
        exact ⟨token :: used, rfl, phrase⟩
      | none =>
        rw [isNumeric] at done
        exact absurd done unexpected_ne_ok
    · obtain ⟨rfl, rfl⟩ := pure_ok_iff.mp done
      exact ⟨[token], rfl, .primitive isName named⟩
  | none =>
    rw [named] at done
    obtain ⟨used, names, same, further, text⟩ := nameParts_derives middle
    obtain ⟨rfl, rfl⟩ : FieldType.reference (token.text ++ (nameParts middle).1) = type ∧
        (nameParts middle).2 = rest := pure_ok_iff.mp done
    refine ⟨token :: used, by rw [cons_append, ← same], ?_⟩
    rw [text, append_joined]
    exact .reference isName named further

variable {rounds : Nat}

/-- By induction on the rounds: a pair of brackets makes an array of what it follows. -/
theorem brackets_derives {type : FieldType String} :
    Derives (brackets rounds type) fun used result => Brackets used type result := by
  induction rounds generalizing type with
  | zero => rintro tokens result rest ⟨⟩
  | succ rounds ih =>
    intro tokens result rest done
    simp only [brackets, bind_ok_iff] at done
    obtain ⟨opened, _, eaten, done⟩ := done
    cases opened with
    | true =>
      simp only [if_true, bind_ok_iff, expect_ok_iff] at done
      obtain ⟨closes, _, ⟨rfl, isClosing⟩, done⟩ := done
      obtain ⟨opens, rfl, isOpening⟩ := eat_true_iff.mp eaten
      obtain ⟨used, rfl, others⟩ := ih done
      exact ⟨opens :: closes :: used, rfl, .cons isOpening isClosing others⟩
    | false =>
      obtain ⟨rfl, _⟩ := eat_false_iff.mp eaten
      obtain ⟨rfl, rfl⟩ := pure_ok_iff.mp done
      exact ⟨[], rfl, .nil⟩

/-- An arm is an atom with its brackets. -/
theorem arm_derives : Derives arm Arm := by
  intro tokens type rest done
  simp only [arm, bind_ok_iff, remaining_ok_iff] at done
  obtain ⟨first, _, read, _, _, ⟨rfl, rfl⟩, done⟩ := done
  obtain ⟨used, rfl, atom⟩ := atom_derives read
  obtain ⟨pairs, rfl, brackets⟩ := brackets_derives done
  exact ⟨used ++ pairs, by simp, .postfixed atom brackets⟩

/-- By induction on the rounds: each takes one bar and one arm. -/
theorem furtherArms_derives : Derives (furtherArms rounds) (Further "|" Arm) := by
  induction rounds with
  | zero => rintro tokens result rest ⟨⟩
  | succ rounds ih =>
    intro tokens result rest done
    simp only [furtherArms, bind_ok_iff] at done
    obtain ⟨separated, _, eaten, done⟩ := done
    cases separated with
    | true =>
      simp only [if_true, bind_ok_iff, pure_ok_iff] at done
      obtain ⟨type, _, read, types, _, readOthers, rfl, rfl⟩ := done
      obtain ⟨bar, rfl, isBar⟩ := eat_true_iff.mp eaten
      obtain ⟨used, rfl, arm⟩ := arm_derives read
      obtain ⟨usedOthers, rfl, further⟩ := ih readOthers
      exact ⟨bar :: (used ++ usedOthers), by simp, .cons isBar arm further⟩
    | false =>
      obtain ⟨rfl, _⟩ := eat_false_iff.mp eaten
      obtain ⟨rfl, rfl⟩ := pure_ok_iff.mp done
      exact ⟨[], rfl, .nil⟩

/-- One arm alone is the type, and several are a union. -/
theorem fieldType_derives : Derives fieldType TypeExpression := by
  intro tokens type rest done
  simp only [fieldType, bind_ok_iff, remaining_ok_iff] at done
  obtain ⟨first, _, read, _, _, ⟨rfl, rfl⟩, others, _, readOthers, done⟩ := done
  obtain ⟨used, rfl, arm⟩ := arm_derives read
  obtain ⟨usedOthers, rfl, further⟩ := furtherArms_derives readOthers
  cases others with
  | nil =>
    cases further
    obtain ⟨rfl, rfl⟩ := pure_ok_iff.mp done
    exact ⟨used, rfl, .single arm⟩
  | cons second others =>
    obtain ⟨rfl, rfl⟩ := pure_ok_iff.mp done
    exact ⟨used ++ usedOthers, by simp, .union arm further⟩

/-! ## Records and enums -/

/-- The mark after a type is there if the field is optional and was not marked before. -/
theorem optionalMark_ok {already marked : Bool}
    (done : optionalMark already tokens = .ok (marked, rest)) :
    (marked = already ∧ rest = tokens) ∨
      (already = false ∧ marked = true ∧
        ∃ mark, tokens = mark :: rest ∧ mark.isSymbol "?" = true) := by
  simp only [optionalMark, bind_ok_iff, current_ok_iff] at done
  obtain ⟨_, _, ⟨rfl, _⟩, taken, _, eaten, done⟩ := done
  cases taken with
  | true =>
    rw [if_pos rfl] at done
    split at done
    · exact absurd done reject_ne_ok
    · rename_i unmarked
      obtain ⟨rfl, rfl⟩ := pure_ok_iff.mp done
      exact .inr ⟨by simpa using unmarked, rfl, eat_true_iff.mp eaten⟩
  | false =>
    obtain ⟨rfl, rfl⟩ := pure_ok_iff.mp done
    exact .inl ⟨rfl, (eat_false_iff.mp eaten).1⟩

/-- The mark for optional fields stands after the name or after the type. -/
theorem field_derives : Derives field FieldPhrase := by
  intro tokens value rest done
  simp only [field, bind_ok_iff, identifier_ok_iff, expect_ok_iff, sees_ok_iff] at done
  obtain ⟨name, _, ⟨rfl, isName⟩, markedName, _, eaten, colon, _, ⟨rfl, isColon⟩, type, _, read,
    optional, _, marked, bar, _, ⟨rfl, _⟩, opens, _, ⟨rfl, _⟩, done⟩ := done
  split at done
  · exact absurd done unexpected_ne_ok
  · simp only [bind_ok_iff, pure_ok_iff] at done
    obtain ⟨_, _, eatenComma, rfl, rfl⟩ := done
    obtain ⟨used, rfl, typed⟩ := fieldType_derives read
    obtain ⟨comma, rfl, separated⟩ := eat_derives eatenComma
    rcases optionalMark_ok marked with ⟨rfl, same⟩ | ⟨rfl, rfl, mark, rfl, isMark⟩
    · subst same
      cases optional with
      | true =>
        obtain ⟨mark, rfl, isMark⟩ := eat_true_iff.mp eaten
        exact ⟨name :: mark :: colon :: (used ++ comma), by simp,
          .markedName isName isMark isColon typed separated⟩
      | false =>
        obtain ⟨rfl, _⟩ := eat_false_iff.mp eaten
        exact ⟨name :: colon :: (used ++ comma), by simp, .mandatory isName isColon typed separated⟩
    · obtain ⟨rfl, _⟩ := eat_false_iff.mp eaten
      exact ⟨name :: colon :: (used ++ mark :: comma), by simp,
        .markedType isName isColon typed isMark separated⟩

/-- Fields are added to those before, with names that are not used yet. -/
theorem fields_derives {earlier : List Field} :
    Derives (fields rounds earlier) fun used all => ∃ tokens closes added,
      used = tokens ++ [closes] ∧ closes.isSymbol "\x7d" = true ∧
      Many FieldPhrase tokens added ∧ all = earlier ++ added ∧
      ((earlier.map Field.name).Nodup → (all.map Field.name).Nodup) := by
  induction rounds generalizing earlier with
  | zero => rintro tokens result rest ⟨⟩
  | succ rounds ih =>
    intro tokens all rest done
    simp only [fields, bind_ok_iff] at done
    obtain ⟨closed, _, eaten, done⟩ := done
    cases closed with
    | true =>
      obtain ⟨rfl, rfl⟩ := pure_ok_iff.mp done
      obtain ⟨closes, rfl, isClosing⟩ := eat_true_iff.mp eaten
      exact ⟨[closes], rfl, [], closes, [], rfl, isClosing, .nil, by simp, id⟩
    | false =>
      simp only [Bool.false_eq_true, if_false, bind_ok_iff] at done
      obtain ⟨next, _, read, done⟩ := done
      split at done
      · exact absurd done reject_ne_ok
      · rename_i isNew
        -- The name is new, so the names so far stay different with it.
        obtain ⟨rfl, _⟩ := eat_false_iff.mp eaten
        obtain ⟨used, rfl, phrase⟩ := field_derives read
        obtain ⟨_, rfl, others, closes, added, rfl, isClosing, listed, rfl, distinct⟩ := ih done
        refine ⟨used ++ others ++ [closes], by simp, used ++ others, closes, next :: added, rfl,
          isClosing, .cons phrase listed, by simp, fun distinctEarlier => distinct ?_⟩
        rw [map_append, map_singleton, (perm_append_singleton _ _).nodup_iff]
        simp only [any_eq_true, decide_eq_true_eq, not_exists, not_and] at isNew
        refine nodup_cons.mpr ⟨fun used => ?_, distinctEarlier⟩
        obtain ⟨other, isEarlier, same⟩ := mem_map.mp used
        exact isNew other isEarlier same

/-- A record is its name and its fields in braces. -/
theorem record_derives : Derives record Record := by
  intro tokens content rest done
  simp only [record, bind_ok_iff, identifier_ok_iff, expect_ok_iff, remaining_ok_iff,
    pure_ok_iff] at done
  obtain ⟨name, _, ⟨rfl, isName⟩, opens, _, ⟨rfl, isOpening⟩, _, _, ⟨rfl, rfl⟩, fields, _, read,
    rfl, rfl⟩ := done
  obtain ⟨_, rfl, used, closes, _, rfl, isClosing, listed, rfl, distinct⟩ := fields_derives read
  exact ⟨name :: opens :: (used ++ [closes]), rfl,
    .braced isName isOpening listed (distinct nodup_nil) isClosing⟩

/-- Members are added to those before, with names that are not used yet. -/
theorem members_derives {earlier : List String} :
    Derives (members rounds earlier) fun used all => ∃ added,
      Many Member used added ∧ all = earlier ++ added ∧ (earlier.Nodup → all.Nodup) := by
  induction rounds generalizing earlier with
  | zero => rintro tokens result rest ⟨⟩
  | succ rounds ih =>
    intro tokens all rest done
    simp only [members, bind_ok_iff, sees_ok_iff] at done
    obtain ⟨closed, _, ⟨rfl, _⟩, done⟩ := done
    cases closed with
    | true =>
      obtain ⟨rfl, rfl⟩ := pure_ok_iff.mp done
      exact ⟨[], rfl, [], .nil, by simp, id⟩
    | false =>
      simp only [Bool.false_eq_true, if_false, bind_ok_iff, identifier_ok_iff] at done
      obtain ⟨member, _, ⟨rfl, isName⟩, done⟩ := done
      split at done
      · exact absurd done reject_ne_ok
      · rename_i isNew
        simp only [bind_ok_iff] at done
        obtain ⟨_, _, eaten, done⟩ := done
        obtain ⟨comma, rfl, separated⟩ := eat_derives eaten
        obtain ⟨used, rfl, added, listed, rfl, distinct⟩ := ih done
        refine ⟨(member :: comma) ++ used, by simp, member.text :: added,
          .cons (.separated isName separated) listed, by simp, fun distinctEarlier => distinct ?_⟩
        rw [(perm_append_singleton _ _).nodup_iff]
        exact nodup_cons.mpr ⟨by simpa using isNew, distinctEarlier⟩

/-- An enumeration has at least one member. -/
theorem enumeration_derives : Derives enumeration Enumeration := by
  intro tokens content rest done
  simp only [enumeration, bind_ok_iff, identifier_ok_iff, expect_ok_iff, remaining_ok_iff] at done
  obtain ⟨name, _, ⟨rfl, isName⟩, opens, _, ⟨rfl, isOpening⟩, _, _, ⟨rfl, rfl⟩, members, _, read,
    done⟩ := done
  split at done
  · exact absurd done unexpected_ne_ok
  · rename_i nonempty
    simp only [bind_ok_iff, expect_ok_iff, pure_ok_iff] at done
    obtain ⟨closes, _, ⟨rfl, isClosing⟩, rfl, rfl⟩ := done
    obtain ⟨used, rfl, added, listed, rfl, distinct⟩ := members_derives read
    refine ⟨name :: opens :: (used ++ [closes]), by simp, ?_⟩
    exact .braced isName isOpening listed (by simpa using nonempty) (distinct nodup_nil)
      isClosing

/-! ## Validation blocks -/

/-- The kind of its token says what an argument is. -/
theorem argument_derives : Derives argument ArgumentPhrase := by
  intro tokens value rest done
  simp only [argument, bind_ok_iff, current_ok_iff] at done
  obtain ⟨token, _, ⟨rfl, others, rfl⟩, done⟩ := done
  cases isKind : token.kind with
  | string =>
    simp only [isKind, bind_ok_iff, advance_ok_iff (show token.kind ≠ .endOfText by simp [isKind]),
      pure_ok_iff] at done
    obtain ⟨_, _, ⟨rfl, rfl⟩, rfl, rfl⟩ := done
    exact ⟨[token], rfl, .text isKind⟩
  | number =>
    simp only [isKind, bind_ok_iff, number_ok_iff] at done
    obtain ⟨number, _, ⟨rfl, spelled, finite⟩, done⟩ := done
    simp only [advance_ok_iff (show token.kind ≠ .endOfText by simp [isKind]), pure_ok_iff] at done
    obtain ⟨_, _, ⟨rfl, rfl⟩, rfl, rfl⟩ := done
    exact ⟨[token], rfl, .number ⟨isKind, spelled, finite⟩⟩
  | identifier =>
    simp only [isKind, bind_ok_iff, advance_ok_iff (show token.kind ≠ .endOfText by simp [isKind]),
      pure_ok_iff] at done
    obtain ⟨_, _, ⟨rfl, rfl⟩, rfl, rfl⟩ := done
    exact ⟨[token], rfl, .word isKind⟩
  | _ =>
    rw [isKind] at done
    exact absurd done unexpected_ne_ok

/-- After an argument, each further one stands behind a comma. -/
theorem arguments_derives_further {earlier : List Argument} (nonempty : earlier.isEmpty = false) :
    Derives (arguments rounds earlier) fun used all => ∃ tokens closes added,
      used = tokens ++ [closes] ∧ closes.isSymbol ")" = true ∧
      Further "," ArgumentPhrase tokens added ∧ all = earlier ++ added := by
  induction rounds generalizing earlier with
  | zero => rintro tokens result rest ⟨⟩
  | succ rounds ih =>
    intro tokens all rest done
    simp only [arguments, nonempty, bind_ok_iff] at done
    obtain ⟨closed, _, eaten, done⟩ := done
    cases closed with
    | true =>
      obtain ⟨rfl, rfl⟩ := pure_ok_iff.mp done
      obtain ⟨closes, rfl, isClosing⟩ := eat_true_iff.mp eaten
      exact ⟨[closes], rfl, [], closes, [], rfl, isClosing, .nil, by simp⟩
    | false =>
      simp only [Bool.false_eq_true, Bool.not_false, if_false, if_true, bind_ok_iff,
        expect_ok_iff] at done
      obtain ⟨comma, _, ⟨rfl, isComma⟩, next, _, read, done⟩ := done
      obtain ⟨rfl, _⟩ := eat_false_iff.mp eaten
      obtain ⟨used, rfl, phrase⟩ := argument_derives read
      obtain ⟨_, rfl, others, closes, added, rfl, isClosing, further, rfl⟩ := ih (by simp) done
      exact ⟨comma :: (used ++ others) ++ [closes], by simp, comma :: (used ++ others), closes,
        next :: added, rfl, isClosing, .cons isComma phrase further, by simp⟩

/-- The first argument stands behind no comma. -/
theorem arguments_derives :
    Derives (arguments rounds []) fun used all => ∃ tokens closes,
      used = tokens ++ [closes] ∧ closes.isSymbol ")" = true ∧ Arguments tokens all := by
  cases rounds with
  | zero => rintro tokens result rest ⟨⟩
  | succ rounds =>
    intro tokens all rest done
    simp only [arguments, bind_ok_iff] at done
    obtain ⟨closed, _, eaten, done⟩ := done
    cases closed with
    | true =>
      obtain ⟨rfl, rfl⟩ := pure_ok_iff.mp done
      obtain ⟨closes, rfl, isClosing⟩ := eat_true_iff.mp eaten
      exact ⟨[closes], rfl, [], closes, rfl, isClosing, .none⟩
    | false =>
      simp only [Bool.false_eq_true, isEmpty_nil, Bool.not_true, if_false, bind_ok_iff] at done
      obtain ⟨next, _, read, done⟩ := done
      obtain ⟨rfl, _⟩ := eat_false_iff.mp eaten
      obtain ⟨used, rfl, phrase⟩ := argument_derives read
      obtain ⟨_, rfl, others, closes, added, rfl, isClosing, further, rfl⟩ :=
        arguments_derives_further (by simp) done
      exact ⟨used ++ others ++ [closes], by simp, used ++ others, closes, rfl, isClosing,
        .some phrase further⟩

/-- A call without brackets has no arguments. -/
theorem call_derives : Derives call CallPhrase := by
  intro tokens value rest done
  simp only [call, bind_ok_iff, identifier_ok_iff] at done
  obtain ⟨name, _, ⟨rfl, isName⟩, applied, _, eaten, done⟩ := done
  cases applied with
  | true =>
    simp only [if_true, bind_ok_iff, remaining_ok_iff, pure_ok_iff] at done
    obtain ⟨_, _, ⟨rfl, rfl⟩, arguments, _, read, rfl, rfl⟩ := done
    obtain ⟨opens, rfl, isOpening⟩ := eat_true_iff.mp eaten
    obtain ⟨_, rfl, used, closes, rfl, isClosing, given⟩ := arguments_derives read
    exact ⟨name :: opens :: (used ++ [closes]), rfl, .applied isName isOpening given isClosing⟩
  | false =>
    obtain ⟨rfl, rfl⟩ := pure_ok_iff.mp done
    obtain ⟨rfl, _⟩ := eat_false_iff.mp eaten
    exact ⟨[name], rfl, .bare isName⟩

/-- The constraints after the first, and perhaps a comma behind the last one. -/
theorem furtherCalls_derives :
    Derives (furtherCalls rounds) fun used calls => ∃ tokens comma,
      used = tokens ++ comma ∧ Further "," CallPhrase tokens calls ∧ Perhaps "," comma := by
  induction rounds with
  | zero => rintro tokens result rest ⟨⟩
  | succ rounds ih =>
    intro tokens calls rest done
    simp only [furtherCalls, bind_ok_iff] at done
    obtain ⟨separated, middle, eaten, done⟩ := done
    cases separated with
    | true =>
      simp only [if_true, bind_ok_iff] at done
      obtain ⟨comma, rfl, isComma⟩ := eat_true_iff.mp eaten
      obtain ⟨_, _, ⟨⟩, closed, _, seen, done⟩ := done
      obtain ⟨rfl, _⟩ := sees_ok_iff.mp seen
      split at done
      -- A comma before the next rule or before the end of the block belongs to no constraint.
      · obtain ⟨rfl, rfl⟩ := pure_ok_iff.mp done
        exact ⟨[comma], rfl, [], [comma], rfl, .nil, .present isComma⟩
      · simp only [bind_ok_iff, pure_ok_iff] at done
        obtain ⟨next, _, read, others, _, readOthers, rfl, rfl⟩ := done
        obtain ⟨used, rfl, phrase⟩ := call_derives read
        obtain ⟨_, rfl, usedOthers, last, rfl, further, perhaps⟩ := ih readOthers
        exact ⟨comma :: (used ++ usedOthers) ++ last, by simp, comma :: (used ++ usedOthers), last,
          rfl, .cons isComma phrase further, perhaps⟩
    | false =>
      obtain ⟨rfl, rfl⟩ := pure_ok_iff.mp done
      obtain ⟨rfl, _⟩ := eat_false_iff.mp eaten
      exact ⟨[], rfl, [], [], rfl, .nil, .absent⟩

/-- By induction on the rounds: each takes the rule for one key. -/
theorem rules_derives :
    Derives (rules rounds) fun used rules => ∃ tokens closes,
      used = tokens ++ [closes] ∧ closes.isSymbol "\x7d" = true ∧ Many RulePhrase tokens rules := by
  induction rounds with
  | zero => rintro tokens result rest ⟨⟩
  | succ rounds ih =>
    intro tokens rules rest done
    simp only [Reading.rules, bind_ok_iff] at done
    obtain ⟨closed, _, eaten, done⟩ := done
    cases closed with
    | true =>
      obtain ⟨rfl, rfl⟩ := pure_ok_iff.mp done
      obtain ⟨closes, rfl, isClosing⟩ := eat_true_iff.mp eaten
      exact ⟨[closes], rfl, [], closes, rfl, isClosing, .nil⟩
    | false =>
      simp only [Bool.false_eq_true, if_false, bind_ok_iff, identifier_ok_iff, expect_ok_iff,
        remaining_ok_iff, pure_ok_iff] at done
      obtain ⟨key, _, ⟨rfl, isKey⟩, colon, _, ⟨rfl, isColon⟩, first, _, read, _, _, ⟨rfl, rfl⟩,
        calls, _, readCalls, others, _, readOthers, rfl, rfl⟩ := done
      obtain ⟨rfl, _⟩ := eat_false_iff.mp eaten
      obtain ⟨used, rfl, phrase⟩ := call_derives read
      obtain ⟨_, rfl, usedCalls, comma, rfl, further, separated⟩ := furtherCalls_derives readCalls
      obtain ⟨_, rfl, usedOthers, closes, rfl, isClosing, listed⟩ := ih readOthers
      have rule : RulePhrase (key :: colon :: (used ++ (usedCalls ++ comma)))
          ⟨key.text, first :: calls, key.location⟩ :=
        .keyed isKey isColon phrase further separated
      exact ⟨key :: colon :: (used ++ (usedCalls ++ comma)) ++ usedOthers ++ [closes], by simp, _,
        closes, rfl, isClosing, .cons rule listed⟩

variable {keyword : Token}

/-- A block after its target. -/
theorem block_derives {target : List Token} {target? : Option String}
    (isTarget : Phrase.Target target target?) :
    Derives (do
      let _ ← expect "\x7b"
      let rules ← rules (← remaining)
      return ⟨target?, rules, keyword.location⟩ : Reading ValidationBlock)
      fun used content => Validation keyword (target ++ used) content := by
  intro tokens content rest done
  simp only [bind_ok_iff, expect_ok_iff, remaining_ok_iff, pure_ok_iff] at done
  obtain ⟨opens, _, ⟨rfl, isOpening⟩, _, _, ⟨rfl, rfl⟩, rules, _, read, rfl, rfl⟩ := done
  obtain ⟨_, rfl, used, closes, rfl, isClosing, listed⟩ := rules_derives read
  exact ⟨opens :: (used ++ [closes]), rfl, .braced isTarget isOpening listed isClosing⟩

/-- A block may name its record after the keyword. -/
theorem validation_derives : Derives (validation keyword) (Validation keyword) := by
  intro tokens content rest done
  simp only [validation, bind_ok_iff, current_ok_iff] at done
  obtain ⟨token, _, ⟨rfl, others, rfl⟩, done⟩ := done
  split at done
  · rename_i isName
    obtain ⟨_, _, advanced, done⟩ := bind_ok_iff.mp done
    obtain ⟨rfl, rfl⟩ :=
      (advance_ok_iff (show token.kind ≠ .endOfText by simp [isName])).mp advanced
    obtain ⟨used, rfl, phrase⟩ := block_derives (.named isName) done
    exact ⟨[token] ++ used, rfl, phrase⟩
  · obtain ⟨used, same, phrase⟩ := block_derives .preceding done
    exact ⟨used, same, phrase⟩

/-! ## Modules -/

/-- A word is not the end of the text. -/
theorem not_end_of_isKeyword {word : String}
    (isWord : token.isKeyword word = true) : token.kind ≠ .endOfText := by
  simp only [Token.isKeyword, Bool.and_eq_true, decide_eq_true_eq] at isWord
  simp [isWord.1]

/-- The file comes first, and perhaps a name for it. -/
theorem importing_derives : Derives (importing keyword) (Importing keyword) := by
  intro tokens content rest done
  simp only [importing, bind_ok_iff, current_ok_iff] at done
  obtain ⟨path, _, ⟨rfl, others, rfl⟩, done⟩ := done
  split at done
  · exact absurd done unexpected_ne_ok
  · rename_i isText
    rw [not_not] at isText
    simp only [bind_ok_iff, advance_ok_iff (show path.kind ≠ .endOfText by simp [isText])] at done
    obtain ⟨_, _, ⟨rfl, rfl⟩, done⟩ := done
    split at done
    · exact absurd done reject_ne_ok
    · rename_i nonempty
      simp only [bind_ok_iff, current_ok_iff] at done
      obtain ⟨word, _, ⟨rfl, others, rfl⟩, done⟩ := done
      split at done
      · rename_i isWord
        simp only [bind_ok_iff, advance_ok_iff (not_end_of_isKeyword isWord), identifier_ok_iff,
          pure_ok_iff] at done
        obtain ⟨_, _, ⟨rfl, rfl⟩, name, _, ⟨rfl, isName⟩, rfl, rfl⟩ := done
        exact ⟨[path, word, name], rfl, .path isText nonempty (.present isWord isName)⟩
      · obtain ⟨rfl, rfl⟩ := pure_ok_iff.mp done
        exact ⟨[path], rfl, .path isText nonempty .absent⟩

/-- What is read after a keyword, as a declaration. -/
theorem derives_after {content : Type} {reader : Reading content} {made : content → Declaration}
    {phrase : List Token → content → Prop} {others : List Token} {value : Declaration}
    (isToken : keyword.kind ≠ .endOfText) (derives : Derives reader phrase)
    (done : (do let _ ← advance; return made (← reader) : Reading Declaration) (keyword :: others) =
      .ok (value, rest)) :
    ∃ used result, keyword :: others = (keyword :: used) ++ rest ∧ phrase used result ∧
      value = made result := by
  simp only [bind_ok_iff, advance_ok_iff isToken, pure_ok_iff] at done
  obtain ⟨_, _, ⟨rfl, rfl⟩, result, _, read, rfl, rfl⟩ := done
  obtain ⟨used, rfl, holds⟩ := derives read
  exact ⟨used, result, rfl, holds, rfl⟩

/-- The keyword says which declaration follows. -/
theorem declaration_derives : Derives declaration DeclarationPhrase := by
  intro tokens value rest done
  simp only [declaration, bind_ok_iff, current_ok_iff] at done
  obtain ⟨keyword, _, ⟨rfl, others, rfl⟩, done⟩ := done
  split at done
  · rename_i isKeyword
    obtain ⟨used, content, same, phrase, rfl⟩ :=
      derives_after (not_end_of_isKeyword isKeyword) importing_derives done
    exact ⟨keyword :: used, same, .moduleImport isKeyword phrase⟩
  split at done
  · rename_i isKeyword
    obtain ⟨used, content, same, phrase, rfl⟩ :=
      derives_after (not_end_of_isKeyword isKeyword) enumeration_derives done
    exact ⟨keyword :: used, same, .enumeration isKeyword phrase⟩
  split at done
  · rename_i isKeyword
    obtain ⟨used, content, same, phrase, rfl⟩ :=
      derives_after (not_end_of_isKeyword isKeyword) record_derives done
    exact ⟨keyword :: used, same, .record isKeyword phrase⟩
  split at done
  · rename_i isKeyword
    rw [Bool.or_eq_true] at isKeyword
    have isToken : keyword.kind ≠ .endOfText :=
      isKeyword.elim not_end_of_isKeyword not_end_of_isKeyword
    obtain ⟨used, content, same, phrase, rfl⟩ := derives_after isToken record_derives done
    exact ⟨keyword :: used, same, .entry isKeyword phrase⟩
  split at done
  · rename_i isKeyword
    obtain ⟨used, content, same, phrase, rfl⟩ :=
      derives_after (not_end_of_isKeyword isKeyword) validation_derives done
    exact ⟨keyword :: used, same, .validation isKeyword phrase⟩
  · exact absurd done unexpected_ne_ok

/-- The tokens before one for the end of the text are a module. -/
theorem declarations_derives {values : List Declaration}
    (done : declarations rounds tokens = .ok (values, rest)) :
    ∃ used, tokens = used ++ rest ∧ Module used values ∧
      ∃ last after, rest = last :: after ∧ last.kind = .endOfText := by
  induction rounds generalizing tokens values with
  | zero => cases done
  | succ rounds ih =>
    simp only [declarations, bind_ok_iff, current_ok_iff] at done
    obtain ⟨token, _, ⟨rfl, others, rfl⟩, done⟩ := done
    split at done
    · rename_i isEnd
      obtain ⟨rfl, rfl⟩ := pure_ok_iff.mp done
      exact ⟨[], rfl, .nil, token, others, rfl, isEnd⟩
    · simp only [bind_ok_iff, pure_ok_iff] at done
      obtain ⟨first, _, read, values, _, readOthers, rfl, rfl⟩ := done
      obtain ⟨used, same, phrase⟩ := declaration_derives read
      obtain ⟨usedOthers, rfl, listed, ends⟩ := ih readOthers
      exact ⟨used ++ usedOthers, by simp [same], .cons phrase listed, ends⟩

end SchemaLang.Reading
