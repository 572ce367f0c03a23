import Mathlib.Tactic.IntervalCases
import SchemaLang.Json.Printer
import SchemaLang.Json.Reader

/-!
# The lexemes of a written value

The text of a value is cut into the lexemes of that value, whatever the layout is: blanks fall
away, strings come back with their escapes resolved, and a numeral ends where the value does.
Only numbers may come back changed, since reading a numeral rounds. What is read of a value is
therefore the value with every number replaced by what its own numeral is read as.
-/

namespace SchemaLang.Json

open List Double Text.Quoted

/-! ## Single characters -/

/-- Where a character leads that completes nothing. -/
def silently? (mode : Mode) (c : Char) : Option Mode :=
  match lexStep mode c with
  | .ok ([], next) => some next
  | _ => none

variable {text : List Char}

/-- Characters that complete nothing only change where the pass stands. -/
theorem lexFrom_silently {mode next : Mode} (run : text.foldlM silently? mode = some next)
    (rest : List Char) : lexFrom mode (text ++ rest) = lexFrom next rest := by
  induction text generalizing mode with
  | nil =>
    cases run
    rfl
  | cons c text ih =>
    rw [foldlM_cons, Option.bind_eq_bind, Option.bind_eq_some_iff] at run
    obtain ⟨middle, step, others⟩ := run
    have stepped : lexStep mode c = .ok ([], middle) := by
      unfold silently? at step
      split at step
      · rename_i found
        rw [found, Option.some.inj step]
      · cases step
    rw [cons_append, lexFrom, stepped, ← ih others]
    show (do let others ← lexFrom middle (text ++ rest); return [] ++ others) = _
    cases lexFrom middle (text ++ rest) <;> rfl

variable {c : Char}

/-- A character that is a lexeme of its own. -/
theorem lexFrom_mark {lexeme : Lexeme} (step : startLexeme c = .ok ([lexeme], .start))
    (rest : List Char) :
    lexFrom .start (c :: rest) = do return lexeme :: (← lexFrom .start rest) := by
  rw [lexFrom, lexStep, step]
  rfl

/-! ## What stands behind a scalar -/

/-- A text does not go on with the characters of a numeral or a word. -/
def Ends (text : List Char) : Prop :=
  ∀ c ∈ text.head?, isNumeralChar c = false ∧ c.isLower = false

theorem Ends.append {first second : List Char} (firstEnds : Ends first) (secondEnds : Ends second) :
    Ends (first ++ second) := by
  cases first with
  | nil => exact secondEnds
  | cons c rest => exact firstEnds

variable {rest : List Char}

/-- A scalar without a closing mark is complete when the text ends or something else starts. -/
theorem lexFrom_unclosed {mode : Mode} {value : Except Fault Json} (ends : Ends rest)
    (atEnd : lexEnd mode = do return [.scalar (← value)])
    (atOther : ∀ c, isNumeralChar c = false → c.isLower = false → lexStep mode c = do
      let value ← value
      let (lexemes, next) ← startLexeme c
      return (.scalar value :: lexemes, next)) :
    lexFrom mode rest = do return .scalar (← value) :: (← lexFrom .start rest) := by
  cases rest with
  | nil =>
    rw [lexFrom, atEnd]
    cases value <;> rfl
  | cons c rest =>
    obtain ⟨notNumeral, notWord⟩ := ends c rfl
    rw [lexFrom, atOther c notNumeral notWord, lexFrom, lexStep]
    cases value with
    | error fault => rfl
    | ok value =>
      cases startLexeme c with
      | error fault => rfl
      | ok started =>
        obtain ⟨lexemes, next⟩ := started
        show (do return .scalar value :: lexemes ++ (← lexFrom next rest)) =
          (do return lexemes ++ (← lexFrom next rest)) >>= fun others =>
            pure (.scalar value :: others)
        cases lexFrom next rest <;> rfl

theorem lexFrom_word {letters : List Char} (ends : Ends rest) :
    lexFrom (.word letters) rest = do
      return .scalar (← wordValue letters.reverse) :: (← lexFrom .start rest) := by
  refine lexFrom_unclosed ends rfl fun c _ notWord => ?_
  rw [lexStep, if_neg (by simp [notWord])]

theorem lexFrom_number {characters : List Char} (ends : Ends rest) :
    lexFrom (.number characters) rest = do
      return .scalar (← numeralValue characters.reverse) :: (← lexFrom .start rest) := by
  refine lexFrom_unclosed ends rfl fun c notNumeral _ => ?_
  rw [lexStep, if_neg (by simp [notNumeral])]

/-! ## Strings -/

/-- An escaped character is read as the character. -/
theorem escape_silently (c : Char) (characters : List Char) :
    (escape c).foldlM silently? (.text characters) = some (.text (c :: characters)) := by
  by_cases isControl : c.toNat < 32
  · rw [← Char.ofNat_toNat c]
    generalize c.toNat = code at isControl
    interval_cases code <;> rfl
  unfold escape
  split
  · rename_i isQuote
    subst isQuote
    rfl
  · split
    · rename_i isBackslash
      subst isBackslash
      rfl
    · rename_i notQuote notBackslash
      rw [if_pos (by omega)]
      show (silently? (.text characters) c).bind some = _
      rw [silently?, lexStep, if_neg notQuote, if_neg notBackslash, if_neg isControl]
      rfl

/-- A text between quotes is one lexeme. -/
theorem lexFrom_encode (text rest : List Char) :
    lexFrom .start (encode text ++ rest) = do
      return .scalar (.string (String.ofList text)) :: (← lexFrom .start rest) := by
  have inside : ∀ characters, (text.flatMap escape).foldlM silently?
      (.text characters) = some (.text (text.reverse ++ characters)) := by
    induction text with
    | nil => exact fun _ => rfl
    | cons c text ih =>
      intro characters
      rw [flatMap_cons, foldlM_append, escape_silently]
      simp [ih]
  have opened : ('"' :: text.flatMap escape).foldlM silently? .start =
      some (.text text.reverse) := by
    rw [foldlM_cons]
    exact (inside []).trans (by rw [append_nil])
  rw [encode, ← cons_append, append_assoc, lexFrom_silently opened,
    singleton_append, lexFrom, lexStep, if_pos rfl, reverse_reverse]
  rfl

/-! ## Numbers -/

/-- A text has the characters of a numeral and starts like one. -/
structure Spelled (text : List Char) : Prop where
  starts : ∃ c ∈ text.head?, c = '-' ∨ c.isDigit = true
  inside : ∀ c ∈ text, isNumeralChar c = true

theorem isNumeralChar_of_isDigit (isDigit : c.isDigit = true) : isNumeralChar c = true := by
  simp [isNumeralChar, isDigit]

/-- What starts like a numeral is read as one. -/
theorem start_numeral (starts : c = '-' ∨ c.isDigit = true) :
    silently? .start c = some (.number [c]) := by
  rcases starts with rfl | isDigit
  · rfl
  · have bounds : 48 ≤ c.toNat ∧ c.toNat ≤ 57 := by
      simpa [Char.isDigit, UInt32.le_iff_toNat_le, ← Char.toNat_val] using isDigit
    obtain ⟨lower, upper⟩ := bounds
    rw [← Char.ofNat_toNat c]
    generalize c.toNat = code at lower upper
    interval_cases code <;> rfl

/-- The characters of a numeral are collected. -/
theorem Spelled.silently (spelled : Spelled text) :
    text.foldlM silently? .start = some (.number text.reverse) := by
  have more : ∀ (rest characters : List Char), (∀ c ∈ rest, isNumeralChar c = true) →
      rest.foldlM silently? (.number characters) = some (.number (rest.reverse ++ characters)) := by
    intro rest
    induction rest with
    | nil => exact fun _ _ => rfl
    | cons c rest ih =>
      intro characters inside
      obtain ⟨isNumeral, others⟩ := forall_mem_cons.mp inside
      have step : silently? (.number characters) c = some (.number (c :: characters)) := by
        rw [silently?, lexStep, if_pos isNumeral]
      rw [foldlM_cons, step]
      simp [ih (c :: characters) others]
  cases text with
  | nil =>
    obtain ⟨c, isHead, _⟩ := spelled.starts
    cases isHead
  | cons c rest =>
    obtain ⟨_, isHead, starts⟩ := spelled.starts
    cases isHead
    rw [foldlM_cons, start_numeral starts]
    exact (more rest [c] (forall_mem_cons.mp spelled.inside).2).trans
      (by rw [reverse_cons])

/-- Digits and more behind them. -/
theorem Spelled.digits {digits rest : List Char} (nonempty : digits ≠ [])
    (areDigits : ∀ c ∈ digits, c.isDigit = true) (inside : ∀ c ∈ rest, isNumeralChar c = true) :
    Spelled (digits ++ rest) := by
  constructor
  case starts =>
    cases digits with
    | nil => exact absurd rfl nonempty
    | cons c digits => exact ⟨c, rfl, .inr (areDigits c mem_cons_self)⟩
  case inside =>
    refine forall_mem_append.mpr ⟨fun c member => ?_, inside⟩
    exact isNumeralChar_of_isDigit (areDigits c member)

theorem Spelled.sign (spelled : Spelled text) (negative : Bool) :
    Spelled (signChars negative ++ text) := by
  cases negative with
  | false => exact spelled
  | true => exact ⟨⟨'-', rfl, .inl rfl⟩, forall_mem_cons.mpr ⟨rfl, spelled.inside⟩⟩

theorem decimalDigits_ne_nil (value : Nat) : decimalDigits value ≠ [] :=
  ne_nil_of_length_pos Nat.length_toDigits_pos

theorem isDigit_decimalDigits {value : Nat} (member : c ∈ decimalDigits value) : c.isDigit = true :=
  Nat.isDigit_of_mem_toDigits (by decide) (by decide) member

/-- The text of an integer is a sign and the digits of its magnitude. -/
theorem toString_integer (value : Int) :
    (toString value).toList = signChars (value < 0) ++ decimalDigits value.natAbs := by
  have written : (toString value : String) = value.repr := rfl
  rw [written, Int.repr_eq_if]
  split
  · rename_i nonnegative
    have magnitude : value.toNat = value.natAbs := by omega
    rw [Nat.repr_eq_ofList_toDigits, String.toList_ofList, decide_eq_false (by omega), magnitude]
    rfl
  · rename_i isNegative
    have magnitude : (-value).toNat = value.natAbs := by omega
    rw [Nat.repr_eq_ofList_toDigits, String.toList_append, String.toList_ofList,
      String.toList_ofList, decide_eq_true (by omega), magnitude]
    rfl

theorem isNumeralChar_zeros {count : Nat} (member : c ∈ zeros count) : isNumeralChar c = true := by
  rw [eq_of_mem_replicate member]
  rfl

theorem isNumeralChar_pointZero : ∀ c ∈ ['.', '0'], isNumeralChar c = true :=
  forall_mem_cons.mpr ⟨rfl, forall_mem_singleton.mpr rfl⟩

variable {digits : List Char}

/-- A positional spelling is that of a numeral. -/
theorem spelled_positional (nonempty : digits ≠ []) (areDigits : ∀ c ∈ digits, c.isDigit = true)
    (point : Int) : Spelled (positional false digits point) := by
  have numeral : ∀ c ∈ digits, isNumeralChar c = true := fun c member =>
    isNumeralChar_of_isDigit (areDigits c member)
  unfold positional
  split
  · refine @Spelled.digits ['0'] _ (by decide) (forall_mem_singleton.mpr rfl) ?_
    refine forall_mem_cons.mpr ⟨rfl, forall_mem_append.mpr ⟨?_, numeral⟩⟩
    exact fun c => isNumeralChar_zeros
  · rename_i positive
    split
    · rw [append_assoc]
      refine .digits nonempty areDigits (forall_mem_append.mpr ⟨?_, isNumeralChar_pointZero⟩)
      exact fun c => isNumeralChar_zeros
    · refine .digits ?_ (fun c member => areDigits c (mem_of_mem_take member)) ?_
      · rw [Ne, take_eq_nil_iff]
        exact not_or.mpr ⟨by omega, nonempty⟩
      · refine forall_mem_cons.mpr ⟨rfl, fun c member => numeral c ?_⟩
        exact mem_of_mem_drop member

/-- A spelling with an exponent is that of a numeral. -/
theorem spelled_scientific (nonempty : digits ≠ []) (areDigits : ∀ c ∈ digits, c.isDigit = true)
    (point : Int) : Spelled (scientific digits point) := by
  unfold scientific
  dsimp only
  rw [append_assoc, append_assoc]
  refine .digits ?_ (fun c member => areDigits c (mem_of_mem_take member)) ?_
  · rw [Ne, take_eq_nil_iff]
    exact not_or.mpr ⟨by decide, nonempty⟩
  · refine forall_mem_append.mpr ⟨?_, forall_mem_append.mpr ⟨?_, ?_⟩⟩
    · split
      · simp
      · refine forall_mem_cons.mpr ⟨rfl, fun c member => ?_⟩
        exact isNumeralChar_of_isDigit (areDigits c (mem_of_mem_drop member))
    · split <;> exact forall_mem_cons.mpr ⟨rfl, forall_mem_singleton.mpr rfl⟩
    · exact fun c member => isNumeralChar_of_isDigit (isDigit_decimalDigits member)

/-- What the text of a number is read as. A number that is not finite has none of its own. -/
def rereadNumber : JsonNumber → Except Fault Json
  | .double (.infinite _) => .ok .null
  | .double .nan => .ok .null
  | written => numeralValue (numberChars written)

/-- A number is read as a number, or not at all. -/
theorem rereadNumber_ok {written : JsonNumber} {value : Json}
    (done : rereadNumber written = .ok value) : value = .null ∨ ∃ found, value = .number found := by
  unfold rereadNumber numeralValue at done
  split at done
  · exact .inl (Except.ok.inj done).symm
  · exact .inl (Except.ok.inj done).symm
  · split at done
    · cases done
    · split at done
      · cases done
      · exact .inr ⟨_, (Except.ok.inj done).symm⟩

/-- Finite numbers are written as numerals. -/
theorem spelled_jsonChars (negative : Bool) (units : Nat) :
    Spelled (finite negative units).jsonChars := by
  cases units with
  | zero =>
    have isDigit : ∀ c ∈ ['0'], c.isDigit = true := forall_mem_singleton.mpr rfl
    exact .sign (.digits (by decide) isDigit isNumeralChar_pointZero) negative
  | succ units =>
    unfold jsonChars
    refine .sign ?_ negative
    split
    · exact spelled_positional (decimalDigits_ne_nil _) (fun c => isDigit_decimalDigits) _
    · exact spelled_scientific (decimalDigits_ne_nil _) (fun c => isDigit_decimalDigits) _

/-- A number is one lexeme. -/
theorem lexFrom_numberChars (number : JsonNumber) (ends : Ends rest) :
    lexFrom .start (numberChars number ++ rest) = do
      return .scalar (← rereadNumber number) :: (← lexFrom .start rest) := by
  have ofSpelled : Spelled (numberChars number) →
      lexFrom .start (numberChars number ++ rest) = do
        return .scalar (← numeralValue (numberChars number)) :: (← lexFrom .start rest) := by
    intro spelled
    rw [lexFrom_silently spelled.silently, lexFrom_number ends, reverse_reverse]
  cases number with
  | integer value =>
    refine ofSpelled ?_
    rw [numberChars, toString_integer, ← append_nil (decimalDigits _)]
    exact .sign (.digits (decimalDigits_ne_nil _) (fun c => isDigit_decimalDigits) (by simp)) _
  | double value =>
    cases value with
    | finite negative units => exact ofSpelled (spelled_jsonChars negative units)
    | infinite _ | nan => exact (lexFrom_silently rfl rest).trans (lexFrom_word ends)

/-! ## Values -/

mutual

/-- What a value is read as once it has been written: each number in it is what its text says. -/
def reread : Json → Except Fault Json
  | null => .ok null
  | bool value => .ok (bool value)
  | number value => rereadNumber value
  | string text => .ok (string text)
  | array items => do return array (← rereadItems items)
  | object members => do return object (← rereadMembers members)

/-- What items are read as. -/
def rereadItems : List Json → Except Fault (List Json)
  | [] => .ok []
  | item :: rest => do return (← reread item) :: (← rereadItems rest)

/-- What members are read as. -/
def rereadMembers : List (String × Json) → Except Fault (List (String × Json))
  | [] => .ok []
  | (name, value) :: rest => do return (name, ← reread value) :: (← rereadMembers rest)

end

mutual

/-- The lexemes of a value. -/
def lexemes : Json → List Lexeme
  | array items => .openArray :: (itemLexemes items ++ [.closeArray])
  | object members => .openObject :: (memberLexemes members ++ [.closeObject])
  | value => [.scalar value]

/-- The lexemes of items, with commas between them. -/
def itemLexemes : List Json → List Lexeme
  | [] => []
  | [item] => lexemes item
  | item :: rest => lexemes item ++ .comma :: itemLexemes rest

/-- The lexemes of members, with commas between them. -/
def memberLexemes : List (String × Json) → List Lexeme
  | [] => []
  | [(name, value)] => .scalar (.string name) :: .colon :: lexemes value
  | (name, value) :: rest =>
    .scalar (.string name) :: .colon :: (lexemes value ++ .comma :: memberLexemes rest)

end

/-- A text is cut into lexemes, whatever stands behind it. -/
def Lexes (text : List Char) (found : Except Fault (List Lexeme)) : Prop :=
  ∀ rest, Ends rest →
    lexFrom .start (text ++ rest) = do return (← found) ++ (← lexFrom .start rest)

namespace Lexes

variable {text second : List Char} {found others : Except Fault (List Lexeme)}

theorem congr (cut : Lexes text found) (same : found = others) : Lexes text others := same ▸ cut

theorem nil : Lexes [] (.ok []) := by
  intro rest _
  rw [nil_append]
  cases lexFrom .start rest <;> rfl

theorem scalar {value : Except Fault Json}
    (cut : ∀ rest, Ends rest → lexFrom .start (text ++ rest) = do
      return .scalar (← value) :: (← lexFrom .start rest)) :
    Lexes text (do return [.scalar (← value)]) := by
  intro rest ends
  rw [cut rest ends]
  cases value <;> rfl

/-- A word. -/
theorem word {letters : List Char} {value : Json}
    (collected : text.foldlM silently? .start = some (.word letters))
    (known : wordValue letters.reverse = .ok value) : Lexes text (.ok [.scalar value]) := by
  intro rest ends
  rw [lexFrom_silently collected, lexFrom_word ends, known]
  rfl

/-- A mark in front. -/
theorem mark {lexeme : Lexeme} (step : startLexeme c = .ok ([lexeme], .start))
    (behind : Lexes text found) : Lexes (c :: text) (do return lexeme :: (← found)) := by
  intro rest ends
  rw [cons_append, lexFrom_mark step, behind rest ends]
  cases found with
  | error fault => rfl
  | ok lexemes => cases lexFrom .start rest <;> rfl

/-- Blanks in front. -/
theorem blanks {blanks : List Char} (silent : blanks.foldlM silently? .start = some .start)
    (behind : Lexes text found) : Lexes (blanks ++ text) found := by
  intro rest ends
  rw [append_assoc, lexFrom_silently silent, behind rest ends]

/-- One text behind another. -/
theorem append (first : Lexes text found) (behind : Lexes second others) (ends : Ends second) :
    Lexes (text ++ second) (do return (← found) ++ (← others)) := by
  intro rest restEnds
  rw [append_assoc, first _ (ends.append restEnds), behind rest restEnds]
  cases found with
  | error fault => rfl
  | ok lexemes =>
    cases others with
    | error fault => rfl
    | ok more =>
      cases lexFrom .start rest with
      | error fault => rfl
      | ok last => exact congrArg Except.ok (append_assoc lexemes more last).symm

end Lexes

theorem newLine_silent (level : Nat) : (newLine level).foldlM silently? .start = some .start := by
  have spaces : ∀ count, (replicate count ' ').foldlM silently? .start = some .start := by
    intro count
    induction count with
    | zero => rfl
    | succ count ih => exact ih
  exact spaces (2 * level)

theorem ends_newLine (level : Nat) (text : List Char) : Ends (newLine level ++ text) := by
  intro c isHead
  cases isHead
  decide

theorem ends_of_mark (apart : isNumeralChar c = false ∧ c.isLower = false) : Ends (c :: text) := by
  intro other isHead
  cases isHead
  exact apart

theorem comma_start : startLexeme ',' = .ok ([.comma], .start) := rfl

theorem colon_start : startLexeme ':' = .ok ([.colon], .start) := rfl

theorem space_silent : [' '].foldlM silently? .start = some .start := rfl

theorem lexes_name (name : String) : Lexes (encode name.toList) (.ok [.scalar (.string name)]) := by
  intro rest _
  rw [lexFrom_encode, String.ofList_toList]
  rfl

mutual

/-- The text of a value is cut into the lexemes of what the value is read as. -/
theorem lexes_indented (level : Nat) (value : Json) :
    Lexes (indentedChars level value) (do return lexemes (← reread value)) := by
  match value with
  | null => exact .word rfl rfl
  | bool true => exact .word rfl rfl
  | bool false => exact .word rfl rfl
  | number written =>
    refine .congr (.scalar fun _ => lexFrom_numberChars written) ?_
    rw [reread]
    cases done : rereadNumber written with
    | error fault => rfl
    | ok value => rcases rereadNumber_ok done with rfl | ⟨found, rfl⟩ <;> rfl
  | string text => exact lexes_name text
  | array [] => exact .mark rfl (.mark rfl .nil)
  | array (item :: rest) =>
    have closing : Lexes (newLine level ++ [']']) (.ok [.closeArray]) :=
      .blanks (newLine_silent level) (.mark rfl .nil)
    have inside := (lexes_items (level + 1) (item :: rest)).append closing (ends_newLine level _)
    rw [← append_assoc] at inside
    rw [indentedChars, reread]
    refine .congr (.mark rfl inside) ?_
    cases rereadItems (item :: rest) <;> rfl
  | object [] => exact .mark rfl (.mark rfl .nil)
  | object (member :: rest) =>
    have closing : Lexes (newLine level ++ ['\x7d']) (.ok [.closeObject]) :=
      .blanks (newLine_silent level) (.mark rfl .nil)
    have inside :=
      (lexes_members (level + 1) (member :: rest)).append closing (ends_newLine level _)
    rw [← append_assoc] at inside
    rw [indentedChars, reread]
    refine .congr (.mark rfl inside) ?_
    cases rereadMembers (member :: rest) <;> rfl

theorem lexes_items (level : Nat) (items : List Json) :
    Lexes (indentedItems level items) (do return itemLexemes (← rereadItems items)) := by
  match items with
  | [] => exact .nil
  | [item] =>
    refine .congr (.blanks (newLine_silent level) (lexes_indented level item)) ?_
    rw [rereadItems]
    cases reread item <;> rfl
  | item :: next :: rest =>
    have own := (lexes_indented level item).blanks (newLine_silent level)
    have others := (lexes_items level (next :: rest)).mark comma_start
    refine .congr (own.append others (ends_of_mark (by decide))) ?_
    simp only [rereadItems]
    cases reread item with
    | error fault => rfl
    | ok first =>
      cases reread next with
      | error fault => rfl
      | ok second => cases rereadItems rest <;> rfl

theorem lexes_members (level : Nat) (members : List (String × Json)) :
    Lexes (indentedMembers level members) (do return memberLexemes (← rereadMembers members)) := by
  match members with
  | [] => exact .nil
  | [(name, value)] =>
    have named := (lexes_name name).blanks (newLine_silent level)
    have own := ((lexes_indented level value).blanks space_silent).mark colon_start
    refine .congr (named.append own (ends_of_mark (by decide))) ?_
    simp only [rereadMembers]
    cases reread value <;> rfl
  | (name, value) :: (other, next) :: rest =>
    have named := (lexes_name name).blanks (newLine_silent level)
    have others := (lexes_members level ((other, next) :: rest)).mark comma_start
    have own := (lexes_indented level value).append others (ends_of_mark (by decide))
    have behind := (own.blanks space_silent).mark colon_start
    refine .congr (named.append behind (ends_of_mark (by decide))) ?_
    simp only [rereadMembers]
    cases reread value with
    | error fault => rfl
    | ok first =>
      cases reread next with
      | error fault => rfl
      | ok second => cases rereadMembers rest <;> rfl

end

/-- A written value is cut into the lexemes of what it is read as. -/
theorem lexFrom_indented (value : Json) :
    lexFrom .start value.indented.toList = do return lexemes (← reread value) := by
  have cut := lexes_indented 0 value [] (by simp [Ends])
  rw [append_nil] at cut
  rw [indented, String.toList_ofList, cut]
  cases reread value with
  | error fault => rfl
  | ok found => exact congrArg Except.ok (append_nil _)

end SchemaLang.Json
