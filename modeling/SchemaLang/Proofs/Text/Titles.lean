import SchemaLang.Proofs.Text.Names

/-!
# Titles

A title is a capital letter with small letters behind it, like `String`. Pascal case turns many
names into one title, and this module says which: the names that are a single word between any
separators, where the word is the title itself, the title in small letters, or the title in
capitals. A second word could only add a character behind the first that is no small letter.
-/

namespace SchemaLang.Text

open List

/-- Whether a text is a capital letter with small letters behind it, at least one. -/
def isTitle : List Char → Bool
  | [] => false
  | first :: rest => first.isUpper && rest.all Char.isLower && !rest.isEmpty

/-- The words that fall together with a title. -/
def titleSpellings (title : List Char) : List (List Char) :=
  [title, title.map Char.toLower, title.map Char.toUpper]

/-- A name that is one word, which falls together with a title. -/
def Spells (name title : String) : Prop :=
  ∃ word ∈ titleSpellings title.toList, (words name.toList).filter (!·.isEmpty) = [word]

instance (name title : String) : Decidable (Spells name title) :=
  inferInstanceAs (Decidable (∃ word ∈ _, _))

/-! ## Letters -/

section Letters

variable {c : Char}

theorem isNameChar_of_isUpper (capital : c.isUpper = true) : IsNameChar c :=
  .inl (by delta Char.isAlphanum Char.isAlpha; simp [capital])

theorem isNameChar_of_isLower (small : c.isLower = true) : IsNameChar c :=
  .inl (by delta Char.isAlphanum Char.isAlpha; simp [small])

/-- A capital letter is its own capital and that of its small letter. -/
theorem capital_cases (capital : c.isUpper = true) :
    c.isLower = false ∧ c.toUpper = c ∧ c.toLower.toUpper = c :=
  (isNameChar_of_isUpper capital).forall_of (fun c => c.isUpper = true →
    c.isLower = false ∧ c.toUpper = c ∧ c.toLower.toUpper = c) (by decide) capital

/-- A small letter is its own small letter and that of its capital. -/
theorem small_cases (small : c.isLower = true) :
    c.toUpper.isLower = false ∧ c.toLower = c ∧ c.toUpper.toLower = c :=
  (isNameChar_of_isLower small).forall_of (fun c => c.isLower = true →
    c.toUpper.isLower = false ∧ c.toLower = c ∧ c.toUpper.toLower = c) (by decide) small

/-- What has a capital letter for its capital is that letter or its small letter. -/
theorem eq_of_toUpper (isNameChar : IsNameChar c) (capital : c.toUpper.isUpper = true) :
    c = c.toUpper ∨ c = c.toUpper.toLower :=
  isNameChar.forall_of (fun c => c.toUpper.isUpper = true →
    c = c.toUpper ∨ c = c.toUpper.toLower) (by decide) capital

/-- What is no small letter is the capital of its small form, and its own capital. -/
theorem eq_of_notSmall (isNameChar : IsNameChar c) (notSmall : c.isLower = false) :
    c.toLower.toUpper = c ∧ c.toUpper = c :=
  isNameChar.forall_of (fun c => c.isLower = false → c.toLower.toUpper = c ∧ c.toUpper = c)
    (by decide) notSmall

end Letters

/-! ## Words -/

section Words

variable {word : List Char}

theorem any_isLowercase (plain : ∀ c ∈ word, IsNameChar c) :
    word.any isLowercase = word.any Char.isLower := by
  have same : ∀ c ∈ word, isLowercase c = c.isLower := fun c member =>
    if_pos (plain c member).toNat_lt
  rw [Bool.eq_iff_iff, any_eq_true, any_eq_true]
  constructor
  · rintro ⟨c, member, small⟩
    exact ⟨c, member, same c member ▸ small⟩
  · rintro ⟨c, member, small⟩
    exact ⟨c, member, (same c member).trans small⟩

/-- A plain word in Pascal case, letter by letter. -/
theorem pascalWord_cons {first : Char} {rest : List Char}
    (plain : ∀ c ∈ first :: rest, IsNameChar c) :
    pascalWord (first :: rest) = if (first :: rest).any Char.isLower then first.toUpper :: rest
      else first.toLower.toUpper :: rest.map Char.toLower := by
  have firstPlain := plain first mem_cons_self
  have lowered : IsNameChar first.toLower :=
    firstPlain.forall_of (fun c => IsNameChar c.toLower) (by decide)
  rw [pascalWord, any_isLowercase plain, lowerText,
    lowerAfter_map fun c member => (plain c member).toNat_lt, map_cons,
    capitalize_cons firstPlain.toNat_lt, capitalize_cons lowered.toNat_lt]

/-- A plain word in Pascal case does not start with a small letter. -/
theorem pascalWord_head (plain : ∀ c ∈ word, IsNameChar c) {c : Char}
    (isHead : (pascalWord word).head? = some c) : c.isLower = false := by
  rw [pascalWord] at isHead
  split at isHead
  · exact capitalize_head plain isHead
  · exact capitalize_head (lowerAfter_plain plain) isHead

variable {first : Char} {rest : List Char}

theorem isTitle_cons : isTitle (first :: rest) = true ↔
    first.isUpper = true ∧ (∀ c ∈ rest, c.isLower = true) ∧ rest ≠ [] := by
  simp [isTitle, and_assoc]

/-- Small letters stay as they are, and so do those of their capitals. -/
theorem map_small (small : ∀ c ∈ rest, c.isLower = true) :
    rest.map Char.toLower = rest ∧ (rest.map Char.toUpper).map Char.toLower = rest := by
  rw [map_map]
  constructor
  · exact (map_congr_left fun c member => (small_cases (small c member)).2.1).trans
      (map_id rest)
  · exact (map_congr_left fun c member => (small_cases (small c member)).2.2).trans
      (map_id rest)

/-- A word that becomes a title is one of its spellings. A word with a small letter keeps its case
behind the first letter, so there it is the title already; in any other word each letter is the
capital of what it becomes. -/
theorem mem_spellings_of_pascalWord (plain : ∀ c ∈ word, IsNameChar c)
    (title : isTitle (first :: rest) = true) (becomes : pascalWord word = first :: rest) :
    word ∈ titleSpellings (first :: rest) := by
  obtain ⟨capital, small, _⟩ := isTitle_cons.mp title
  simp only [titleSpellings, mem_cons, not_mem_nil, or_false, map_cons, (map_small small).1]
  cases word with
  | nil => cases becomes
  | cons head tail =>
    obtain ⟨headPlain, tailPlain⟩ := forall_mem_cons.mp plain
    rw [pascalWord_cons plain] at becomes
    split at becomes
    · obtain ⟨rfl, rfl⟩ := cons.inj becomes
      rcases eq_of_toUpper headPlain capital with same | lowered
      · exact .inl (by rw [← same])
      · exact .inr (.inl (by rw [← lowered]))
    · rename_i noSmall
      obtain ⟨isFirst, isRest⟩ := cons.inj becomes
      have notSmall : ∀ c ∈ head :: tail, c.isLower = false := by simpa using noSmall
      obtain ⟨headNotSmall, tailNotSmall⟩ := forall_mem_cons.mp notSmall
      have sameHead : first.toUpper = head := by
        rw [← isFirst, (eq_of_notSmall headPlain headNotSmall).1,
          (eq_of_notSmall headPlain headNotSmall).2]
      have sameTail : rest.map Char.toUpper = tail := by
        rw [← isRest, map_map]
        exact (map_congr_left fun c member =>
          (eq_of_notSmall (tailPlain c member) (tailNotSmall c member)).1).trans (map_id tail)
      exact .inr (.inr (by rw [sameHead, sameTail]))

/-- Every spelling of a title becomes the title. -/
theorem pascalWord_of_mem_spellings (plain : ∀ c ∈ word, IsNameChar c)
    (title : isTitle (first :: rest) = true) (spelled : word ∈ titleSpellings (first :: rest)) :
    pascalWord word = first :: rest := by
  obtain ⟨capital, small, more⟩ := isTitle_cons.mp title
  obtain ⟨notSmall, itsCapital, ofLowered⟩ := capital_cases capital
  have someSmall : ∀ head, (head :: rest).any Char.isLower = true := by
    intro head
    obtain ⟨next, isNext⟩ := exists_mem_of_ne_nil rest more
    exact any_eq_true.mpr ⟨next, mem_cons_of_mem _ isNext, small next isNext⟩
  simp only [titleSpellings, mem_cons, not_mem_nil, or_false, map_cons,
    (map_small small).1] at spelled
  rcases spelled with rfl | rfl | rfl
  · rw [pascalWord_cons plain, if_pos (someSmall _), itsCapital]
  · rw [pascalWord_cons plain, if_pos (someSmall _), ofLowered]
  · have noSmall : ¬ (first.toUpper :: rest.map Char.toUpper).any Char.isLower = true := by
      rw [itsCapital, any_cons, notSmall, Bool.false_or, any_eq_true]
      rintro ⟨c, isCapital, isSmall⟩
      obtain ⟨letter, member, rfl⟩ := mem_map.mp isCapital
      rw [(small_cases (small letter member)).1] at isSmall
      cases isSmall
    rw [pascalWord_cons plain, if_neg noSmall, (map_small small).2, itsCapital, ofLowered]

/-- Nothing but small letters stands behind the start of a title. -/
theorem nil_of_isTitle_append {front back : List Char} (title : isTitle (front ++ back) = true)
    (started : front ≠ []) (notSmall : ∀ c, back.head? = some c → c.isLower = false) :
    back = [] := by
  obtain ⟨first, others, rfl⟩ := exists_cons_of_ne_nil started
  cases back with
  | nil => rfl
  | cons c back =>
    have small := (isTitle_cons.mp title).2.1 c (by simp)
    rw [notSmall c rfl] at small
    cases small

end Words

/-! ## Names -/

variable {name title : String}

/-- The words of a plain name that are not empty. -/
theorem parts_plain (plain : PlainName name) :
    ∀ word ∈ (words name.toList).filter (!·.isEmpty), word ≠ [] ∧ ∀ c ∈ word, IsNameChar c := by
  intro word member
  obtain ⟨isWord, filled⟩ := mem_filter.mp member
  refine ⟨by simpa using filled, fun c inside => plain c (mem_of_mem_words isWord inside)⟩

theorem pascalWord_ne_nil {word : List Char} (filled : word ≠ [])
    (plain : ∀ c ∈ word, IsNameChar c) : pascalWord word ≠ [] := by
  obtain ⟨first, rest, rfl⟩ := exists_cons_of_ne_nil filled
  rw [pascalWord_cons plain]
  split <;> exact cons_ne_nil _ _

/-- Words that become a title together are one word. -/
theorem single_of_isTitle {parts : List (List Char)}
    (proper : ∀ word ∈ parts, word ≠ [] ∧ ∀ c ∈ word, IsNameChar c)
    (title : isTitle (parts.flatMap pascalWord) = true) : ∃ word, parts = [word] := by
  cases parts with
  | nil => cases title
  | cons first others =>
    cases others with
    | nil => exact ⟨first, rfl⟩
    | cons second others =>
      rw [forall_mem_cons, forall_mem_cons] at proper
      obtain ⟨⟨firstFilled, firstPlain⟩, ⟨secondFilled, secondPlain⟩, _⟩ := proper
      have secondWritten := pascalWord_ne_nil secondFilled secondPlain
      rw [flatMap_cons, flatMap_cons] at title
      have nothing := nil_of_isTitle_append title (pascalWord_ne_nil firstFilled firstPlain) (by
        intro c isHead
        rw [head?_append_of_ne_nil _ secondWritten] at isHead
        exact pascalWord_head secondPlain isHead)
      exact absurd (append_eq_nil_iff.mp nothing).1 secondWritten

/-- The plain names that Pascal case turns into a title are those that spell it. -/
theorem pascalCase_eq_iff (plain : PlainName name) (isTitled : isTitle title.toList = true) :
    pascalCase name = title ↔ Spells name title := by
  have proper := parts_plain plain
  rw [← String.toList_inj, pascalCase, String.toList_ofList, pascalChars, Spells]
  generalize (words name.toList).filter (!·.isEmpty) = parts at proper
  cases letters : title.toList with
  | nil =>
    rw [letters] at isTitled
    cases isTitled
  | cons first rest =>
    rw [letters] at isTitled
    constructor
    · intro becomes
      obtain ⟨word, rfl⟩ := single_of_isTitle proper (by rw [becomes, isTitled])
      rw [flatMap_singleton] at becomes
      have wordPlain := (proper word mem_cons_self).2
      exact ⟨word, mem_spellings_of_pascalWord wordPlain isTitled becomes, rfl⟩
    · rintro ⟨word, spelled, rfl⟩
      have wordPlain := (proper word mem_cons_self).2
      rw [flatMap_singleton, pascalWord_of_mem_spellings wordPlain isTitled spelled]

end SchemaLang.Text
