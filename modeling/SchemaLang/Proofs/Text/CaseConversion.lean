import SchemaLang.Proofs.Text.Titles

/-!
# Case conversion changes case and separators only

Pascal case leaves out the separators of a name and changes the case of letters. Snake case writes
small letters, and an underscore for a hyphen and before a new word. So nothing of a name is lost
but its case and its separators: in small letters and without separators, a name and its two
conversions are the same.

Snake case looks at the letters around a capital to tell whether a word starts there. What it makes
of one character can still be said without them, since they only decide on an underscore.
-/

namespace SchemaLang.Text

open List

/-- A text of the first 128 characters. -/
def IsAscii (name : String) : Prop := ∀ c ∈ name.toList, c.toNat < 128

instance (name : String) : Decidable (IsAscii name) :=
  List.decidableBAll (fun c : Char => c.toNat < 128) name.toList

/-- A text in small letters, with some characters left out. -/
def lettersWithout (left : List Char) (text : List Char) : List Char :=
  (text.filter (· ∉ left)).map Char.toLower

variable {word text : List Char}

theorem lettersWithout_append (left first second : List Char) :
    lettersWithout left (first ++ second) =
      lettersWithout left first ++ lettersWithout left second := by
  rw [lettersWithout, filter_append, map_append, lettersWithout, lettersWithout]

/-! ## Pascal case -/

theorem words_flatten (text : List Char) :
    (words text).flatten = text.filter (!isWordSeparator ·) := by
  induction text with
  | nil => rfl
  | cons c rest ih =>
    rw [words, filter_cons]
    cases isWordSeparator c with
    | true => exact ih
    | false =>
      cases isWords : words rest with
      | nil | cons _ _ =>
        rw [isWords] at ih
        exact congrArg (c :: ·) ih

variable {c : Char}

theorem toLower_toLower (ascii : c.toNat < 128) :
    c.toLower.toNat < 128 ∧ c.toLower.toLower = c.toLower ∧ c.toUpper.toLower = c.toLower :=
  forall_of_ascii (fun c => c.toLower.toNat < 128 ∧ c.toLower.toLower = c.toLower ∧
    c.toUpper.toLower = c.toLower) (by decide) ascii

/-- Only the case of a word changes in Pascal case. -/
theorem pascalWord_letters (ascii : ∀ c ∈ word, c.toNat < 128) :
    (pascalWord word).map Char.toLower = word.map Char.toLower := by
  have capitalized : ∀ text : List Char, (∀ c ∈ text, c.toNat < 128) →
      (capitalize text).map Char.toLower = text.map Char.toLower := by
    intro text ascii
    cases text with
    | nil => rfl
    | cons first rest =>
      have firstAscii := ascii first mem_cons_self
      rw [capitalize_cons firstAscii, map_cons, (toLower_toLower firstAscii).2.2, map_cons]
  rw [pascalWord]
  split
  · exact capitalized word ascii
  · rw [lowerText, lowerAfter_map ascii, capitalized, map_map]
    · exact map_congr_left fun c member => (toLower_toLower (ascii c member)).2.1
    · exact forall_mem_map.mpr fun c member => (toLower_toLower (ascii c member)).1

/-- A name in Pascal case is the name without separators, but for the case. -/
theorem pascalChars_letters (ascii : ∀ c ∈ text, c.toNat < 128) :
    (pascalChars text).map Char.toLower = lettersWithout ['.', '_', '-'] text := by
  have each : ∀ word ∈ (words text).filter (!·.isEmpty),
      (pascalWord word).map Char.toLower = word.map Char.toLower := by
    intro word member
    refine pascalWord_letters fun c inside => ascii c ?_
    exact mem_of_mem_words (mem_of_mem_filter member) inside
  have separators : text.filter (· ∉ ['.', '_', '-']) = text.filter (!isWordSeparator ·) :=
    filter_congr fun c _ => by rw [Bool.eq_iff_iff]; simp [isWordSeparator, and_assoc]
  rw [pascalChars, map_flatMap, flatMap_congr each, lettersWithout, separators, ← words_flatten,
    ← flatten_filter_not_isEmpty, map_flatten, flatMap_def]

/-! ## Snake case -/

theorem capital_facts (ascii : c.toNat < 128) (capital : c.isUpper = true) :
    c.toLower.toNat < 128 ∧ c.toLower.isUpper = false ∧ c.toLower ≠ '-' ∧ c.toLower ≠ '_' ∧
      c ≠ '_' :=
  forall_of_ascii (fun c => c.isUpper = true → c.toLower.toNat < 128 ∧ c.toLower.isUpper = false ∧
    c.toLower ≠ '-' ∧ c.toLower ≠ '_' ∧ c ≠ '_') (by decide) ascii capital

theorem toLower_of_notCapital (ascii : c.toNat < 128) (notCapital : c.isUpper = false) :
    c.toLower = c :=
  forall_of_ascii (fun c => c.isUpper = false → c.toLower = c) (by decide) ascii notCapital

/-- What snake case makes of one character, whatever stands around it. -/
theorem snakeAfter_cons (previous : Option Char) (rest : List Char) (ascii : c.toNat < 128) :
    ∃ here, snakeAfter previous (c :: rest) = here ++ snakeAfter (some c) rest ∧ here ≠ [] ∧
      here.filter (· ≠ '_') = lettersWithout ['_', '-'] [c] ∧
      ∀ d ∈ here, d.toNat < 128 ∧ d.isUpper = false ∧ d ≠ '-' := by
  have same : isUppercase c = c.isUpper := if_pos ascii
  refine ⟨_, rfl, ?_⟩
  by_cases dash : c = '-'
  · subst dash
    rw [if_pos rfl]
    exact ⟨by simp, by decide, forall_mem_singleton.mpr (by decide)⟩
  rw [if_neg dash, same]
  cases capital : c.isUpper with
  | true =>
    obtain ⟨lowAscii, notCapital, notDash, notLine, differs⟩ := capital_facts ascii capital
    have letter : [c.toLower].filter (· ≠ '_') = lettersWithout ['_', '-'] [c] := by
      simp [lettersWithout, notLine, differs, dash]
    have facts : ∀ d ∈ [c.toLower], d.toNat < 128 ∧ d.isUpper = false ∧ d ≠ '-' :=
      forall_mem_singleton.mpr ⟨lowAscii, notCapital, notDash⟩
    rw [if_pos rfl, lower, if_pos ascii]
    split
    · exact ⟨by simp, letter, forall_mem_cons.mpr ⟨by decide, facts⟩⟩
    · exact ⟨by simp, letter, facts⟩
  | false =>
    rw [if_neg Bool.false_ne_true]
    refine ⟨by simp, ?_, forall_mem_singleton.mpr ⟨ascii, capital, dash⟩⟩
    by_cases line : c = '_'
    · subst line
      decide
    · simp [lettersWithout, line, dash, toLower_of_notCapital ascii capital]

/-- A text in snake case is the text without hyphens and underscores in small letters, but for the
underscores that it writes. -/
theorem snakeAfter_letters (previous : Option Char) (ascii : ∀ c ∈ text, c.toNat < 128) :
    (snakeAfter previous text).filter (· ≠ '_') = lettersWithout ['_', '-'] text ∧
      ∀ d ∈ snakeAfter previous text, d.toNat < 128 ∧ d.isUpper = false ∧ d ≠ '-' := by
  induction text generalizing previous with
  | nil => exact ⟨rfl, by simp [snakeAfter]⟩
  | cons c rest ih =>
    obtain ⟨firstAscii, restAscii⟩ := forall_mem_cons.mp ascii
    obtain ⟨here, isHere, _, letters, facts⟩ := snakeAfter_cons previous rest firstAscii
    obtain ⟨later, laterFacts⟩ := ih (some c) restAscii
    rw [isHere, filter_append, letters, later, ← lettersWithout_append, singleton_append]
    exact ⟨rfl, forall_mem_append.mpr ⟨facts, laterFacts⟩⟩

/-- The first character only changes its case, unless it is a hyphen. -/
theorem snakeAfter_none (rest : List Char) (ascii : c.toNat < 128) (notDash : c ≠ '-') :
    snakeAfter none (c :: rest) = c.toLower :: snakeAfter (some c) rest := by
  have same : isUppercase c = c.isUpper := if_pos ascii
  rw [snakeAfter, if_neg notDash, same, startsWord, if_neg Bool.false_ne_true, lower, if_pos ascii]
  cases capital : c.isUpper with
  | true => rfl
  | false => rw [toLower_of_notCapital ascii capital]; rfl

/-- Snake case keeps what has neither capitals nor hyphens. -/
theorem snakeAfter_self (previous : Option Char)
    (small : ∀ c ∈ text, c.toNat < 128 ∧ c.isUpper = false ∧ c ≠ '-') :
    snakeAfter previous text = text := by
  induction text generalizing previous with
  | nil => rfl
  | cons c rest ih =>
    obtain ⟨⟨ascii, notCapital, notDash⟩, others⟩ := forall_mem_cons.mp small
    have same : isUppercase c = false := (if_pos ascii).trans notCapital
    rw [snakeAfter, if_neg notDash, same, ih (some c) others]
    rfl

end SchemaLang.Text
