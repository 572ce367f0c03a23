import SchemaLang.Bindings.Rust
import SchemaLang.Proofs.Declaration.Proper

/-!
# Identifiers from plain names

Changing the case of a plain name gives a plain name again, so identifiers in generated text hold
no character that has a meaning there: no blank, no line end, no bracket, colon, comma or quote.
-/

namespace SchemaLang

open List

instance (c : Char) : Decidable (IsNameChar c) := inferInstanceAs (Decidable (_ ∨ _))

instance (name : String) : Decidable (PlainName name) :=
  List.decidableBAll IsNameChar name.toList

/-- Joining plain names gives a plain name. -/
theorem PlainName.append {first second : String} (plain : PlainName first)
    (alsoPlain : PlainName second) : PlainName (first ++ second) := by
  intro c member
  rw [String.toList_append, mem_append] at member
  exact member.elim (plain c) (alsoPlain c)

/-- The characters of names are among the first of all. -/
theorem IsNameChar.toNat_lt {c : Char} (isNameChar : IsNameChar c) : c.toNat < 128 := by
  rcases isNameChar with isAlphanum | rfl | rfl | rfl
  · delta Char.isAlphanum Char.isAlpha Char.isUpper Char.isLower Char.isDigit at isAlphanum
    simp only [Bool.or_eq_true, Bool.and_eq_true, decide_eq_true_eq, ge_iff_le,
      UInt32.le_iff_toNat_le] at isAlphanum
    show c.val.toNat < 128
    have capital : 'Z'.val.toNat = 90 := rfl
    have small : 'z'.val.toNat = 122 := rfl
    have digit : '9'.val.toNat = 57 := rfl
    omega
  · decide
  · decide
  · decide

/-- What holds of the first characters, one by one. -/
theorem forall_of_ascii (property : Char → Prop) (each : ∀ code < 128, property (Char.ofNat code))
    {c : Char} (ascii : c.toNat < 128) : property c := by
  have holds := each c.toNat ascii
  rwa [Char.ofNat_toNat] at holds

theorem IsNameChar.forall_of (property : Char → Prop)
    (each : ∀ code < 128, IsNameChar (Char.ofNat code) → property (Char.ofNat code)) {c : Char}
    (isNameChar : IsNameChar c) : property c :=
  forall_of_ascii (fun c => IsNameChar c → property c) each isNameChar.toNat_lt isNameChar

variable {word text : List Char}

namespace Text

variable {c : Char} {name : String}

theorem lower_plain (isNameChar : IsNameChar c) : ∀ d ∈ lower c, IsNameChar d := by
  rw [lower, if_pos isNameChar.toNat_lt, forall_mem_singleton]
  exact isNameChar.forall_of (fun c => IsNameChar c.toLower) (by decide)

theorem capitalize_cons {first : Char} {rest : List Char} (ascii : first.toNat < 128) :
    capitalize (first :: rest) = first.toUpper :: rest := by
  rw [capitalize, upper, if_pos ascii, singleton_append]

theorem capitalize_plain (plain : ∀ c ∈ word, IsNameChar c) :
    ∀ c ∈ capitalize word, IsNameChar c := by
  cases word with
  | nil => exact plain
  | cons first rest =>
    obtain ⟨firstPlain, restPlain⟩ := forall_mem_cons.mp plain
    rw [capitalize_cons firstPlain.toNat_lt]
    refine forall_mem_cons.mpr ⟨?_, restPlain⟩
    exact firstPlain.forall_of (fun c => IsNameChar c.toUpper) (by decide)

theorem lowerAfter_map {before : List Char} (ascii : ∀ c ∈ text, c.toNat < 128) :
    lowerAfter before text = text.map Char.toLower := by
  induction text generalizing before with
  | nil => rfl
  | cons first rest ih =>
    obtain ⟨small, others⟩ := forall_mem_cons.mp ascii
    rw [lowerAfter, if_neg (by omega), lower, if_pos small, ih others, map_cons, singleton_append]

theorem lowerAfter_plain {before : List Char} (plain : ∀ c ∈ text, IsNameChar c) :
    ∀ c ∈ lowerAfter before text, IsNameChar c := by
  rw [lowerAfter_map fun c member => (plain c member).toNat_lt]
  refine forall_mem_map.mpr fun c member => ?_
  exact (plain c member).forall_of (fun c => IsNameChar c.toLower) (by decide)

/-- The words of a text are made of its characters. -/
theorem mem_of_mem_words (isWord : word ∈ words text) (member : c ∈ word) : c ∈ text := by
  induction text generalizing word with
  | nil =>
    rw [words, mem_singleton] at isWord
    rw [isWord] at member
    exact member
  | cons first rest ih =>
    rw [words] at isWord
    split at isWord
    · rcases mem_cons.mp isWord with rfl | later
      · cases member
      · exact mem_cons_of_mem _ (ih later member)
    · split at isWord
      · rw [mem_singleton.mp isWord, mem_singleton] at member
        exact member ▸ mem_cons_self
      · rename_i next others inWords
        rcases mem_cons.mp isWord with rfl | later
        · rcases mem_cons.mp member with rfl | inNext
          · exact mem_cons_self
          · refine mem_cons_of_mem _ (ih ?_ inNext)
            exact inWords ▸ mem_cons_self
        · refine mem_cons_of_mem _ (ih ?_ member)
          exact inWords ▸ mem_cons_of_mem _ later

/-- A plain name in Pascal case is plain. -/
theorem pascalCase_plain (plain : PlainName name) : PlainName (pascalCase name) := by
  intro c member
  rw [pascalCase, String.toList_ofList, pascalChars, mem_flatMap] at member
  obtain ⟨word, isWord, inside⟩ := member
  have wordPlain : ∀ d ∈ word, IsNameChar d := fun d inWord =>
    plain d (mem_of_mem_words (mem_of_mem_filter isWord) inWord)
  rw [pascalWord] at inside
  split at inside
  · exact capitalize_plain wordPlain c inside
  · exact capitalize_plain (lowerAfter_plain wordPlain) c inside

theorem capitalize_head (plain : ∀ d ∈ word, IsNameChar d)
    (isHead : (capitalize word).head? = some c) : c.isLower = false := by
  cases word with
  | nil => cases isHead
  | cons first rest =>
    have isNameChar := plain first mem_cons_self
    rw [capitalize_cons isNameChar.toNat_lt] at isHead
    cases isHead
    exact isNameChar.forall_of (fun c => c.toUpper.isLower = false) (by decide)

/-- A plain name in Pascal case does not start with a small letter. -/
theorem pascalCase_head (plain : PlainName name)
    (isHead : (pascalCase name).toList.head? = some c) : c.isLower = false := by
  have wordsPlain : ∀ word ∈ (words name.toList).filter (!·.isEmpty), ∀ d ∈ word, IsNameChar d :=
    fun word isWord d inWord => plain d (mem_of_mem_words (mem_of_mem_filter isWord) inWord)
  rw [pascalCase, String.toList_ofList, pascalChars] at isHead
  generalize (words name.toList).filter (!·.isEmpty) = parts at isHead wordsPlain
  induction parts with
  | nil => cases isHead
  | cons word others ih =>
    obtain ⟨wordPlain, othersPlain⟩ := forall_mem_cons.mp wordsPlain
    rw [flatMap_cons, head?_append] at isHead
    rcases Option.or_eq_some_iff.mp isHead with first | ⟨_, later⟩
    · rw [pascalWord] at first
      split at first
      · exact capitalize_head wordPlain first
      · exact capitalize_head (lowerAfter_plain wordPlain) first
    · exact ih later othersPlain

theorem snakeAfter_plain {previous : Option Char}
    (plain : ∀ c ∈ text, IsNameChar c) : ∀ c ∈ snakeAfter previous text, IsNameChar c := by
  induction text generalizing previous with
  | nil => exact plain
  | cons first rest ih =>
    obtain ⟨firstPlain, restPlain⟩ := forall_mem_cons.mp plain
    have underscore : IsNameChar '_' := .inr (.inl rfl)
    refine forall_mem_append.mpr ⟨?_, ih restPlain⟩
    split
    · exact forall_mem_singleton.mpr underscore
    · split
      · split
        · exact forall_mem_cons.mpr ⟨underscore, lower_plain firstPlain⟩
        · exact lower_plain firstPlain
      · exact forall_mem_singleton.mpr firstPlain

/-- A plain name in snake case is plain. -/
theorem snakeCase_plain (plain : PlainName name) : PlainName (snakeCase name) := by
  intro c member
  rw [snakeCase, String.toList_ofList] at member
  exact snakeAfter_plain plain c member

end Text

theorem avoidKeyword_plain {identifier : String} (plain : PlainName identifier) :
    PlainName (avoidKeyword identifier) := by
  unfold avoidKeyword
  split
  · exact plain.append (by decide)
  · exact plain

end SchemaLang
