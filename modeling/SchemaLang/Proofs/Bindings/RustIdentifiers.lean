import SchemaLang.Proofs.Bindings.RustNames
import SchemaLang.Proofs.Text.CaseConversion

/-!
# Identifiers in generated Rust

The identifiers of a generated file are made of the names of a registry by changing their case.
This loses the case and the separators of a name and nothing else, so two names that share an
identifier differ only there, with or without the underscore behind a keyword.

It does not always make an identifier that Rust takes. Names may consist of underscores, and may
have a digit behind leading ones; a definition may be named like the type of `self`; and of the
words that Rust keeps for itself only those that it uses already get an underscore.
-/

namespace SchemaLang

open Outcome List Registry Text Target

variable {registry reg : Registry}

/-! ## Shared identifiers -/

/-- The names of a registry are of the first 128 characters. -/
def Registry.IsAscii (registry : Registry) : Prop :=
  ∀ definition ∈ registry.definitions, Text.IsAscii definition.name ∧
    ∀ field ∈ definition.fields, Text.IsAscii field.name

theorem PlainName.isAscii {name : String} (plain : PlainName name) : Text.IsAscii name :=
  fun c member => (plain c member).toNat_lt

/-- The underscore behind a keyword is one of the characters that are left out. -/
theorem avoidKeyword_filter (identifier : String) :
    (avoidKeyword identifier).toList.filter (· ≠ '_') = identifier.toList.filter (· ≠ '_') := by
  unfold avoidKeyword
  split
  · rw [String.toList_append, filter_append]
    exact append_nil _
  · rfl

theorem letters_of_identifier {first second : Definition} (firstAscii : Text.IsAscii first.name)
    (secondAscii : Text.IsAscii second.name) (same : first.identifier = second.identifier) :
    lettersWithout ['.', '_', '-'] first.name.toList =
      lettersWithout ['.', '_', '-'] second.name.toList := by
  have sameChars := String.ofList_inj.mp same
  rw [← pascalChars_letters firstAscii, sameChars, pascalChars_letters secondAscii]

theorem letters_of_fieldIdentifier {first second : String} (firstAscii : Text.IsAscii first)
    (secondAscii : Text.IsAscii second)
    (same : rust.fieldIdentifier first = rust.fieldIdentifier second) :
    lettersWithout ['_', '-'] first.toList = lettersWithout ['_', '-'] second.toList := by
  have letters : ∀ name, Text.IsAscii name →
      (rust.fieldIdentifier name).toList.filter (· ≠ '_') =
        lettersWithout ['_', '-'] name.toList := by
    intro name ascii
    rw [fieldIdentifier, avoidKeyword_filter, snakeCase, String.toList_ofList,
      (snakeAfter_letters none ascii).1]
  rw [← letters first firstAscii, same, letters second secondAscii]

/-- Case conversion changes case and separators only. A name in Pascal case is in small letters the
name without separators. One in snake case is, without the underscores, the name in small letters
without underscores and hyphens; it has no capitals and no hyphens, and converting it again does not
change it. So the check of identifiers refuses a registry only for two definitions, or two fields of
one, the names of which differ in case and separators at most. The names of a registry that was
built from texts are always such. -/
theorem conversion_keeps_letters :
    (∀ name, Text.IsAscii name →
      (Text.pascalCase name).toList.map Char.toLower =
        Text.lettersWithout ['.', '_', '-'] name.toList ∧
      (Text.snakeCase name).toList.filter (· ≠ '_') = Text.lettersWithout ['_', '-'] name.toList ∧
      (∀ c ∈ (Text.snakeCase name).toList, c.isUpper = false ∧ c ≠ '-') ∧
      Text.snakeCase (Text.snakeCase name) = Text.snakeCase name) ∧
    (∀ (registry : Registry) fault, registry.IsAscii →
      Target.rust.checkIdentifiers registry = .error fault →
      (∃ first second, [first, second] <+ registry.definitions ∧
        Text.lettersWithout ['.', '_', '-'] first.name.toList =
          Text.lettersWithout ['.', '_', '-'] second.name.toList ∧
        fault = .unsupported .rust (.declarations first.name second.name second.identifier)
          second.location) ∨
      ∃ definition ∈ registry.definitions, ∃ first second, [first, second] <+ definition.fields ∧
        Text.lettersWithout ['_', '-'] first.name.toList =
          Text.lettersWithout ['_', '-'] second.name.toList ∧
        fault = .unsupported .rust (.fields first.name second.name definition.name
          (Target.rust.fieldIdentifier second.name)) second.location) ∧
    ∀ (context : ImportContext) path closure registry,
      (context.closureOf path = .ok closure ∨
        ∃ text, context.closureOfText text path = .ok closure) →
      Registry.build closure.declarations = .ok registry → registry.IsAscii := by
  refine ⟨fun name ascii => ?_, fun registry fault ascii failed => ?_,
    fun context path closure registry collected built => ?_⟩
  · obtain ⟨letters, facts⟩ := snakeAfter_letters none ascii
    rw [pascalCase, snakeCase, String.toList_ofList, String.toList_ofList]
    refine ⟨pascalChars_letters ascii, letters, fun c member => (facts c member).2, ?_⟩
    rw [snakeCase, String.toList_ofList, snakeAfter_self none facts]
  · rcases (rust.checkIdentifiers_decides registry).failsOnly fault failed with
      ⟨first, second, inOrder, same, isFault⟩ |
        ⟨definition, member, first, second, inOrder, same, isFault⟩
    · have firstAscii := (ascii first (inOrder.subset (by simp))).1
      have secondAscii := (ascii second (inOrder.subset (by simp))).1
      exact .inl
        ⟨first, second, inOrder, letters_of_identifier firstAscii secondAscii same, isFault⟩
    · have firstAscii := (ascii definition member).2 first (inOrder.subset (by simp))
      have secondAscii := (ascii definition member).2 second (inOrder.subset (by simp))
      exact .inr ⟨definition, member, first, second, inOrder,
        letters_of_fieldIdentifier firstAscii secondAscii same, isFault⟩
  · obtain ⟨proper, _⟩ := sound_of_closure collected built
    exact fun definition member => ⟨(proper.plain definition member).isAscii,
      fun field isField => (proper.plainFields definition member field isField).isAscii⟩

/-- Two enums that share an identifier. -/
def sharedIdentifier : ImportContext where
  tree := ⟨[(["a.sdl"], .file (.text "enum aB \x7b x \x7d\nenum a-b \x7b y \x7d"))], []⟩
  root := ⟨"/"⟩
  entryFileName := "index.sdl"

/-- They are refused, and their names are the same without case and separators. -/
theorem sharedIdentifier_refused :
    Text.snakeCase (Text.snakeCase "sessionID") = Text.snakeCase "sessionID" ∧
    ∃ closure registry first second, sharedIdentifier.closureOf ⟨"/a.sdl"⟩ = .ok closure ∧
      Registry.build closure.declarations = .ok registry ∧ registry.definitions = [first, second] ∧
      Text.lettersWithout ['.', '_', '-'] first.name.toList =
        Text.lettersWithout ['.', '_', '-'] second.name.toList ∧
      Target.rust.checkIdentifiers registry = .error (.unsupported .rust
        (.declarations first.name second.name second.identifier) second.location) := by
  obtain ⟨converted, refused, built⟩ := conversion_keeps_letters
  refine ⟨(converted "sessionID" (by decide)).2.2.2, ?_⟩
  obtain ⟨closure, collected, made⟩ := ok_of_view
    (show (sharedIdentifier.closureOf ⟨"/a.sdl"⟩).toOption.map (fun closure =>
        (build closure.declarations).toOption.map fun registry =>
          ((rust.checkIdentifiers registry).toOption.isSome,
            registry.definitions.map (·.fields.length))) =
      some (some (false, [0, 0])) by decide +kernel)
  obtain ⟨registry, isBuilt, view⟩ := ok_of_view made
  obtain ⟨isRefused, noFields⟩ := Prod.mk.inj view
  have ascii := built sharedIdentifier ⟨"/a.sdl"⟩ closure registry (.inl collected) isBuilt
  cases failed : rust.checkIdentifiers registry with
  | ok done =>
    rw [failed] at isRefused
    cases isRefused
  | error fault =>
    rcases refused registry fault ascii failed with
      ⟨first, second, inOrder, same, rfl⟩ | ⟨definition, member, first, second, inOrder, _⟩
    · have whole : [first, second] = registry.definitions :=
        inOrder.eq_of_length (by simpa using (congrArg length noFields).symm)
      exact ⟨closure, registry, first, second, collected, isBuilt, whole.symm, same, failed⟩
    · have counted : definition.fields.length ∈ [0, 0] := noFields ▸ mem_map_of_mem member
      have none : definition.fields = [] := by simpa using counted
      rw [none] at inOrder
      cases inOrder

/-! ## Legal identifiers -/

namespace Text

/-- Whether the first character of a name that is no separator is there and is a letter. -/
def startsWithLetter (name : String) : Bool :=
  (name.toList.find? (· ∉ ['.', '_', '-'])).any Char.isAlpha

variable {name : String}

/-- A name in Pascal case is made of letters and digits. -/
theorem pascalCase_alphanum (plain : PlainName name) :
    ∀ c ∈ (pascalCase name).toList, c.isAlphanum = true := by
  intro c member
  have isNameChar := pascalCase_plain plain c member
  rw [pascalCase, String.toList_ofList] at member
  have lowered : c.toLower ∈ lettersWithout ['.', '_', '-'] name.toList :=
    pascalChars_letters plain.isAscii ▸ mem_map_of_mem member
  obtain ⟨d, inName, same⟩ := mem_map.mp lowered
  obtain ⟨listed, noSeparator⟩ := mem_filter.mp inName
  have letter : d.isAlphanum = true := by
    rcases plain d listed with isLetter | isSeparator
    · exact isLetter
    · rcases isSeparator with rfl | rfl | rfl <;> cases noSeparator
  have kept : d.toLower.isAlphanum = true := (plain d listed).forall_of
    (fun c => c.isAlphanum = true → c.toLower.isAlphanum = true) (by decide) letter
  exact isNameChar.forall_of (fun c => c.toLower.isAlphanum = true → c.isAlphanum = true)
    (by decide) (same ▸ kept)

/-- It starts with a capital letter exactly if the name starts with a letter. -/
theorem pascalCase_capital (plain : PlainName name) :
    (pascalCase name).toList.head?.any Char.isUpper = startsWithLetter name := by
  have isAlpha : ∀ c, IsNameChar c → c.toLower.isLower = c.isAlpha := fun c isNameChar =>
    isNameChar.forall_of (fun c => c.toLower.isLower = c.isAlpha) (by decide)
  have heads : (pascalCase name).toList.head?.map Char.toLower =
      (name.toList.find? (· ∉ ['.', '_', '-'])).map Char.toLower := by
    rw [← head?_map, pascalCase, String.toList_ofList, pascalChars_letters plain.isAscii,
      lettersWithout, head?_map, head?_filter]
  have headPlain : ∀ c ∈ (pascalCase name).toList.head?, IsNameChar c ∧ c.isLower = false :=
    fun c isHead =>
      ⟨pascalCase_plain plain c (mem_of_mem_head? isHead), pascalCase_head plain isHead⟩
  have foundPlain : ∀ c ∈ name.toList.find? (· ∉ ['.', '_', '-']), IsNameChar c :=
    fun c found => plain c (mem_of_find?_eq_some found)
  unfold startsWithLetter
  generalize (pascalCase name).toList.head? = head? at heads headPlain ⊢
  generalize name.toList.find? (· ∉ ['.', '_', '-']) = found? at heads foundPlain ⊢
  cases head? with
  | none =>
    cases found? with
    | none => rfl
    | some found => cases heads
  | some head =>
    cases found? with
    | none => cases heads
    | some found =>
      obtain ⟨isNameChar, notSmall⟩ := headPlain head rfl
      have capital : head.isUpper = head.isAlpha := isNameChar.forall_of
        (fun c => c.isLower = false → c.isUpper = c.isAlpha) (by decide) notSmall
      rw [Option.any_some, Option.any_some, capital, ← isAlpha head isNameChar,
        ← isAlpha found (foundPlain found rfl), Option.some.inj heads]

end Text

namespace RustBindings

/-- The words that Rust keeps without using them. -/
def futureKeywords : List String :=
  ["abstract", "become", "box", "do", "final", "macro", "override", "priv", "try", "typeof",
    "unsized", "virtual", "yield"]

/-- An identifier of Rust: letters, digits and underscores, not starting with a digit, more than an
underscore, and no keyword. -/
def IsLegal (name : String) : Prop :=
  name ≠ "" ∧ name ≠ "_" ∧ (∀ c ∈ name.toList, c.isAlphanum = true ∨ c = '_') ∧
    name.toList.head?.any Char.isDigit = false ∧ name ∉ rustKeywords ++ futureKeywords

/-- A capital letter with letters and digits behind it. -/
def IsCapitalized (name : String) : Prop :=
  name.toList.head?.any Char.isUpper = true ∧ ∀ c ∈ name.toList, c.isAlphanum = true

instance (name : String) : Decidable (IsCapitalized name) :=
  have := List.decidableBAll (fun c : Char => c.isAlphanum = true) name.toList
  inferInstanceAs (Decidable (_ ∧ _))

variable {name : String}

/-- A capital letter in front is not lost by what stands behind. -/
theorem IsCapitalized.append (capitalized : IsCapitalized name) {more : String}
    (letters : ∀ c ∈ more.toList, c.isAlphanum = true) : IsCapitalized (name ++ more) := by
  obtain ⟨capital, own⟩ := capitalized
  unfold IsCapitalized
  rw [String.toList_append]
  refine ⟨?_, forall_mem_append.mpr ⟨own, letters⟩⟩
  cases chars : name.toList with
  | nil =>
    rw [chars] at capital
    cases capital
  | cons first rest =>
    rw [chars] at capital
    exact capital

/-- A capitalized identifier is legal, except for one keyword. -/
theorem IsCapitalized.isLegal_iff (capitalized : IsCapitalized name) :
    IsLegal name ↔ name ≠ "Self" := by
  obtain ⟨capital, letters⟩ := capitalized
  have onlySelf : ∀ word ∈ rustKeywords ++ futureKeywords,
      word.toList.head?.any Char.isUpper = true → word = "Self" := by decide
  refine ⟨fun legal same => legal.2.2.2.2 (by rw [same]; decide), fun other => ?_⟩
  refine ⟨?_, ?_, fun c member => .inl (letters c member), ?_, fun keyword => ?_⟩
  · rintro rfl
    cases capital
  · rintro rfl
    cases capital
  · obtain ⟨first, isFirst, isCapital⟩ := (Option.any_eq_true _ _).mp capital
    rw [isFirst, Option.any_some]
    exact (isNameChar_of_isUpper isCapital).forall_of
      (fun c => c.isUpper = true → c.isDigit = false) (by decide) isCapital
  · exact other (onlySelf name keyword capital)

instance (name : String) : Decidable (IsLegal name) :=
  have := List.decidableBAll (fun c : Char => c.isAlphanum = true ∨ c = '_') name.toList
  inferInstanceAs (Decidable (_ ∧ _))

/-- A capitalized identifier that is no keyword. -/
def IsTypeName (name : String) : Prop := IsCapitalized name ∧ name ≠ "Self"

theorem IsTypeName.isLegal (isTypeName : IsTypeName name) : IsLegal name :=
  isTypeName.1.isLegal_iff.mpr isTypeName.2

/-- What is put behind the name of a type does not make a keyword of it. -/
theorem IsTypeName.append (isTypeName : IsTypeName name) {more : String}
    (letters : ∀ c ∈ more.toList, c.isAlphanum = true)
    (notSmall : ∀ c, more.toList.head? = some c → c.isLower = false) :
    IsTypeName (name ++ more) := by
  obtain ⟨capitalized, other⟩ := isTypeName
  refine ⟨capitalized.append letters, fun same => ?_⟩
  have titled : isTitle (name.toList ++ more.toList) = true := by
    rw [← String.toList_append, same]
    decide
  have started : name.toList ≠ [] := by
    intro nothing
    have capital := capitalized.1
    rw [nothing] at capital
    cases capital
  have nothing := nil_of_isTitle_append titled started notSmall
  rw [String.toList_eq_nil_iff.mp nothing, String.append_empty] at same
  exact other same

/-- A name in Pascal case is a legal identifier if the name starts with a letter, except for the
names that become a keyword. -/
theorem isTypeName_iff (plain : PlainName name) : IsTypeName (pascalCase name) ↔
    startsWithLetter name = true ∧ ¬ Text.Spells name "Self" := by
  have isTitled : isTitle "Self".toList = true := by decide
  rw [IsTypeName, IsCapitalized, pascalCase_capital plain, Ne, pascalCase_eq_iff plain isTitled]
  exact and_congr_left fun _ => and_iff_left (pascalCase_alphanum plain)

theorem isTypeName_of_isLegal (plain : PlainName name) (legal : IsLegal (pascalCase name)) :
    IsTypeName (pascalCase name) := by
  have letters := pascalCase_alphanum plain
  obtain ⟨filled, _, _, noDigit, noKeyword⟩ := legal
  refine ⟨⟨?_, letters⟩, fun same => noKeyword (by rw [same]; decide)⟩
  cases isHead : (pascalCase name).toList.head? with
  | none => exact absurd (String.toList_eq_nil_iff.mp (head?_eq_none_iff.mp isHead)) filled
  | some c =>
    have member := mem_of_mem_head? isHead
    rw [isHead, Option.any_some] at noDigit
    exact (pascalCase_plain plain c member).forall_of (fun c => c.isAlphanum = true →
      c.isDigit = false → c.isLower = false → c.isUpper = true) (by decide) (letters c member)
      noDigit (pascalCase_head plain isHead)

/-- The identifier of a definition is legal exactly if it is the name of a type. -/
theorem pascalCase_isLegal_iff (plain : PlainName name) : IsLegal (pascalCase name) ↔
    startsWithLetter name = true ∧ ¬ Text.Spells name "Self" := by
  rw [← isTypeName_iff plain]
  exact ⟨isTypeName_of_isLegal plain, IsTypeName.isLegal⟩

/-- The identifier of a member is legal exactly if the member starts with a letter. -/
theorem memberIdentifier_isLegal_iff (plain : PlainName name) :
    IsLegal (memberIdentifier name) ↔ startsWithLetter name = true := by
  have keywords : ∀ word ∈ rustKeywords,
      word = "Self" ∨ word.toList.head?.any Char.isLower = true := by decide
  unfold memberIdentifier avoidKeyword
  split
  · rename_i contained
    have isSelf : pascalCase name = "Self" := by
      refine (keywords _ (by simpa using contained)).resolve_right fun small => ?_
      obtain ⟨c, isHead, isSmall⟩ := (Option.any_eq_true _ _).mp small
      rw [pascalCase_head plain isHead] at isSmall
      cases isSmall
    rw [← pascalCase_capital plain, isSelf]
    exact iff_of_true (by decide) (by decide)
  · rename_i notContained
    have notSelf : ¬ Text.Spells name "Self" := by
      rw [← pascalCase_eq_iff plain (by decide)]
      intro isSelf
      rw [isSelf] at notContained
      exact notContained (by decide)
    rw [pascalCase_isLegal_iff plain, and_iff_left notSelf]

/-- An identifier in snake case is a legal one, except for an underscore and for keywords. -/
theorem snakeCase_isLegal_iff (isIdentifier : IsIdentifier name) : IsLegal (snakeCase name) ↔
    snakeCase name ≠ "_" ∧ snakeCase name ∉ rustKeywords ++ futureKeywords := by
  obtain ⟨first, body, isName, starts, continues⟩ := isIdentifier.exists_cons
  have isNameChar := isIdentifier.plain first (isName ▸ mem_cons_self)
  have facts : first ≠ '-' ∧ first.toLower.isDigit = false := isNameChar.forall_of
    (fun c => Lexeme.startsIdentifier c = true → c ≠ '-' ∧ c.toLower.isDigit = false)
    (by decide) starts
  have chars : (snakeCase name).toList = snakeAfter none name.toList := String.toList_ofList
  have spelled : (snakeCase name).toList =
      first.toLower :: snakeAfter (some first) body := by
    rw [chars, isName, snakeAfter_none body isNameChar.toNat_lt facts.1]
  refine ⟨fun legal => ⟨legal.2.1, legal.2.2.2.2⟩, fun both => ⟨?_, both.1, ?_, ?_, both.2⟩⟩
  · intro nothing
    rw [nothing] at spelled
    cases spelled
  · intro c member
    by_cases line : c = '_'
    · exact .inr line
    · have letter : c ∈ lettersWithout ['_', '-'] name.toList := by
        rw [← (snakeAfter_letters none isIdentifier.plain.isAscii).1, ← chars]
        exact mem_filter.mpr ⟨member, by simpa using line⟩
      obtain ⟨d, inName, rfl⟩ := mem_map.mp letter
      obtain ⟨listed, noSeparator⟩ := mem_filter.mp inName
      have isLetter : d.isAlphanum = true := by
        simpa [Lexeme.continuesIdentifier, show d ≠ '_' ∧ d ≠ '-' by simpa using noSeparator] using
          continues d listed
      exact .inl ((isIdentifier.plain d listed).forall_of
        (fun c => c.isAlphanum = true → c.toLower.isAlphanum = true) (by decide) isLetter)
  · rw [spelled, head?_cons, Option.any_some, facts.2]

/-- The identifier of a field is legal exactly if snake case does not make an underscore of the
field, or one of the words that Rust keeps without using them. -/
theorem fieldIdentifier_isLegal_iff (isIdentifier : IsIdentifier name) :
    IsLegal (rust.fieldIdentifier name) ↔
      snakeCase name ≠ "_" ∧ snakeCase name ∉ futureKeywords := by
  rw [fieldIdentifier, avoidKeyword]
  split
  · rename_i contained
    have keyword : snakeCase name ∈ rustKeywords := by simpa using contained
    have escaped : ∀ word ∈ rustKeywords,
        IsLegal (word ++ "_") ∧ word ≠ "_" ∧ word ∉ futureKeywords := by decide +kernel
    exact iff_of_true (escaped _ keyword).1 (escaped _ keyword).2
  · rename_i notContained
    have noKeyword : snakeCase name ∉ rustKeywords := by simpa using notContained
    rw [snakeCase_isLegal_iff isIdentifier, mem_append, or_iff_right noKeyword]

/-- The variant for an arm is the name of a type if all identifiers of definitions are. -/
theorem variantName_isTypeName {ctx : FieldContext}
    (types : ∀ defn ∈ ctx.registry.definitions, IsTypeName defn.identifier)
    {arm : FieldType Nat} {name : String} (named : variantName ctx arm = .ok name) :
    IsTypeName name := by
  have keywords : ∀ kind : Primitive, IsTypeName (pascalCase kind.keyword) := by
    intro kind
    rw [isTypeName_iff (keyword_plain kind)]
    cases kind <;> decide
  match arm with
  | .primitive kind =>
    obtain rfl := Except.ok.inj named
    exact keywords kind
  | .range kind least greatest =>
    obtain rfl := Except.ok.inj named
    exact keywords kind.primitive
  | .reference id =>
    obtain ⟨defn, found, rfl⟩ := map_ok_iff.mp named
    exact types defn (mem_of_getElem? (definition_ok_iff.mp found))
  | .array item =>
    obtain ⟨inner, isInner, rfl⟩ := map_ok_iff.mp named
    have isTypeName := variantName_isTypeName types isInner
    have behind : IsCapitalized "List" := by decide
    refine isTypeName.append behind.2 fun c isHead => ?_
    cases isHead
    decide
  | .optional inner =>
    rw [variantName] at named
    exact variantName_isTypeName types named
  | .union arms => cases named

/-- What the names of a definition have to be for the identifiers made of them to be legal. -/
def HasLegalNames (definition : Definition) : Prop :=
  (startsWithLetter definition.name = true ∧ ¬ Text.Spells definition.name "Self") ∧
  (∀ member ∈ definition.members, startsWithLetter member = true) ∧
  ∀ field ∈ definition.fields,
    snakeCase field.name ≠ "_" ∧ snakeCase field.name ∉ futureKeywords

instance (definition : Definition) : Decidable (HasLegalNames definition) :=
  inferInstanceAs (Decidable (_ ∧ _))

/-- The identifiers of an item: its own, and those of its entries. -/
def identifiers (item : Listing.Item) : List String :=
  item.name :: item.entries.map Listing.Entry.name

/-- The identifiers of the own type of a definition are legal exactly if its names are such. -/
theorem ownItem_isLegal_iff (proper : reg.Proper) (shaped : reg.Shaped) {id : Nat}
    {defn : Definition} (isDefined : defn ∈ reg.definitions) :
    (∀ name ∈ identifiers (ownItem reg id defn), IsLegal name) ↔ HasLegalNames defn := by
  have plainMembers := shaped.members defn isDefined
  have named := shaped.named defn isDefined
  rw [identifiers, forall_mem_cons, (ownItem_declared reg id defn).2, Definition.identifier,
    pascalCase_isLegal_iff (proper.plain defn isDefined), HasLegalNames, and_congr_right_iff]
  intro _
  unfold ownItem Definition.members
  unfold Definition.fields at named ⊢
  cases body : defn.body with
  | enumeration members =>
    simp only [map_map, forall_mem_map, Function.comp_apply, memberEntry_name]
    rw [and_iff_left (by simp)]
    exact forall₂_congr fun member listed =>
      memberIdentifier_isLegal_iff (plainMembers members body member listed)
  | record content =>
    rw [body] at named
    simp only [map_map, forall_mem_map, Function.comp_apply, fieldEntry_name]
    rw [and_iff_right (by simp)]
    exact forall₂_congr fun field listed => fieldIdentifier_isLegal_iff (named field listed)

/-- The identifiers of the choice on a field are legal if those of all definitions are. -/
theorem unionItems_isLegal (proper : reg.Proper) (shaped : reg.Shaped)
    (types : ∀ defn ∈ reg.definitions, IsTypeName defn.identifier) {id : Nat}
    {defn : Definition} (isDefined : defn ∈ reg.definitions) {field : DefinedField}
    (isField : field ∈ defn.fields) {item : Listing.Item}
    (isUnion : item ∈ unionItems ⟨reg, id, defn, field⟩) :
    ∀ name ∈ identifiers item, IsLegal name := by
  have plain := proper.plainFields defn isDefined field isField
  rcases (shaped.types defn isDefined field isField).required with
    ⟨arms, isChoice, areArms⟩ | isArm
  · have covers : (FieldContext.mk reg id defn field).registry.Covers
        field.type.required :=
      Registry.Covers.required (proper.linked defn isDefined field isField)
    rw [isChoice] at covers
    rw [unionItems, isChoice, mem_singleton] at isUnion
    subst isUnion
    refine forall_mem_cons.mpr ⟨?_, ?_⟩
    · exact ((types defn isDefined).append (pascalCase_alphanum plain) fun c =>
        pascalCase_head plain).isLegal
    · rw [map_map, forall_mem_map]
      intro arm listed
      have named := variantName_of_isArm (areArms arm listed) (covers.arms arm listed)
      exact (variantName_isTypeName types named).isLegal
  · rw [unionItems_of_isArm isArm] at isUnion
    cases isUnion

/-- The identifiers in a generated file are all legal exactly if the names of the source are such:
the name of every definition and of every member has a letter as its first character that is no
separator, no definition spells `Self`, and snake case makes of no field an underscore or one of the
words that Rust keeps without using them. -/
theorem rust_identifiers_legal_iff {context : ImportContext} {path : Path} {closure : Closure}
    (collected : context.closureOf path = .ok closure ∨
      ∃ text, context.closureOfText text path = .ok closure)
    (built : Registry.build closure.declarations = .ok registry) {text : String}
    (generated : Target.rust.generate registry = .ok text) :
    ∃ items, language.items? text = some items ∧
      ((∀ item ∈ items, ∀ name ∈ identifiers item, IsLegal name) ↔
        ∀ definition ∈ registry.definitions, HasLegalNames definition) := by
  obtain ⟨proper, shaped⟩ := sound_of_closure collected built
  refine ⟨allItems registry, generate_items proper shaped generated, ?_, ?_⟩
  · intro legal definition isDefined
    obtain ⟨id, numbered⟩ := exists_numbered isDefined
    refine (ownItem_isLegal_iff proper shaped isDefined).mp (legal (ownItem registry id _) ?_)
    exact mem_flatMap.mpr ⟨_, numbered, mem_cons_self⟩
  · intro names item listed
    have types : ∀ definition ∈ registry.definitions, IsTypeName definition.identifier :=
      fun definition isDefined =>
        (isTypeName_iff (proper.plain definition isDefined)).mpr (names definition isDefined).1
    obtain ⟨id, definition, isDefined, _, rfl | ⟨field, isField, isUnion⟩⟩ := mem_allItems listed
    · exact (ownItem_isLegal_iff proper shaped isDefined).mpr (names definition isDefined)
    · exact unionItems_isLegal proper shaped types isDefined isField isUnion

/-- Names that need an underscore behind them or lose their separators, and a choice on a field. -/
def awkwardNames : ImportContext where
  tree := ⟨[
    (["a.sdl"], .file (.text
      ("import \"./b\" as m\ntype _car-part \x7b fn: m.Level[] | string ? trY: integer " ++
        "self_: boolean _2nd: date \x7d"))),
    (["b.sdl"], .file (.text "enum Level \x7b self HIGH-2 \x7d"))], []⟩
  root := ⟨"/"⟩
  entryFileName := "index.sdl"

/-- All of their identifiers are legal. -/
theorem awkwardNames_legal :
    ∃ closure registry text items, awkwardNames.closureOf ⟨"/a.sdl"⟩ = .ok closure ∧
      Registry.build closure.declarations = .ok registry ∧
      Target.rust.generate registry = .ok text ∧ language.items? text = some items ∧
      ∀ item ∈ items, ∀ name ∈ identifiers item, IsLegal name := by
  obtain ⟨closure, collected, made⟩ := ok_of_view
    (show (awkwardNames.closureOf ⟨"/a.sdl"⟩).toOption.map (fun closure =>
        (build closure.declarations).toOption.map fun registry =>
          ((rust.generate registry).toOption.isSome,
            decide (∀ definition ∈ registry.definitions, HasLegalNames definition))) =
      some (some (true, true)) by decide +kernel)
  obtain ⟨registry, built, view⟩ := ok_of_view made
  obtain ⟨isGenerated, areLegal⟩ := Prod.mk.inj view
  obtain ⟨text, generated⟩ := ok_of_isSome isGenerated
  obtain ⟨items, read, exactly⟩ := rust_identifiers_legal_iff (.inl collected) built generated
  exact ⟨closure, registry, text, items, collected, built, generated, read,
    exactly.mpr (of_decide_eq_true areLegal)⟩

/-- A field named by a word that Rust keeps without using it is not refused, and is no legal
identifier. -/
theorem field_named_try_is_illegal :
    ∃ closure registry text items,
      (ImportContext.mk ⟨[], []⟩ ⟨"/"⟩ "index.sdl").closureOfText
        "type T \x7b try: string \x7d" ⟨"/a.sdl"⟩ = .ok closure ∧
      Registry.build closure.declarations = .ok registry ∧
      Target.rust.generate registry = .ok text ∧ language.items? text = some items ∧
      items.flatMap identifiers = ["T", "try"] ∧ ¬ IsLegal "try" := by
  obtain ⟨closure, collected, made⟩ := ok_of_view
    (show ((ImportContext.mk ⟨[], []⟩ ⟨"/"⟩ "index.sdl").closureOfText
        "type T \x7b try: string \x7d" ⟨"/a.sdl"⟩).toOption.map (fun closure =>
        (build closure.declarations).toOption.map fun registry =>
          ((rust.generate registry).toOption.isSome,
            (allItems registry).flatMap identifiers)) =
      some (some (true, ["T", "try"])) by decide +kernel)
  obtain ⟨registry, built, view⟩ := ok_of_view made
  obtain ⟨isGenerated, names⟩ := Prod.mk.inj view
  obtain ⟨text, generated⟩ := ok_of_isSome isGenerated
  obtain ⟨proper, shaped⟩ := sound_of_closure (.inr ⟨_, collected⟩) built
  exact ⟨closure, registry, text, allItems registry, collected, built, generated,
    generate_items proper shaped generated, names, by decide⟩

end RustBindings

end SchemaLang
