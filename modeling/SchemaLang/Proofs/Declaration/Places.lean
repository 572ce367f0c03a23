import SchemaLang.Proofs.Declaration.Phrases

/-!
# Where declarations stand

What is read has its places from the tokens. A declaration, its fields, its rules and their
constraints stand at tokens of its phrase. The names of declarations are tokens of the text, in
the order of the declarations.
-/

namespace SchemaLang

open List

/-- Where an error stands, if it is about a place. -/
def Error.location? : Error → Option Location
  | .characters _ location => some location
  | .unterminatedString location => some location
  | .unexpected found _ => some found.location
  | .moduleNotFound _ _ location? => location?
  | .duplicateDeclaration _ location _ => some location
  | .multipleEntries _ _ location => some location
  | .unresolvedReference _ _ _ location => some location
  | .unknownConstraint _ location => some location
  | .invalidConstraint _ location => some location
  | .conflictingConstraint _ _ _ location => some location
  | .unsupported _ _ location => some location
  | .file _ => none
  | .circularImport _ => none
  | .unknownTarget _ => none
  | .configuration _ _ => none
  | .internal _ => none

/-- Where a rule and its constraints stand. -/
def Rule.places (rule : Rule) : List Location := rule.location :: rule.calls.map Call.location

namespace Declaration

/-- Where a declaration stands, and its fields, its rules and their constraints. -/
def places : Declaration → List Location
  | .moduleImport content => [content.location]
  | .enumeration content => [content.location]
  | .record content => content.location :: content.fields.map Field.location
  | .entry content => content.location :: content.fields.map Field.location
  | .validation content => content.location :: content.rules.flatMap Rule.places

/-- The token of the name that a declaration introduces. -/
def nameToken? (declaration : Declaration) : Option Token :=
  declaration.name?.map fun name => ⟨.identifier, name, declaration.location⟩

theorem location_mem_places (decl : Declaration) : decl.location ∈ decl.places := by
  cases decl <;> exact mem_cons_self

end Declaration

/-- One of some tokens stands at a place. -/
def Marks (tokens : List Token) (place : Location) : Prop :=
  ∃ token ∈ tokens, token.location = place

variable {place : Location}

theorem Marks.mono {used tokens : List Token} (marks : Marks used place)
    (among : ∀ token ∈ used, token ∈ tokens) : Marks tokens place := by
  obtain ⟨token, member, rfl⟩ := marks
  exact ⟨token, among token member, rfl⟩

theorem marks_head (token : Token) (tokens : List Token) : Marks (token :: tokens) token.location :=
  ⟨token, mem_cons_self, rfl⟩

namespace Phrase

variable {used tokens : List Token}

theorem FieldPhrase.marks {field : Field} (phrase : FieldPhrase used field) :
    Marks used field.location := by
  cases phrase <;> exact marks_head _ _

theorem CallPhrase.marks {call : Call} (phrase : CallPhrase used call) :
    Marks used call.location := by
  cases phrase <;> exact marks_head _ _

theorem RulePhrase.marks {rule : Rule} (phrase : RulePhrase used rule)
    (isPlace : place ∈ rule.places) : Marks used place := by
  obtain ⟨_, _, first, others, _⟩ := phrase
  rcases mem_cons.mp isPlace with rfl | isCall
  · exact marks_head _ _
  · obtain ⟨call, listed, rfl⟩ := mem_map.mp isCall
    rcases mem_cons.mp listed with rfl | later
    · exact first.marks.mono (by simp +contextual)
    · obtain ⟨part, isCall, among⟩ := others.exists_phrase later
      exact isCall.marks.mono fun token inside => by simp [among token inside]

theorem Record.marks {content : RecordDeclaration} (phrase : Record used content)
    (isPlace : place ∈ content.location :: content.fields.map Field.location) :
    Marks used place := by
  obtain ⟨_, _, listed, _, _⟩ := phrase
  rcases mem_cons.mp isPlace with rfl | isField
  · exact marks_head _ _
  · obtain ⟨field, member, rfl⟩ := mem_map.mp isField
    obtain ⟨part, isPhrase, among⟩ := listed.exists_phrase member
    exact isPhrase.marks.mono fun token inside => by simp [among token inside]

theorem Validation.marks {keyword : Token} {content : ValidationBlock}
    (phrase : Validation keyword used content)
    (isPlace : place ∈ content.rules.flatMap Rule.places) : Marks used place := by
  obtain ⟨_, _, listed, _⟩ := phrase
  obtain ⟨rule, member, isRule⟩ := mem_flatMap.mp isPlace
  obtain ⟨part, isPhrase, among⟩ := listed.exists_phrase member
  exact (isPhrase.marks isRule).mono fun token inside => by simp [among token inside]

variable {decl : Declaration}

/-- A declaration and all that belongs to it stand at tokens of its phrase. -/
theorem DeclarationPhrase.marks (phrase : DeclarationPhrase used decl)
    (isPlace : place ∈ decl.places) : Marks used place := by
  cases phrase with
  | moduleImport _ phrase =>
    obtain ⟨_, _, _⟩ := phrase
    rw [mem_singleton.mp isPlace]
    exact marks_head _ _
  | enumeration _ phrase =>
    obtain ⟨_, _, _, _, _, _⟩ := phrase
    rw [mem_singleton.mp isPlace]
    exact (marks_head _ _).mono fun _ => mem_cons_of_mem _
  | record _ phrase | entry _ phrase => exact (phrase.marks isPlace).mono fun _ => mem_cons_of_mem _
  | validation _ phrase =>
    rcases mem_cons.mp isPlace with rfl | inside
    · obtain ⟨_, _, _, _⟩ := phrase
      exact marks_head _ _
    · exact (phrase.marks inside).mono fun _ => mem_cons_of_mem _

variable {decls : List Declaration}

/-- All places of a module are places of its tokens. -/
theorem Module.marks (phrase : Module tokens decls) (member : decl ∈ decls)
    (isPlace : place ∈ decl.places) : Marks tokens place := by
  obtain ⟨used, isPhrase, among⟩ := phrase.exists_phrase member
  exact (isPhrase.marks isPlace).mono among

/-- The name of a declaration is a token of its phrase. -/
theorem DeclarationPhrase.name_sublist (phrase : DeclarationPhrase used decl) :
    decl.nameToken?.toList.Sublist used := by
  have second {keyword name : Token} {others : List Token} (isName : name.kind = .identifier) :
      [⟨.identifier, name.text, name.location⟩].Sublist (keyword :: name :: others) := by
    rw [← isName]
    exact .cons _ (.cons_cons _ (nil_sublist others))
  cases phrase with
  | moduleImport _ _ | validation _ _ => exact nil_sublist _
  | enumeration _ phrase =>
    obtain ⟨isName, _, _, _, _, _⟩ := phrase
    exact second isName
  | record _ phrase | entry _ phrase =>
    obtain ⟨isName, _, _, _, _⟩ := phrase
    exact second isName

/-- The names of declarations are tokens of the module, in their order. -/
theorem Module.names_sublist (phrase : Module tokens decls) :
    (decls.filterMap Declaration.nameToken?).Sublist tokens := by
  induction phrase with
  | nil => exact .slnil
  | @cons _ _ decl _ first _ ih =>
    have joined := first.name_sublist.append ih
    cases named : decl.nameToken? with
    | none =>
      rw [named] at joined
      rwa [filterMap_cons_none named]
    | some token =>
      rw [named] at joined
      rwa [filterMap_cons_some named]

end Phrase

end SchemaLang
