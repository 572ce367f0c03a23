import SchemaLang.Proofs.Declaration.Exactness
import SchemaLang.Proofs.Declaration.Proper
import SchemaLang.Proofs.Token.Exactness

/-!
# What a text declares

The declarations of a text are a module of its tokens, and its tokens are those of its lexemes. So
what the productions say of their phrases is true of whatever a text declares: its numbers are
finite, its choices have arms, and the fields of a record have different names. Names are
identifiers, and an identifier is plain because its lexeme is.
-/

namespace SchemaLang

open List

/-- A name as identifiers are spelled. -/
def IsIdentifier (name : String) : Prop := Lexeme.Spelled ⟨.identifier, name.toList⟩

/-- All identifiers among the tokens are spelled as such. -/
def Lexed (tokens : List Token) : Prop :=
  ∀ token ∈ tokens, token.kind = .identifier → IsIdentifier token.text

variable {tokens : List Token}

theorem Lexed.mono (lexed : Lexed tokens) {used : List Token}
    (among : ∀ token ∈ used, token ∈ tokens) : Lexed used :=
  fun token member => lexed token (among token member)

namespace Lexeme

/-- A character that may follow in an identifier is one of names. -/
theorem isNameChar_of_continues {c : Char} (continues : continuesIdentifier c = true) :
    IsNameChar c := by
  simp only [continuesIdentifier, Bool.or_eq_true, decide_eq_true_eq] at continues
  rcases continues with (letter | line) | dash
  · exact .inl letter
  · exact .inr (.inl line)
  · exact .inr (.inr (.inl dash))

/-- A character that starts an identifier may follow in one. -/
theorem continues_of_starts {c : Char} (starts : startsIdentifier c = true) :
    continuesIdentifier c = true := by
  simp only [startsIdentifier, Bool.or_eq_true, decide_eq_true_eq] at starts
  rcases starts with letter | line
  · simp [continuesIdentifier, Char.isAlphanum, letter]
  · simp [continuesIdentifier, line]

end Lexeme

theorem IsIdentifier.exists_cons {name : String} (isIdentifier : IsIdentifier name) :
    ∃ first body, name.toList = first :: body ∧ Lexeme.startsIdentifier first = true ∧
      ∀ c ∈ name.toList, Lexeme.continuesIdentifier c = true := by
  unfold IsIdentifier at isIdentifier
  generalize name.toList = chars at isIdentifier ⊢
  cases isIdentifier with
  | identifier starts continues =>
    exact ⟨_, _, rfl, starts, forall_mem_cons.mpr ⟨Lexeme.continues_of_starts starts, continues⟩⟩

/-- An identifier is a plain name. -/
theorem IsIdentifier.plain {name : String} (isIdentifier : IsIdentifier name) : PlainName name := by
  obtain ⟨_, _, _, _, continues⟩ := isIdentifier.exists_cons
  exact fun c member => Lexeme.isNameChar_of_continues (continues c member)

/-! ## Phrases -/

namespace Phrase

theorem Bound.finite {kind : NumericKind} {bound? : Option Double}
    (bound : Bound kind tokens bound?) : FieldType.FiniteBound bound? := by
  rintro value rfl
  cases bound with
  | present spells _ => exact spells.finite

variable {type : FieldType String}

theorem Atom.proper (atom : Atom tokens type) : type.Proper := by
  cases atom with
  | primitive _ _ | reference _ _ _ => exact trivial
  | range _ _ _ least _ _ greatest _ _ => exact ⟨least.finite, greatest.finite⟩

theorem Brackets.proper {result : FieldType String} (brackets : Brackets tokens type result)
    (proper : type.Proper) : result.Proper := by
  induction brackets with
  | nil => exact proper
  | cons _ _ _ ih => exact ih proper

theorem Arm.proper (arm : Arm tokens type) : type.Proper := by
  obtain ⟨atom, brackets⟩ := arm
  exact brackets.proper atom.proper

theorem TypeExpression.proper (expression : TypeExpression tokens type) : type.Proper := by
  cases expression with
  | single arm => exact arm.proper
  | union arm further =>
    refine ⟨by simp, FieldType.allProper_iff.mpr (forall_mem_cons.mpr ⟨arm.proper, ?_⟩)⟩
    intro type member
    obtain ⟨_, isArm, _⟩ := further.exists_phrase member
    exact isArm.proper

theorem FieldPhrase.proper {field : Field} (lexed : Lexed tokens)
    (phrase : FieldPhrase tokens field) : field.Proper := by
  cases phrase with
  | mandatory isName _ typed _ | markedName isName _ _ typed _ | markedType isName _ typed _ _ =>
    exact ⟨(lexed _ mem_cons_self isName).plain, typed.proper⟩

theorem Record.proper {content : RecordDeclaration} (lexed : Lexed tokens)
    (phrase : Record tokens content) : content.Proper := by
  obtain ⟨isName, _, listed, distinct, _⟩ := phrase
  refine ⟨(lexed _ mem_cons_self isName).plain, distinct, fun field member => ?_⟩
  obtain ⟨used, isField, among⟩ := listed.exists_phrase member
  exact isField.proper (lexed.mono fun token inside => by simp [among token inside])

theorem ArgumentPhrase.finite {argument : Argument} (phrase : ArgumentPhrase tokens argument) :
    argument.Finite := by
  rintro value rfl
  cases phrase with
  | number spells => exact spells.finite

theorem CallPhrase.finite {call : Call} (phrase : CallPhrase tokens call) : call.Finite := by
  intro argument member
  cases phrase with
  | bare _ => cases member
  | applied _ _ given _ =>
    cases given with
    | none => cases member
    | some first others =>
      rcases mem_cons.mp member with rfl | later
      · exact first.finite
      · obtain ⟨_, next, _⟩ := others.exists_phrase later
        exact next.finite

theorem RulePhrase.finite {rule : Rule} (phrase : RulePhrase tokens rule) :
    ∀ call ∈ rule.calls, call.Finite := by
  obtain ⟨_, _, first, others, _⟩ := phrase
  refine forall_mem_cons.mpr ⟨first.finite, fun call later => ?_⟩
  obtain ⟨_, next, _⟩ := others.exists_phrase later
  exact next.finite

theorem DeclarationPhrase.proper {decl : Declaration} (lexed : Lexed tokens)
    (phrase : DeclarationPhrase tokens decl) : decl.Proper := by
  cases phrase with
  | moduleImport _ phrase =>
    obtain ⟨_, _, isAlias⟩ := phrase
    rintro given same
    cases isAlias with
    | absent => cases same
    | present _ isName =>
      cases same
      exact (lexed _ (by simp) isName).plain
  | enumeration _ phrase =>
    obtain ⟨isName, _, _, _, _, _⟩ := phrase
    exact (lexed _ (by simp) isName).plain
  | record _ phrase | entry _ phrase => exact phrase.proper (lexed.mono fun _ => mem_cons_of_mem _)
  | validation _ phrase =>
    obtain ⟨_, _, listed, _⟩ := phrase
    intro rule member
    obtain ⟨_, isRule, _⟩ := listed.exists_phrase member
    exact isRule.finite

end Phrase

/-! ## Tokens -/

namespace Lexeme

variable {lexemes : List Lexeme}

theorem Cut.spelled {chars left : List Char} (isCut : Cut chars lexemes left) :
    ∀ lexeme ∈ lexemes, lexeme.Spelled := by
  induction isCut with
  | stuck => simp
  | next longest _ ih => exact forall_mem_cons.mpr ⟨longest.spelled, ih⟩

variable {source : String} {before : List Char}

/-- Every token stands for one of the lexemes. -/
theorem Placed.denotes (placed : Placed source before lexemes tokens) {token : Token}
    (member : token ∈ tokens) : ∃ lexeme ∈ lexemes, Denotes lexeme token.kind token.text := by
  induction placed with
  | done => cases member
  | silent _ _ ih =>
    obtain ⟨lexeme, among, denotes⟩ := ih member
    exact ⟨lexeme, mem_cons_of_mem _ among, denotes⟩
  | token denotes _ ih =>
    rcases mem_cons.mp member with rfl | later
    · exact ⟨_, mem_cons_self, denotes⟩
    · obtain ⟨lexeme, among, denotes⟩ := ih later
      exact ⟨lexeme, mem_cons_of_mem _ among, denotes⟩

theorem Placed.ne_end (placed : Placed source before lexemes tokens) :
    ∀ token ∈ tokens, token.kind ≠ .endOfText := by
  intro token member isEnd
  obtain ⟨_, _, denotes⟩ := placed.denotes member
  rw [isEnd] at denotes
  cases denotes

theorem Cut.lexed {chars left : List Char} (isCut : Cut chars lexemes left)
    (placed : Placed source before lexemes tokens) : Lexed tokens := by
  intro token member isName
  obtain ⟨lexeme, among, denotes⟩ := placed.denotes member
  have spelled := isCut.spelled lexeme among
  rw [isName] at denotes
  generalize token.text = text at denotes ⊢
  cases denotes with
  | identifier => rwa [IsIdentifier, String.toList_ofList]

end Lexeme

open Lexeme

variable {source text : String}

/-! ## Texts -/

/-- A text is tokenized as it is cut: to the tokens of its lexemes and the end, or to an error
where it is stuck. -/
theorem tokenize_places (source text : String) :
    ∃ lexemes left, Cut text.toList lexemes left ∧
      ((left = [] ∧ ∃ body, Placed source [] lexemes body ∧
          tokenize source text = .ok (body ++ [⟨.endOfText, "", .behind source text.toList⟩])) ∨
        (left ≠ [] ∧ ∃ fault, tokenize source text = .error fault ∧
          (fault = .unterminatedString (.behind source (spelling lexemes)) ∨
            fault = .characters (String.ofList (strange left))
              (.behind source (spelling lexemes))))) := by
  obtain ⟨lexemes, left, isCut, whole, unclosed⟩ :=
    cut_cutTo text.toList.length text.toList (Nat.le_refl _)
  obtain ⟨body, placed⟩ := isCut.placed source []
  have placing := placed.place_append
  rw [nil_append] at placing
  have started : Location.start source = .behind source [] := rfl
  refine ⟨lexemes, left, isCut, ?_⟩
  rw [tokenize, started]
  by_cases quote : left.head? = some '"'
  · have nonempty : left ≠ [] := by
      rintro rfl
      cases quote
    obtain ⟨inside, more, rest, found⟩ := unclosed quote
    refine .inr ⟨nonempty, _, ?_, .inl rfl⟩
    rw [found]
    exact placing rest _
  · have ended := placing left []
    rw [append_nil, place] at ended
    rw [whole quote]
    by_cases nothing : left = []
    · subst nothing
      rw [← isCut.spelling_append, append_nil]
      exact .inl ⟨rfl, body, placed, ended⟩
    · rw [if_neg (by simpa using nothing)] at ended
      exact .inr ⟨nothing, _, ended, .inr rfl⟩

variable {decls : List Declaration}

/-- The declarations of a text are a module of its tokens. -/
theorem module_of_parse (parsed : parse source text = .ok decls) :
    ∃ lexemes left body, Cut text.toList lexemes left ∧ Placed source [] lexemes body ∧
      Phrase.Module body decls := by
  obtain ⟨tokens, tokenized, read⟩ := Outcome.bind_ok_iff.mp parsed
  obtain ⟨lexemes, left, isCut, ⟨_, body, placed, done⟩ | ⟨_, fault, failed, _⟩⟩ :=
    tokenize_places source text
  · rw [done] at tokenized
    obtain rfl := Except.ok.inj tokenized
    refine ⟨lexemes, left, body, isCut, placed, ?_⟩
    exact module_of_parseTokens rfl placed.ne_end read
  · rw [failed] at tokenized
    cases tokenized

/-- What a text declares is proper. -/
theorem parse_proper (done : parse source text = .ok decls) : ∀ decl ∈ decls, decl.Proper := by
  intro decl member
  obtain ⟨lexemes, left, body, isCut, placed, isModule⟩ := module_of_parse done
  obtain ⟨used, phrase, among⟩ := isModule.exists_phrase member
  exact phrase.proper ((isCut.lexed placed).mono among)

end SchemaLang
