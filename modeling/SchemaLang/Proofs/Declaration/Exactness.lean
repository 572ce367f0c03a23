import SchemaLang.Proofs.Declaration.Completeness
import SchemaLang.Proofs.Declaration.Locality

/-!
# Reading is exact

A list of tokens that is read gives the declarations of the one module that its tokens up to
the first end of the text are, and every module is read. What is not a module is refused at a
token. Nothing behind the first end has a part in it.

That readers take only phrases and that they take every phrase is proved rule by rule. Here the
two are put together: readers leave the end of the text in place, so what they have taken when
they stop there is all that stands before it.
-/

namespace SchemaLang

open List Token Reading

/-- The token is one for the end of the text. -/
def Token.isEnd (token : Token) : Bool := token.kind = .endOfText

/-- The tokens before the first one for the end of the text. -/
def beforeEnd (tokens : List Token) : List Token := tokens.takeWhile fun token => !token.isEnd

/-- Terminated tokens are those before the first end of the text, this end, and what is behind. -/
theorem split_of_isTerminated {tokens : List Token} (terminated : isTerminated tokens = true) :
    ∃ last after, tokens.find? isEnd = some last ∧ last.kind = .endOfText ∧
      (∀ token ∈ beforeEnd tokens, token.kind ≠ .endOfText) ∧
      tokens = beforeEnd tokens ++ last :: after := by
  have isThere : (tokens.find? isEnd).isSome = true := by
    unfold isTerminated at terminated
    cases isLast : tokens.getLast? with
    | none => simp [isLast] at terminated
    | some token =>
      rw [isLast] at terminated
      exact find?_isSome.mpr ⟨token, mem_of_getLast? isLast, terminated⟩
  obtain ⟨last, found⟩ := Option.isSome_iff_exists.mp isThere
  obtain ⟨isEnd, before, after, rfl, inside⟩ := find?_eq_some_iff_append.mp found
  have text : beforeEnd (before ++ last :: after) = before := by
    rw [beforeEnd, takeWhile_append_of_pos inside,
      takeWhile_cons_of_neg (by simp [isEnd]), append_nil]
  rw [text]
  refine ⟨last, after, found, of_decide_eq_true isEnd, fun token member isEnd => ?_, rfl⟩
  simpa [Token.isEnd, isEnd] using inside token member

section Terminated

variable {before after other : List Token} {last : Token}

/-- Tokens up to the end of the text, and the same with changed locations, are read alike whatever
stands behind them. -/
theorem declarations_alike (ρ : Relabelling) (isEnd : last.kind = .endOfText)
    (inside : ∀ token ∈ before, token.kind ≠ .endOfText) (after other : List Token) :
    Reading.Alike ρ (before ++ [last]) (map (Declaration.relabel ρ)) (fun _ => True) 0 before
      last after other
      (declarations (before ++ last :: after).length (before ++ last :: after))
      (declarations (before.map (relabel ρ) ++ last.relabel ρ :: other).length
        (before.map (relabel ρ) ++ last.relabel ρ :: other)) :=
  agree_declarations (length_lt_append (cons_ne_nil last after)) (by simp) last after
    other ⟨isEnd, inside, subset_append_left _ _, mem_append_right _ mem_cons_self⟩

/-- What stands behind the end of the text has no part in reading. It ends before the end of the
text, or is refused at one of the tokens up to there. -/
theorem declarations_cases (isEnd : last.kind = .endOfText)
    (inside : ∀ token ∈ before, token.kind ≠ .endOfText) (after other : List Token) :
    (∃ values rest, rest <:+ before ∧
      declarations (before ++ last :: after).length (before ++ last :: after) =
        .ok (values, rest ++ last :: after) ∧
      declarations (before ++ last :: other).length (before ++ last :: other) =
        .ok (values, rest ++ last :: other)) ∨
    ∃ found ∈ before ++ [last], ∃ expected,
      declarations (before ++ last :: after).length (before ++ last :: after) =
        .error (.unexpected found expected) ∧
      declarations (before ++ last :: other).length (before ++ last :: other) =
        .error (.unexpected found expected) := by
  have alike := declarations_alike .identity isEnd inside after other
  have sameTokens : relabel .identity = id := relabel_placed rfl
  have sameValues : Declaration.relabel .identity = id := funext (Declaration.relabel_placed rfl)
  rw [sameTokens, map_id, id_eq] at alike
  generalize declarations _ (before ++ last :: after) = first at alike ⊢
  generalize declarations _ (before ++ last :: other) = second at alike ⊢
  cases alike with
  | @value values rest _ suffix _ =>
    rw [sameTokens, sameValues, map_id, map_id, id_eq]
    exact .inl ⟨values, rest, suffix, rfl, rfl⟩
  | @fault found expected isRead =>
    rw [sameTokens]
    exact .inr ⟨found, isRead, expected, rfl, rfl⟩

/-- All terminated tokens with the same text and the same end are read alike, and are refused
only at a token. -/
theorem parseTokens_alike (isEnd : last.kind = .endOfText)
    (inside : ∀ token ∈ before, token.kind ≠ .endOfText)
    (terminated : isTerminated (before ++ last :: after) = true)
    (terminatedOther : isTerminated (before ++ last :: other) = true) :
    parseTokens (before ++ last :: other) = parseTokens (before ++ last :: after) ∧
      ((∃ values, parseTokens (before ++ last :: after) = .ok values) ∨
        ∃ found expected, parseTokens (before ++ last :: after) =
          .error (.unexpected found expected)) := by
  rw [parseTokens, parseTokens, if_pos terminated, if_pos terminatedOther]
  rcases declarations_cases isEnd inside after other with
    ⟨values, rest, _, read, readOther⟩ | ⟨found, _, expected, refused, refusedOther⟩
  · rw [read, readOther]
    exact ⟨rfl, .inl ⟨values, rfl⟩⟩
  · rw [refused, refusedOther]
    exact ⟨rfl, .inr ⟨found, expected, rfl⟩⟩

/-- Terminated tokens are refused only at one of them. -/
theorem parseTokens_refuses {tokens : List Token} (terminated : isTerminated tokens = true)
    {fault : Error} (failed : parseTokens tokens = .error fault) :
    ∃ found ∈ tokens, ∃ expected, fault = .unexpected found expected := by
  obtain ⟨last, after, _, isEnd, inside, same⟩ := split_of_isTerminated terminated
  generalize beforeEnd tokens = before at inside same
  subst same
  rw [parseTokens, if_pos terminated] at failed
  rcases declarations_cases isEnd inside after after with
    ⟨values, rest, _, read, _⟩ | ⟨found, isRead, expected, refused, _⟩
  · rw [read] at failed
    cases failed
  · rw [refused] at failed
    cases failed
    refine ⟨found, ?_, expected, rfl⟩
    rw [append_cons]
    exact mem_append_left _ isRead

variable {values : List Declaration}

/-- Declarations are read from the tokens of their module. -/
theorem module_of_parseTokens (isEnd : last.kind = .endOfText)
    (inside : ∀ token ∈ before, token.kind ≠ .endOfText)
    (done : parseTokens (before ++ last :: after) = .ok values) : Phrase.Module before values := by
  rw [parseTokens] at done
  split at done
  · obtain ⟨⟨values, rest⟩, read, rfl⟩ := Outcome.map_ok_iff.mp done
    obtain ⟨used, same, phrase, final, behind, rfl, isFinal⟩ := declarations_derives read
    -- Nothing of the text is left: the first token that is left is an end.
    rcases declarations_cases isEnd inside after after with
      ⟨found, left, suffix, readAgain, _⟩ | ⟨_, _, _, refused, _⟩
    · rw [read] at readAgain
      cases left with
      | nil =>
        obtain ⟨rfl, leftSame⟩ := Prod.mk.inj (Except.ok.inj readAgain)
        rw [leftSame, nil_append] at same
        rwa [append_cancel_right same]
      | cons token rest =>
        obtain ⟨rfl, leftSame⟩ := Prod.mk.inj (Except.ok.inj readAgain)
        obtain ⟨rfl, _⟩ := cons.inj leftSame
        exact absurd isFinal (inside final (suffix.subset mem_cons_self))
    · rw [read] at refused
      cases refused
  · cases done

/-- The declarations of a module are read from its tokens. -/
theorem parseTokens_of_module (isEnd : last.kind = .endOfText)
    (terminated : isTerminated (before ++ last :: after) = true)
    (phrase : Phrase.Module before values) :
    parseTokens (before ++ last :: after) = .ok values := by
  rw [parseTokens, if_pos terminated, declarations_reads phrase isEnd
    (length_lt_append (cons_ne_nil last after))]
  rfl

end Terminated

/-- Terminated tokens are read as the modules that they are. Reading answers, with declarations
or with a refusal at a token; it depends on the tokens up to the first end of the text only; and
it gives declarations exactly if the tokens before this end are a module that says them. Then all
field types are arms or flat unions of at least two, and optional only at the top. -/
theorem parseTokens_reads_exactly_modules (tokens : List Token)
    (terminated : isTerminated tokens = true) :
    ((∃ values, parseTokens tokens = .ok values) ∨
      ∃ found expected, parseTokens tokens = .error (.unexpected found expected)) ∧
    (∀ others, isTerminated others = true → beforeEnd others = beforeEnd tokens →
      others.find? Token.isEnd = tokens.find? Token.isEnd →
      parseTokens others = parseTokens tokens) ∧
    (∀ values, parseTokens tokens = .ok values ↔ Phrase.Module (beforeEnd tokens) values) ∧
    ∀ values, parseTokens tokens = .ok values →
      ∀ declaration ∈ values, ∀ field ∈ declaration.fields, field.type.IsOfField := by
  obtain ⟨last, after, found, isEnd, inside, same⟩ := split_of_isTerminated terminated
  generalize beforeEnd tokens = before at inside same ⊢
  subst same
  have isModule : ∀ values, parseTokens (before ++ last :: after) = .ok values ↔
      Phrase.Module before values := fun values =>
    ⟨module_of_parseTokens isEnd inside, parseTokens_of_module isEnd terminated⟩
  refine ⟨(parseTokens_alike isEnd inside terminated terminated).2, ?_, isModule,
    fun values done => ((isModule values).mp done).isOfField⟩
  intro others terminatedOthers sameText sameEnd
  obtain ⟨other, behind, foundOther, _, _, same⟩ := split_of_isTerminated terminatedOthers
  rw [sameEnd, found] at foundOther
  obtain rfl := Option.some.inj foundOther
  rw [sameText] at same
  subst same
  exact (parseTokens_alike isEnd inside terminated terminatedOthers).1

/-- A module whose words also are names, and in which a comma goes on with a rule or ends it. -/
def contextualWords : List Token :=
  (tokenize "m" ("import \"./n\" " ++
    "type type \x7b as: n.enum[] | integer(..5)? enum?: string \x7d " ++
    "validate type \x7b self: unique, among(as, 1), as: required, \x7d")).toOption.getD []

/-- Written twice it is read once, up to its first end, and as the module that it is. -/
theorem contextualWords_read_once :
    isTerminated (contextualWords ++ contextualWords) = true ∧
      ∃ values, parseTokens (contextualWords ++ contextualWords) = .ok values ∧
        parseTokens contextualWords = .ok values ∧
        Phrase.Module (beforeEnd contextualWords) values ∧ values.length = 3 := by
  have facts : isTerminated (contextualWords ++ contextualWords) = true ∧
      isTerminated contextualWords = true ∧
      beforeEnd contextualWords = beforeEnd (contextualWords ++ contextualWords) ∧
      contextualWords.find? isEnd =
        (contextualWords ++ contextualWords).find? isEnd ∧
      (parseTokens contextualWords).toOption.map List.length = some 3 := by
    decide +kernel
  obtain ⟨terminated, terminatedOnce, sameText, sameEnd, view⟩ := facts
  obtain ⟨_, alike, isModule, _⟩ := parseTokens_reads_exactly_modules _ terminated
  obtain ⟨values, done, count⟩ := Outcome.ok_of_view view
  have read := (alike contextualWords terminatedOnce sameText sameEnd).symm.trans done
  rw [sameText]
  exact ⟨terminated, values, read, done, (isModule values).mp read, count⟩

end SchemaLang
