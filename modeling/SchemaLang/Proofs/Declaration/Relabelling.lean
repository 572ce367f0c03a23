import SchemaLang.Proofs.Declaration.Exactness

/-!
# Reading commutes with changing locations

The locations of tokens only go into what is read and into errors, so reading tokens whose locations
are changed gives what reading the tokens gives, with the locations changed in the same way. The
label of a module is in these locations only, so what is read does not depend on it otherwise.
-/

namespace SchemaLang

open List Relabelling Token

variable (ρ : Relabelling)

theorem isTerminated_relabel (tokens : List Token) :
    isTerminated (tokens.map (relabel ρ)) = isTerminated tokens := by
  unfold isTerminated
  rw [getLast?_map]
  cases tokens.getLast? <;> rfl

/-- The declarations of changed tokens are those of the tokens, changed. -/
theorem parseTokens_relabel (tokens : List Token) :
    parseTokens (tokens.map (relabel ρ)) =
      ρ.outcome (map (Declaration.relabel ρ)) (parseTokens tokens) := by
  unfold parseTokens
  rw [isTerminated_relabel]
  split
  · rename_i terminated
    obtain ⟨last, after, _, isEnd, inside, same⟩ := split_of_isTerminated terminated
    generalize beforeEnd tokens = before at inside same
    subst same
    have alike := declarations_alike ρ isEnd inside after (after.map (relabel ρ))
    rw [map_append, map_cons]
    generalize Reading.declarations _ (before ++ last :: after) = first at alike ⊢
    generalize Reading.declarations _ (_ ++ last.relabel ρ :: _) = second at alike ⊢
    cases alike <;> rfl
  · rfl

/-! ## Labels -/

theorem Lexeme.token?_unplaced (lexeme : Lexeme) (here there : Location) :
    (lexeme.token? here).toList.map (relabel .unplaced) =
      (lexeme.token? there).toList.map (relabel .unplaced) := by
  unfold Lexeme.token?
  split <;> rfl

/-- Placing lexemes elsewhere changes nothing but locations. -/
theorem Lexeme.place_unplaced (left : List Char) (lexemes : List Lexeme) (here there : Location) :
    unplaced.outcome (map (relabel .unplaced)) (place left here lexemes) =
      unplaced.outcome (map (relabel .unplaced))
        (place left there lexemes) := by
  induction lexemes generalizing here there with
  | nil =>
    unfold place
    split <;> rfl
  | cons lexeme lexemes ih =>
    have others := ih (here.afterAll lexeme.chars) (there.afterAll lexeme.chars)
    unfold place
    split
    · rfl
    generalize place left (here.afterAll lexeme.chars) lexemes = first at others ⊢
    generalize place left (there.afterAll lexeme.chars) lexemes = second at others ⊢
    cases first with
    | error fault =>
      cases second with
      | error other => exact others
      | ok tokens => cases others
    | ok tokens =>
      cases second with
      | error other => cases others
      | ok otherTokens =>
        have sameTokens : tokens.map (relabel .unplaced) =
            otherTokens.map (relabel .unplaced) := Except.ok.inj others
        refine congrArg Except.ok ?_
        rw [map_append, map_append, sameTokens, lexeme.token?_unplaced here there]

/-- The label of a module is in the locations of its tokens only. -/
theorem tokenize_unplaced (source other text : String) :
    unplaced.outcome (map (relabel .unplaced)) (tokenize source text) =
      unplaced.outcome (map (relabel .unplaced)) (tokenize other text) :=
  Lexeme.place_unplaced _ _ _ _

/-- What is read from a text depends on its tokens only, and on their locations only as far as
these are passed on. -/
theorem parse_relabel (source text : String) :
    ρ.outcome (map (Declaration.relabel ρ)) (parse source text) =
      (ρ.outcome (map (relabel ρ)) (tokenize source text) >>= parseTokens) :=
  (outcome_bind (parseTokens_relabel ρ)).symm

end SchemaLang
