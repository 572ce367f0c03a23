import SchemaLang.Compilation.Compile
import SchemaLang.Proofs.Bindings.Relabelling
import SchemaLang.Proofs.Module.Relabelling

/-!
# Layout does not matter

Two texts with the same tokens, at whatever lines and columns, are compiled to the same schema and
the same bindings from the same files, or they are refused for the same reason. Every stage of a
compilation commutes with a change of locations; here the laws of the stages are put together, and
the change is to forget them.
-/

namespace SchemaLang

open Relabelling Compilation

variable {ρ : Relabelling}

namespace Compilation

def relabel (ρ : Relabelling) (compilation : Compilation) : Compilation :=
  { compilation with registry := compilation.registry.relabel ρ }

/-- What is made of a changed closure is what is made of the closure, changed. -/
theorem ofClosure_relabel (fixed : ρ.number = id) (settings : Settings) (closure : Closure) :
    ofClosure settings (closure.relabel ρ) =
      ρ.outcome (relabel ρ) (ofClosure settings closure) := by
  unfold ofClosure
  rw [show (closure.relabel ρ).declarations =
      closure.declarations.map (ScopedDeclaration.relabel ρ) from rfl,
    Registry.build_relabel fixed, Closure.relabel_modules]
  refine outcome_bind fun reg => ?_
  rw [JsonSchema.ofRegistry_relabel fixed]
  refine outcome_bind fun schema => ?_
  rw [Target.generateAll_relabel fixed]
  exact outcome_bind fun bindings => rfl

end Compilation

/-- Tokens of the same kinds and texts are the same once their places are forgotten. -/
theorem unplaced_of_spelling {first second : List Token}
    (sameSpelling : first.map (fun token => (token.kind, token.text)) =
      second.map fun token => (token.kind, token.text)) :
    first.map (Token.relabel .unplaced) = second.map (Token.relabel .unplaced) := by
  have forgets (tokens : List Token) : tokens.map (Token.relabel .unplaced) =
      (tokens.map fun token => (token.kind, token.text)).map fun (kind, text) =>
        ⟨kind, text, .builtin⟩ := by
    rw [List.map_map]
    rfl
  rw [forgets, forgets, sameSpelling]

/-- Compiling texts with the same tokens gives the same schema, bindings and modules, and the same
registry but for locations, or ends in the same error but for its locations.

Both texts are read alike under the label of a text module, which is another one than that of the
tokens. Their imports then lead to closures that are alike, and what is made of these is alike. -/
theorem layout_irrelevant (tree : FileTree) (settings : Settings) {source first second : String}
    {firstTokens secondTokens : List Token} (firstLexed : tokenize source first = .ok firstTokens)
    (secondLexed : tokenize source second = .ok secondTokens)
    (sameSpelling : firstTokens.map (fun token => (token.kind, token.text)) =
      secondTokens.map fun token => (token.kind, token.text)) :
    (∃ one two, Compilation.ofText tree settings first = .ok one ∧
      Compilation.ofText tree settings second = .ok two ∧ one.schema = two.schema ∧
      one.bindings = two.bindings ∧ one.modules = two.modules ∧
      one.registry.relabel .unplaced = two.registry.relabel .unplaced) ∨
    ∃ fault other, Compilation.ofText tree settings first = .error fault ∧
      Compilation.ofText tree settings second = .error other ∧
      fault.relabel .unplaced = other.relabel .unplaced := by
  have sameParse (label : String) :
      unplaced.outcome (List.map (Declaration.relabel .unplaced)) (parse label first) =
        unplaced.outcome (List.map (Declaration.relabel .unplaced))
          (parse label second) := by
    rw [parse_relabel, parse_relabel, tokenize_unplaced label source, firstLexed,
      tokenize_unplaced label source, secondLexed]
    exact congrArg (fun tokens => (Except.ok tokens : Except Error (List Token)) >>= parseTokens)
      (unplaced_of_spelling sameSpelling)
  have alike : unplaced.outcome (relabel .unplaced)
        (ofText tree settings first) =
      unplaced.outcome (relabel .unplaced)
        (ofText tree settings second) := by
    unfold ofText
    refine outcome_bind_congr
      (ImportContext.closureOfText_relabel _ _ (sameParse _)) fun closure other same => ?_
    rw [← ofClosure_relabel rfl, same, ofClosure_relabel rfl]
  rcases outcome_eq_iff.mp alike with
    ⟨one, two, firstDone, secondDone, same⟩ | ⟨fault, other, firstFails, secondFails, same⟩
  · obtain ⟨sameRegistry, sameSchema, sameBindings, sameModules⟩ := mk.inj same
    exact .inl ⟨one, two, firstDone, secondDone, sameSchema, sameBindings, sameModules,
      sameRegistry⟩
  · exact .inr ⟨fault, other, firstFails, secondFails, same⟩

/-- A module that others can import. -/
def importedColors : FileTree :=
  ⟨[(["colors.sdl"], .file (.text "enum Color \x7b red green \x7d"))], []⟩

/-- A text on one line. -/
def carOnOneLine : String := "import \"/colors\" entry Car \x7b paint: Color[] \x7d"

/-- The same text with comments and on several lines. -/
def carOnManyLines : String :=
  "# cars\nimport\t\"/colors\"\nentry Car # one\n\x7b\n  paint : Color [ ]\n\x7d\n"

/-- The tokens of both texts. -/
def carSpelling : List (TokenKind × String) :=
  [(.identifier, "import"), (.string, "/colors"), (.identifier, "entry"), (.identifier, "Car"),
    (.symbol, "\x7b"), (.identifier, "paint"), (.symbol, ":"), (.identifier, "Color"),
    (.symbol, "["), (.symbol, "]"), (.symbol, "\x7d"), (.endOfText, "")]

/-- Both texts are compiled, to the same schema and the same bindings from the same file. -/
theorem layout_irrelevant_cars :
    ∃ one two, Compilation.ofText importedColors ⟨none, [.typeScript], "index.sdl"⟩ carOnOneLine =
        .ok one ∧
      Compilation.ofText importedColors ⟨none, [.typeScript], "index.sdl"⟩ carOnManyLines =
        .ok two ∧
      one.schema = two.schema ∧ one.bindings = two.bindings ∧ one.modules = two.modules ∧
      one.registry.relabel .unplaced = two.registry.relabel .unplaced := by
  obtain ⟨firstTokens, firstLexed, firstSpelling⟩ := Outcome.ok_of_view
    (show (tokenize "car" carOnOneLine).toOption.map
        (List.map fun token => (token.kind, token.text)) =
      some carSpelling by decide +kernel)
  obtain ⟨secondTokens, secondLexed, secondSpelling⟩ := Outcome.ok_of_view
    (show (tokenize "car" carOnManyLines).toOption.map
        (List.map fun token => (token.kind, token.text)) =
      some carSpelling by decide +kernel)
  have succeeds : (ofText importedColors ⟨none, [.typeScript], "index.sdl"⟩
      carOnOneLine).toOption.isSome = true := by decide +kernel
  rcases layout_irrelevant importedColors ⟨none, [.typeScript], "index.sdl"⟩ firstLexed secondLexed
    (firstSpelling.trans secondSpelling.symm) with alike | ⟨fault, other, fails, -⟩
  · exact alike
  · rw [fails] at succeeds
    cases succeeds

end SchemaLang
