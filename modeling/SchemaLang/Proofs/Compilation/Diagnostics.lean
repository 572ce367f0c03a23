import SchemaLang.Proofs.Bindings.RustCollisions

/-!
# Diagnostics point into the source

Whatever goes wrong between a text and the artifacts for it, the error says where. Its place is
the start of a token, the end of the text, or for a text that cannot be cut the place where it is
stuck. Places are counted over the text, as for tokens.

Each stage only passes on places that it was given: readers those of tokens, the registry those
of declarations, and the artifacts those of definitions and fields. Where a name was taken
before, the error has a second place. It is that of the earlier name, or none in the text if the
name is built in.
-/

namespace SchemaLang

open Outcome List Registry

open Lexeme

/-! ## Places in a text -/

/-- A text has a token at its place: among the lexemes that the text is cut into, one stands for
the token, and its place is behind those before it. -/
def TokenOf (source text : String) (token : Token) : Prop :=
  ∃ before lexeme after left, Cut text.toList (before ++ lexeme :: after) left ∧
    Denotes lexeme token.kind token.text ∧ token.location = .behind source (spelling before)

/-- A text has two tokens, one before the other. -/
def InOrder (source text : String) (first second : Token) : Prop :=
  ∃ before lexeme between other after left,
    Cut text.toList (before ++ lexeme :: (between ++ other :: after)) left ∧
    Denotes lexeme first.kind first.text ∧ first.location = .behind source (spelling before) ∧
    Denotes other second.kind second.text ∧
      second.location = .behind source (spelling (before ++ lexeme :: between))

/-- A token of a text starts at a place. -/
def StartsToken (source text : String) (place : Location) : Prop :=
  ∃ token, TokenOf source text token ∧ token.location = place

/-- No lexeme starts at a place of a text, though the text goes on. -/
def StuckAt (source text : String) (place : Location) : Prop :=
  ∃ lexemes left, Cut text.toList lexemes left ∧ left ≠ [] ∧
    place = .behind source (spelling lexemes)

variable {source text : String}

theorem spelling_append (first second : List Lexeme) :
    spelling (first ++ second) = spelling first ++ spelling second := flatMap_append

variable {token : Token}

/-- A token of a list stands for a lexeme, and the tokens behind it for the lexemes behind. -/
theorem Lexeme.Placed.split {start : List Char} {lexemes : List Lexeme}
    {tokens earlier later : List Token} (placed : Placed source start lexemes tokens)
    (isThere : tokens = earlier ++ token :: later) :
    ∃ before lexeme after, lexemes = before ++ lexeme :: after ∧
      Denotes lexeme token.kind token.text ∧
      token.location = .behind source (start ++ spelling before) ∧
      Placed source (start ++ spelling (before ++ [lexeme])) after later := by
  induction placed generalizing earlier with
  | done => simp at isThere
  | @silent start lexeme lexemes tokens _ _ ih =>
    obtain ⟨before, found, after, rfl, denotes, location, rest⟩ := ih isThere
    refine ⟨lexeme :: before, found, after, rfl, denotes, ?_, ?_⟩
    · rw [location, spelling_cons, append_assoc]
    · rwa [cons_append, spelling_cons, ← append_assoc]
  | @token start lexeme kind word lexemes tokens denotes rest ih =>
    cases earlier with
    | nil =>
      obtain ⟨rfl, rfl⟩ := cons.inj isThere
      refine ⟨[], lexeme, lexemes, rfl, denotes, ?_, ?_⟩
      · rw [spelling_nil, append_nil]
      · rwa [nil_append, spelling_cons, spelling_nil, append_nil]
    | cons other earlier =>
      obtain ⟨rfl, isLater⟩ := cons.inj isThere
      obtain ⟨before, found, after, rfl, denotes, location, rest⟩ := ih isLater
      refine ⟨lexeme :: before, found, after, rfl, denotes, ?_, ?_⟩
      · rw [location, spelling_cons, append_assoc]
      · rwa [cons_append, spelling_cons, ← append_assoc]

section Tokens

variable {lexemes : List Lexeme} {left : List Char} {body : List Token}

theorem tokenOf_of_placed (isCut : Cut text.toList lexemes left)
    (placed : Placed source [] lexemes body) (member : token ∈ body) :
    TokenOf source text token := by
  obtain ⟨earlier, later, isThere⟩ := append_of_mem member
  obtain ⟨before, lexeme, after, rfl, denotes, location, _⟩ := placed.split isThere
  exact ⟨before, lexeme, after, left, isCut, denotes, location⟩

theorem inOrder_of_placed (isCut : Cut text.toList lexemes left)
    (placed : Placed source [] lexemes body) {first second : Token}
    (ordered : [first, second].Sublist body) : InOrder source text first second := by
  obtain ⟨front, back, isBody, isFirst, others⟩ := cons_sublist_iff.mp ordered
  obtain ⟨earlier, between, rfl⟩ := append_of_mem isFirst
  rw [append_assoc, cons_append] at isBody
  obtain ⟨before, lexeme, rest, rfl, denotes, location, restPlaced⟩ := placed.split isBody
  have isSecond : second ∈ between ++ back := mem_append_right _ (singleton_sublist.mp others)
  obtain ⟨middle, later, isThere⟩ := append_of_mem isSecond
  obtain ⟨inside, other, after, rfl, otherDenotes, otherLocation, _⟩ := restPlaced.split isThere
  refine ⟨before, lexeme, inside, other, after, left, isCut, denotes, location, otherDenotes, ?_⟩
  rw [otherLocation, nil_append, ← spelling_append, append_assoc, singleton_append]

end Tokens

/-! ## What is read from a text -/

/-- The declarations of one text, as a unit in a scope. -/
def unitOf (scope? : Option String) (unit : Nat) (declarations : List Declaration) :
    List ScopedDeclaration := declarations.map (⟨scope?, unit, ·⟩)

variable {scope? : Option String} {unit : Nat} {declarations decls : List Declaration}

theorem unitOf_shaped (parsed : parse source text = .ok decls) :
    ∀ stmt ∈ unitOf scope? unit decls, stmt.declaration.Shaped := by
  intro stmt member
  obtain ⟨decl, declared, rfl⟩ := mem_map.mp member
  exact parse_shaped parsed decl declared

variable {place : Location}

/-- What stands at a place of the declarations of a text stands at a token. -/
theorem startsToken_of_stands (parsed : parse source text = .ok decls)
    (stands : Registry.Stands (unitOf scope? unit decls) place) :
    StartsToken source text place := by
  obtain ⟨lexemes, left, body, isCut, placed, isModule⟩ := module_of_parse parsed
  obtain ⟨stmt, member, isPlace⟩ := stands
  obtain ⟨decl, declared, rfl⟩ := mem_map.mp member
  obtain ⟨token, isToken, rfl⟩ := isModule.marks declared isPlace
  exact ⟨token, tokenOf_of_placed isCut placed isToken, rfl⟩

/-- What a repeated name points back to: a built-in type, which stands nowhere in the text, or the
name of an earlier declaration, which is a token of the text before the one that repeats it. -/
inductive PointsBack (source text : String) (scope? : Option String) (name : String)
    (here : Location) : Location → Prop where
  | builtIn (isBuiltIn : (Primitive.ofKeyword? name).isSome = true) :
      PointsBack source text scope? name here .builtin
  | earlier {declarations : List Declaration} {first second : Declaration} {word : String}
      (parsed : parse source text = .ok declarations)
      (ordered : [first, second].Sublist declarations) (full : name = qualify scope? word)
      (isFirst : first.name? = some word) (isSecond : second.name? = some word)
      (atSecond : second.location = here)
      (tokens : InOrder source text ⟨.identifier, word, first.location⟩
        ⟨.identifier, word, second.location⟩) :
      PointsBack source text scope? name here first.location

theorem pointsBack_of_refusal (parsed : parse source text = .ok decls)
    {before after : List ScopedDeclaration} {stmt : ScopedDeclaration}
    (isThere : unitOf scope? unit decls = before ++ stmt :: after) {name : String}
    {here previous : Location}
    (refusal : Outline.Refusal (Outline.all before) stmt
      (.duplicateDeclaration name here previous)) :
    PointsBack source text scope? name here previous := by
  obtain ⟨earlier, others, rfl, rfl, isRest⟩ := map_eq_append_iff.mp isThere
  obtain ⟨second, later, rfl, rfl, rfl⟩ := map_eq_cons_iff.mp isRest
  cases refusal with
  | builtIn named isBuiltIn => exact .builtIn isBuiltIn
  | @repeated previous isEarlier named =>
    obtain ⟨_, isStatement, made⟩ := mem_filterMap.mp isEarlier
    obtain ⟨first, member, rfl⟩ := mem_map.mp isStatement
    obtain ⟨_, firstNamed, rfl⟩ := Option.map_eq_some_iff.mp made
    obtain ⟨word, isFirst, full⟩ := Option.map_eq_some_iff.mp firstNamed
    obtain ⟨other, isSecond, sameFull⟩ := Option.map_eq_some_iff.mp named
    obtain rfl : other = word := qualify_inj.mp (sameFull.trans full.symm)
    have ordered : [first, second].Sublist (earlier ++ second :: later) :=
      (singleton_sublist.mpr member).append (singleton_sublist.mpr mem_cons_self)
    obtain ⟨lexemes, left, body, isCut, placed, isModule⟩ := module_of_parse parsed
    have names := (ordered.filterMap Declaration.nameToken?).trans isModule.names_sublist
    rw [filterMap_cons_some (by rw [Declaration.nameToken?, isFirst]; rfl),
      filterMap_cons_some (by rw [Declaration.nameToken?, isSecond]; rfl)] at names
    exact .earlier parsed ordered full.symm isFirst isSecond rfl
      (inOrder_of_placed isCut placed names)

/-! ## All stages -/

/-- The errors of the stages from a text to the artifacts for it, when its declarations are one
unit in a scope. -/
inductive Diagnostic (source text : String) (scope? : Option String) (unit : Nat) :
    Error → Prop where
  | lexical {fault : Error} (failed : tokenize source text = .error fault) :
      Diagnostic source text scope? unit fault
  | syntactic {tokens : List Token} {fault : Error} (tokenized : tokenize source text = .ok tokens)
      (failed : parseTokens tokens = .error fault) : Diagnostic source text scope? unit fault
  | building {declarations : List Declaration} {fault : Error}
      (parsed : parse source text = .ok declarations)
      (failed : build (unitOf scope? unit declarations) = .error fault) :
      Diagnostic source text scope? unit fault
  | document {declarations : List Declaration} {registry : Registry} {fault : Error}
      (parsed : parse source text = .ok declarations)
      (built : build (unitOf scope? unit declarations) = .ok registry)
      (failed : JsonSchema.ofRegistry registry = .error fault) :
      Diagnostic source text scope? unit fault
  | bindings {declarations : List Declaration} {registry : Registry} {fault : Error}
      (target : Target) (parsed : parse source text = .ok declarations)
      (built : build (unitOf scope? unit declarations) = .ok registry)
      (failed : target.generate registry = .error fault) :
      Diagnostic source text scope? unit fault

/-- Bindings fail only at a place of a definition. -/
theorem Target.generate_collides (target : Target) {reg : Registry} (linked : reg.Linked)
    (shaped : reg.Shaped) :
    FailsOnly
      (fun fault => ∃ defn ∈ reg.definitions, target.Collides defn fault)
      (target.generate reg) := by
  cases target with
  | rust => exact (RustBindings.rust_decides linked shaped).failsOnly
  | typeScript =>
    have checked := (checkIdentifiers_decides .typeScript reg).imp Iff.rfl fun _ meet =>
      meet.collides
    refine checked.failsOnly.bind fun _ _ => ?_
    refine FailsOnly.bind ?_ fun _ _ => .of_ok ⟨_, rfl⟩
    exact .of_ok (TypeScriptBindings.generate_ok_of_linked linked)

theorem StartsToken.source_eq (starts : StartsToken source text place) : place.source = source := by
  obtain ⟨token, ⟨_, _, _, _, _, _, location⟩, rfl⟩ := starts
  rw [location]
  rfl

/-- A refused text is refused at a token or at its end. -/
theorem syntactic_points {tokens : List Token} {fault : Error}
    (tokenized : tokenize source text = .ok tokens) (failed : parseTokens tokens = .error fault) :
    ∃ found expected, fault = .unexpected found expected ∧
      (StartsToken source text found.location ∨ found.location = .behind source text.toList) := by
  obtain ⟨lexemes, left, isCut, ⟨_, body, placed, done⟩ | ⟨_, other, stuck, _⟩⟩ :=
    tokenize_places source text
  · rw [done] at tokenized
    obtain rfl := Except.ok.inj tokenized
    have terminated :
        isTerminated (body ++ [⟨.endOfText, "", .behind source text.toList⟩]) = true := by
      simp [isTerminated]
    obtain ⟨found, isRead, expected, isFault⟩ := parseTokens_refuses terminated failed
    refine ⟨found, expected, isFault, ?_⟩
    rcases mem_append.mp isRead with inside | isEnd
    · exact .inl ⟨found, tokenOf_of_placed isCut placed inside, rfl⟩
    · rw [mem_singleton.mp isEnd]
      exact .inr rfl
  · rw [stuck] at tokenized
    cases tokenized

/-- What a stage says of a definition is said of a token. -/
theorem startsToken_of_definition {reg : Registry}
    (parsed : parse source text = .ok decls)
    (built : build (unitOf scope? unit decls) = .ok reg)
    {defn : Definition} (member : defn ∈ reg.definitions)
    (isPlace : place ∈ defn.places) : StartsToken source text place :=
  startsToken_of_stands parsed (build_stands built member isPlace)

/-- Every error that the stages end in has a place in the text: the start of a token, the end of
the text, or, if the text cannot be cut, the place where it is stuck. A name that is declared twice
also points back to where it was declared first. -/
theorem diagnostics_point_into_source {fault : Error}
    (diagnostic : Diagnostic source text scope? unit fault) :
    (∃ place, fault.location? = some place ∧ place.source = source ∧
      (StartsToken source text place ∨ place = .behind source text.toList ∨
        (tokenize source text = .error fault ∧ StuckAt source text place))) ∧
    ∀ name here previous, fault = .duplicateDeclaration name here previous →
      PointsBack source text scope? name here previous := by
  cases diagnostic with
  | lexical failed =>
    obtain ⟨lexemes, left, isCut, ⟨_, _, _, done⟩ | ⟨nonempty, other, stuck, isFault⟩⟩ :=
      tokenize_places source text
    · rw [done] at failed
      cases failed
    · rw [stuck] at failed
      obtain rfl := Except.error.inj failed
      have isStuck : StuckAt source text (.behind source (spelling lexemes)) :=
        ⟨lexemes, left, isCut, nonempty, rfl⟩
      rcases isFault with rfl | rfl
      · exact ⟨⟨_, rfl, rfl, .inr (.inr ⟨stuck, isStuck⟩)⟩, nofun⟩
      · exact ⟨⟨_, rfl, rfl, .inr (.inr ⟨stuck, isStuck⟩)⟩, nofun⟩
  | syntactic tokenized failed =>
    obtain ⟨found, expected, rfl, starts | isEnd⟩ := syntactic_points tokenized failed
    · exact ⟨⟨_, rfl, starts.source_eq, .inl starts⟩, nofun⟩
    · exact ⟨⟨_, rfl, by rw [isEnd]; rfl, .inr (.inl isEnd)⟩, nofun⟩
  | building parsed failed =>
    have faulty := build_failsOnly _ fault failed
    obtain ⟨place, located, stands⟩ := faulty.stands
    have starts := startsToken_of_stands parsed stands
    refine ⟨⟨place, located, starts.source_eq, .inl starts⟩, ?_⟩
    rintro name here previous rfl
    cases faulty with
    | refused isThere refusal => exact pointsBack_of_refusal parsed isThere refusal
    | rule _ _ faulty =>
      cases faulty with
      | call _ faulty => cases faulty
  | document parsed built failed =>
    have invariant := build_invariant built
    obtain ⟨definition, member, field, isField, keyword, rfl⟩ :=
      JsonSchema.ofRegistry_failsOnlyIn invariant.linked
        (fun _ isEntry => invariant.entry_lt isEntry) fault failed
    have starts := startsToken_of_definition parsed built member (Definition.places_field isField)
    exact ⟨⟨_, rfl, starts.source_eq, .inl starts⟩, nofun⟩
  | @bindings declarations registry _ target parsed built failed =>
    have shaped : registry.Shaped := build_shaped (unitOf_shaped parsed) built
    obtain ⟨definition, member, construct, place, rfl, _, isPlace⟩ :=
      target.generate_collides (build_linked built) shaped fault failed
    have starts := startsToken_of_definition parsed built member isPlace
    exact ⟨⟨_, rfl, starts.source_eq, .inl starts⟩, nofun⟩

/-- A module that declares a name twice, the second time behind a comment on another line. -/
def repeatedName : String :=
  "type Part \x7b size: integer \x7d\n# again\n  enum Part \x7b small \x7d"

/-- The second name is refused where it stands and points back to the first, both of which are
tokens of the text. -/
theorem repeatedName_points_back :
    Diagnostic "parts" repeatedName (some "shop") 0
        (.duplicateDeclaration "shop.Part" ⟨"parts", 3, 8⟩ ⟨"parts", 1, 6⟩) ∧
      StartsToken "parts" repeatedName ⟨"parts", 3, 8⟩ ∧
      PointsBack "parts" repeatedName (some "shop") "shop.Part" ⟨"parts", 3, 8⟩ ⟨"parts", 1, 6⟩ := by
  obtain ⟨declarations, parsed, seen⟩ := Outcome.ok_of_view
    (show (parse "parts" repeatedName).toOption.map (fun declarations =>
        (build (unitOf (some "shop") 0 declarations)).map fun _ => ()) =
      some (.error (.duplicateDeclaration "shop.Part" ⟨"parts", 3, 8⟩ ⟨"parts", 1, 6⟩)) by
    decide +kernel)
  cases failed : build (unitOf (some "shop") 0 declarations) with
  | ok registry =>
    rw [failed] at seen
    cases seen
  | error fault =>
    rw [failed] at seen
    obtain rfl := Except.error.inj seen
    have diagnostic : Diagnostic "parts" repeatedName (some "shop") 0 _ := .building parsed failed
    obtain ⟨⟨place, located, _, starts | isEnd | ⟨stuck, _⟩⟩, pointsBack⟩ :=
      diagnostics_point_into_source diagnostic
    · obtain rfl := Option.some.inj located
      exact ⟨diagnostic, starts, pointsBack _ _ _ rfl⟩
    · obtain rfl := Option.some.inj located
      exact absurd isEnd (by decide +kernel)
    · obtain ⟨tokens, tokenized, _⟩ := Outcome.bind_ok_iff.mp parsed
      rw [stuck] at tokenized
      cases tokenized

end SchemaLang
