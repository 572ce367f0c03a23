import SchemaLang.Proofs.Declaration.Soundness

/-!
# Every phrase is read

Where a phrase of the language stands, a reader takes exactly its tokens and gives what it
says. Phrases follow each other without separators, so where a phrase may go on, what stands
behind it has to stop it: a reference is stopped by anything but a point, a type by anything
but a bar or a bracket, a rule by the key of the next rule or by the closing brace. Each of
these conditions is on the next token or two and follows from the production around the phrase.

A loop is given more rounds than the phrase has tokens.
-/

namespace SchemaLang.Reading

open Phrase List

/-! ## What stops a phrase -/

variable {result : FieldType String}

section Stops

variable {symbol : String} {symbols : List String} {token : Token} {tokens rest : List Token}

/-- A token that is some symbol is a symbol, so it is neither a name nor a number. -/
theorem kind_of_isSymbol (isSymbol : token.isSymbol symbol = true) : token.kind = .symbol := by
  simp only [Token.isSymbol, Bool.and_eq_true, decide_eq_true_eq] at isSymbol
  exact isSymbol.1

/-- A symbol stops what goes on with others. -/
theorem Stops.of_symbol (isSymbol : token.isSymbol symbol = true) (other : symbol ∉ symbols) :
    Stops symbols (token :: rest) := by
  refine ⟨token, rest, rfl, fun another member => ?_⟩
  simp only [Token.isSymbol, Bool.and_eq_true, decide_eq_true_eq] at isSymbol
  obtain ⟨_, rfl⟩ := isSymbol
  have different : token.text ≠ another := fun same => other (same ▸ member)
  simp [Token.isSymbol, different]

/-- What is not a symbol stops everything that goes on with one. -/
theorem Stops.of_kind (isOther : token.kind ≠ .symbol) : Stops symbols (token :: rest) :=
  ⟨token, rest, rfl, fun another _ => by simp [Token.isSymbol, isOther]⟩

/-- A name stops all that goes on with a symbol. -/
theorem Stops.of_name (isName : token.kind = .identifier) : Stops symbols (token :: rest) :=
  .of_kind (by simp [isName])

/-- What stops many symbols stops fewer of them. -/
theorem Stops.mono (stops : Stops symbols tokens) (fewer : List String)
    (subset : ∀ symbol ∈ fewer, symbol ∈ symbols) : Stops fewer tokens := by
  obtain ⟨token, rest, same, others⟩ := stops
  exact ⟨token, rest, same, fun symbol member => others symbol (subset symbol member)⟩

/-- What stops a phrase stands there: tokens do not run out inside a module. -/
theorem Stops.ne_nil (stops : Stops symbols tokens) : tokens ≠ [] := by
  obtain ⟨token, rest, rfl, _⟩ := stops
  exact cons_ne_nil token rest

/-- A symbol that may be left out stops what goes on with others, if what is behind it does. -/
theorem Stops.perhaps (perhaps : Perhaps symbol tokens) (stops : Stops symbols rest)
    (other : symbol ∉ symbols) : Stops symbols (tokens ++ rest) := by
  cases perhaps with
  | absent => exact stops
  | present isSymbol => exact .of_symbol isSymbol other

/-- What is repeated after a sign stops what goes on with other signs, repeated or not. -/
theorem Stops.further {α : Type} {phrase : List Token → α → Prop} {values : List α}
    (further : Further symbol phrase tokens values) (stops : Stops symbols rest)
    (other : symbol ∉ symbols) : Stops symbols (tokens ++ rest) := by
  cases further with
  | nil => exact stops
  | cons isSign _ _ => exact .of_symbol isSign other

/-- Brackets behind a type stop what does not go on with one. -/
theorem Stops.brackets {type : FieldType String} (brackets : Brackets tokens type result)
    (stops : Stops symbols rest) (other : "[" ∉ symbols) : Stops symbols (tokens ++ rest) := by
  cases brackets with
  | nil => exact stops
  | cons isOpening _ _ => exact .of_symbol isOpening other

/-- A symbol that is stopped is not seen. -/
theorem sees_of_stops (stops : Stops [symbol] tokens) :
    sees symbol tokens = .ok (false, tokens) := by
  obtain ⟨token, rest, rfl, others⟩ := stops
  exact sees_ok_iff.mpr ⟨rfl, token, rest, rfl, others symbol mem_cons_self⟩

/-- A symbol that is stopped is not taken. -/
theorem eat_of_stops (stops : Stops [symbol] tokens) : eat symbol tokens = .ok (false, tokens) :=
  eat_false_iff.mpr ⟨rfl, stops⟩

/-- A symbol that may be left out is taken if it is there. -/
theorem eat_reads (perhaps : Perhaps symbol tokens) (stops : Stops [symbol] rest) :
    ∃ taken, eat symbol (tokens ++ rest) = .ok (taken, rest) := by
  cases perhaps with
  | absent => exact ⟨false, eat_of_stops stops⟩
  | @present token isSymbol => exact ⟨true, eat_true_iff.mpr ⟨token, rfl, isSymbol⟩⟩

/-- Rounds counted from all tokens are more than those of a phrase with tokens behind it. -/
theorem length_lt_append (behind : rest ≠ []) : tokens.length < (tokens ++ rest).length := by
  rw [length_append]
  exact Nat.lt_add_of_pos_right (length_pos_of_ne_nil behind)

/-- A loop with more rounds than tokens has a first one. -/
theorem exists_round {count rounds : Nat} (enough : count < rounds) : ∃ fewer, rounds = fewer + 1 :=
  Nat.exists_eq_add_one_of_ne_zero (Nat.ne_zero_of_lt enough)

end Stops

/-! ## Types -/

variable {used : List Token} {rest : List Token}

/-- A bound is a number or is left out. The symbol behind it tells, since it is no number. -/
theorem bound_reads {kind : NumericKind} {value? : Option Double}
    (phrase : Bound kind used value?) {token : Token} {symbol : String}
    (isSymbol : token.isSymbol symbol = true) :
    bound kind (used ++ token :: rest) = .ok (value?, token :: rest) := by
  simp only [bound, bind_ok_iff, current_ok_iff]
  cases phrase with
  | absent =>
    have notNumber : token.kind ≠ .number := by simp [kind_of_isSymbol isSymbol]
    refine ⟨token, _, ⟨rfl, rest, rfl⟩, ?_⟩
    rw [if_neg notNumber]
    rfl
  | @present number value spells whole =>
    refine ⟨number, _, ⟨rfl, token :: rest, rfl⟩, ?_⟩
    rw [if_pos spells.isNumber, bind_ok_iff]
    refine ⟨value, _, number_ok_iff.mpr ⟨rfl, spells.read, spells.finite⟩, ?_⟩
    rw [if_neg (by simpa using whole), bind_ok_iff]
    exact ⟨number, _, (advance_ok_iff (by simp [spells.isNumber])).mpr ⟨rfl, rfl⟩, rfl⟩

variable {closes : Token}

/-- A range is read from its parentheses on. Its bounds are in order, so it is not refused. -/
theorem range_reads {kind : NumericKind} {opens point pointAgain : Token}
    {first second : List Token} {least? greatest? : Option Double}
    (isOpening : opens.isSymbol "(" = true) (least : Bound kind first least?)
    (isPoint : point.isSymbol "." = true) (isPointAgain : pointAgain.isSymbol "." = true)
    (greatest : Bound kind second greatest?) (isClosing : closes.isSymbol ")" = true)
    (ordered : Ordered least? greatest?) :
    range kind (opens :: (first ++ point :: pointAgain :: (second ++ closes :: rest))) =
      .ok (.range kind least? greatest?, rest) := by
  simp only [range, bind_ok_iff, expect_ok_iff]
  refine ⟨opens, _, ⟨rfl, isOpening⟩, least?, _, bound_reads least isPoint, point, _,
    ⟨rfl, isPoint⟩, pointAgain, _, ⟨rfl, isPointAgain⟩, greatest?, _,
    bound_reads greatest isClosing, closes, _, ⟨rfl, isClosing⟩, ?_⟩
  rw [if_neg (by simpa using ordered_iff.mpr ordered)]
  rfl

/-- A name takes all parts that follow, and no point behind them is left to go on with. -/
theorem nameParts_reads {names : List String} (further : Further "." Name used names)
    (stops : Stops ["."] rest) : nameParts (used ++ rest) = (joined names, rest) := by
  induction further with
  | nil =>
    obtain ⟨token, rest, rfl, others⟩ := stops
    have notPoint : token.isSymbol "." = false := others "." mem_cons_self
    cases rest with
    | nil => rfl
    | cons part rest => simp [nameParts, notPoint, joined]
  | @cons point _ _ _ _ isPoint next _ ih =>
    obtain ⟨isName⟩ := next
    simp [nameParts, isPoint, isName, ih, joined]

/-- The primitive of a numeric kind may have a range. -/
theorem numericKind?_primitive (kind : NumericKind) : kind.primitive.numericKind? = some kind := by
  cases kind <;> rfl

variable {type : FieldType String}

/-- A type without brackets is a primitive, a range or a name. A parenthesis behind a primitive
would start a range, and a point behind a name another part. -/
theorem atom_reads (phrase : Atom used type) (stops : Stops [".", "("] rest) :
    atom (used ++ rest) = .ok (type, rest) := by
  cases phrase with
  | @primitive token kind isName builtIn =>
    simp only [atom, bind_ok_iff, identifier_ok_iff]
    refine ⟨token, rest, ⟨rfl, isName⟩, ?_⟩
    simp only [builtIn, bind_ok_iff]
    exact ⟨false, rest, sees_of_stops (stops.mono _ (by simp)), rfl⟩
  | @range token opens point pointAgain closes first second kind least? greatest? isName builtIn
      isOpening least isPoint isPointAgain greatest isClosing ordered =>
    simp only [cons_append, append_assoc, nil_append, atom, bind_ok_iff, identifier_ok_iff]
    refine ⟨token, _, ⟨rfl, isName⟩, ?_⟩
    simp only [builtIn, bind_ok_iff]
    refine ⟨true, _, sees_ok_iff.mpr ⟨rfl, opens, _, rfl, isOpening⟩, ?_⟩
    simp only [if_true, numericKind?_primitive]
    exact range_reads isOpening least isPoint isPointAgain greatest isClosing ordered
  | @reference token parts names isName declared further =>
    simp only [atom, bind_ok_iff, identifier_ok_iff]
    refine ⟨token, parts ++ rest, ⟨rfl, isName⟩, ?_⟩
    simp only [declared, bind_ok_iff]
    refine ⟨_, _, rfl, ?_⟩
    rw [nameParts_reads further (stops.mono _ (by simp)), ← append_joined]
    exact ⟨(), rest, rfl, rfl⟩

variable {rounds : Nat}

/-- Each pair of brackets makes an array, from the inside to the outside. -/
theorem brackets_reads {result : FieldType String} (phrase : Brackets used type result)
    (stops : Stops ["["] rest) (enough : used.length < rounds) :
    brackets rounds type (used ++ rest) = .ok (result, rest) := by
  induction phrase generalizing rounds with
  | nil =>
    obtain ⟨fewer, rfl⟩ := exists_round enough
    simp only [brackets, bind_ok_iff]
    exact ⟨false, rest, eat_of_stops stops, rfl⟩
  | @cons opens closes others type result isOpening isClosing further ih =>
    obtain ⟨fewer, rfl⟩ := exists_round enough
    simp only [brackets, bind_ok_iff]
    refine ⟨true, _, eat_true_iff.mpr ⟨opens, rfl, isOpening⟩, ?_⟩
    simp only [if_true, bind_ok_iff, expect_ok_iff]
    exact ⟨closes, _, ⟨rfl, isClosing⟩, ih (by grind)⟩

/-- A type without bars is read with its brackets. -/
theorem arm_reads (phrase : Arm used type) (stops : Stops [".", "(", "["] rest) :
    arm (used ++ rest) = .ok (type, rest) := by
  obtain ⟨atom, brackets⟩ := phrase
  have stopsAtom := Stops.brackets brackets (stops.mono [".", "("] (by simp)) (by simp)
  simp only [append_assoc, arm, bind_ok_iff, remaining_ok_iff]
  exact ⟨_, _, atom_reads atom stopsAtom, _, _, ⟨rfl, rfl⟩,
    brackets_reads brackets (stops.mono _ (by simp)) (length_lt_append stops.ne_nil)⟩

/-- The arms of a union are read as long as bars follow. -/
theorem furtherArms_reads {rest : List Token} {types : List (FieldType String)}
    (phrase : Further "|" Arm used types) (stops : Stops [".", "(", "[", "|"] rest)
    (enough : used.length < rounds) : furtherArms rounds (used ++ rest) = .ok (types, rest) := by
  induction phrase generalizing rounds with
  | nil =>
    obtain ⟨fewer, rfl⟩ := exists_round enough
    simp only [furtherArms, bind_ok_iff]
    exact ⟨false, rest, eat_of_stops (stops.mono _ (by simp)), rfl⟩
  | @cons bar tokens others type types isBar arm further ih =>
    obtain ⟨fewer, rfl⟩ := exists_round enough
    have stopsArm := Stops.further further (stops.mono [".", "(", "["] (by simp)) (by simp)
    simp only [cons_append, append_assoc, furtherArms, bind_ok_iff]
    refine ⟨true, _, eat_true_iff.mpr ⟨bar, rfl, isBar⟩, ?_⟩
    simp only [if_true, bind_ok_iff]
    exact ⟨type, _, arm_reads arm stopsArm, types, rest, ih (by grind), rfl⟩

/-- A type is a union exactly if a bar follows its first arm. -/
theorem fieldType_reads {rest : List Token} (phrase : TypeExpression used type)
    (stops : Stops [".", "(", "[", "|"] rest) : fieldType (used ++ rest) = .ok (type, rest) := by
  cases phrase with
  | single arm =>
    simp only [fieldType, bind_ok_iff, remaining_ok_iff]
    exact ⟨type, rest, arm_reads arm (stops.mono _ (by simp)), _, _, ⟨rfl, rfl⟩, [], rest,
      furtherArms_reads .nil stops (length_pos_of_ne_nil stops.ne_nil), rfl⟩
  | @union tokens others first second types arm further =>
    have stopsArm := Stops.further further (stops.mono [".", "(", "["] (by simp)) (by simp)
    simp only [append_assoc, fieldType, bind_ok_iff, remaining_ok_iff]
    exact ⟨first, _, arm_reads arm stopsArm, _, _, ⟨rfl, rfl⟩, second :: types, rest,
      furtherArms_reads further stops (length_lt_append stops.ne_nil), rfl⟩

/-! ## Records and enums -/

/-- What stands in braces goes on with a name or ends with the closing brace. -/
inductive Resumes : List Token → Prop where
  | name {token : Token} {rest : List Token} (isName : token.kind = .identifier) :
      Resumes (token :: rest)
  | closing {token : Token} {rest : List Token} (isClosing : token.isSymbol "\x7d" = true) :
      Resumes (token :: rest)

variable {symbols : List String} {tokens : List Token}

/-- Names and closing braces stop all that goes on with another symbol. -/
theorem Resumes.stops (resumes : Resumes tokens) (other : "\x7d" ∉ symbols) :
    Stops symbols tokens := by
  cases resumes with
  | name isName => exact .of_name isName
  | closing isClosing => exact .of_symbol isClosing other

/-- Phrases that start with a name go on with the next one or end with the closing brace. -/
theorem Resumes.many {α : Type} {phrase : List Token → α → Prop} {values : List α}
    {closes : Token} (many : Many phrase tokens values)
    (named : ∀ used value, phrase used value → ∃ name others, used = name :: others ∧ name.kind =
      .identifier) (isClosing : closes.isSymbol "\x7d" = true) :
    Resumes (tokens ++ closes :: rest) := by
  cases many with
  | nil => exact .closing isClosing
  | cons first _ =>
    obtain ⟨name, others, rfl, isName⟩ := named _ _ first
    exact .name isName

/-- The mark after a type is left out. -/
theorem optionalMark_of_stops {already : Bool} (stops : Stops ["?"] tokens) :
    optionalMark already tokens = .ok (already, tokens) := by
  simp only [optionalMark, bind_ok_iff, current_ok_iff]
  have unmarked := eat_of_stops stops
  obtain ⟨token, rest, same, _⟩ := stops
  exact ⟨token, tokens, ⟨rfl, rest, same⟩, false, tokens, unmarked, rfl⟩

/-- The mark after a type is taken if there is none after the name. -/
theorem optionalMark_reads {mark : Token} (isMark : mark.isSymbol "?" = true) :
    optionalMark false (mark :: rest) = .ok (true, rest) := by
  simp only [optionalMark, bind_ok_iff, current_ok_iff]
  exact ⟨mark, _, ⟨rfl, rest, rfl⟩, true, rest, eat_true_iff.mpr ⟨mark, rfl, isMark⟩, rfl⟩

/-- A field is read whatever its two marks are. -/
theorem field_reads_marked {name colon : Token} {start ending comma : List Token}
    {markedName optional : Bool} (isName : name.kind = .identifier)
    (nameMark : eat "?" start = .ok (markedName, colon :: (tokens ++ ending)))
    (isColon : colon.isSymbol ":" = true) (typed : TypeExpression tokens type)
    (stops : Stops [".", "(", "[", "|"] ending)
    (typeMark : optionalMark markedName ending = .ok (optional, comma ++ rest))
    (separated : Perhaps "," comma) (resumes : Resumes rest) :
    field (name :: start) =
      .ok (⟨name.text, if optional then .optional type else type, name.location⟩, rest) := by
  have stopped : Stops ["|", "["] (comma ++ rest) :=
    .perhaps separated (resumes.stops (by simp)) (by simp)
  simp only [field, bind_ok_iff, identifier_ok_iff, expect_ok_iff]
  refine ⟨name, _, ⟨rfl, isName⟩, markedName, _, nameMark, colon, _, ⟨rfl, isColon⟩, type, _,
    fieldType_reads typed stops, optional, _, typeMark, false, _,
    sees_of_stops (stopped.mono _ (by simp)), false, _, sees_of_stops (stopped.mono _ (by simp)),
    ?_⟩
  obtain ⟨taken, eaten⟩ := eat_reads separated (resumes.stops (by simp))
  rw [if_neg (by simp), bind_ok_iff]
  exact ⟨taken, rest, eaten, rfl⟩

/-- A field is read up to the next field or the closing brace, with its comma if it has one. -/
theorem field_reads {value : Field} (phrase : FieldPhrase used value) (resumes : Resumes rest) :
    field (used ++ rest) = .ok (value, rest) := by
  cases phrase with
  | @mandatory name colon tokens comma type isName isColon typed separated =>
    have stops : Stops [".", "(", "[", "|", "?"] (comma ++ rest) :=
      .perhaps separated (resumes.stops (by simp)) (by simp)
    rw [cons_append, cons_append, append_assoc]
    exact field_reads_marked isName (eat_of_stops (.of_symbol isColon (by simp))) isColon typed
      (stops.mono _ (by simp)) (optionalMark_of_stops (stops.mono _ (by simp))) separated resumes
  | @markedName name mark colon tokens comma type isName isMark isColon typed separated =>
    have stops : Stops [".", "(", "[", "|", "?"] (comma ++ rest) :=
      .perhaps separated (resumes.stops (by simp)) (by simp)
    rw [cons_append, cons_append, cons_append, append_assoc]
    exact field_reads_marked isName (eat_true_iff.mpr ⟨mark, rfl, isMark⟩) isColon typed
      (stops.mono _ (by simp)) (optionalMark_of_stops (stops.mono _ (by simp))) separated resumes
  | @markedType name mark colon tokens comma type isName isColon typed isMark separated =>
    rw [cons_append, cons_append, append_assoc, cons_append]
    exact field_reads_marked isName (eat_of_stops (.of_symbol isColon (by simp))) isColon typed
      (.of_symbol isMark (by simp)) (optionalMark_reads isMark) separated resumes

/-- Fields are read up to the closing brace. Their names are different, also from those before, so
none is refused. -/
theorem fields_reads {earlier added : List Field} (phrase : Many FieldPhrase used added)
    (distinct : ((earlier ++ added).map Field.name).Nodup)
    (isClosing : closes.isSymbol "\x7d" = true) (enough : used.length < rounds) :
    fields rounds earlier (used ++ closes :: rest) = .ok (earlier ++ added, rest) := by
  induction phrase generalizing rounds earlier with
  | nil =>
    obtain ⟨fewer, rfl⟩ := exists_round enough
    simp only [fields, bind_ok_iff]
    exact ⟨true, rest, eat_true_iff.mpr ⟨closes, rfl, isClosing⟩, by rw [append_nil]; rfl⟩
  | @cons tokens others next added first listed ih =>
    obtain ⟨fewer, rfl⟩ := exists_round enough
    obtain ⟨name, tokens, rfl, isName⟩ := first.named
    simp only [append_assoc, fields, bind_ok_iff]
    refine ⟨false, _, eat_of_stops (.of_name isName), ?_⟩
    simp only [Bool.false_eq_true, if_false, bind_ok_iff]
    refine ⟨next, _, field_reads first (.many listed (fun _ _ => FieldPhrase.named) isClosing), ?_⟩
    have isNew : ¬ (earlier.any fun other => other.name = next.name) = true := by
      simp only [any_eq_true, decide_eq_true_eq, not_exists, not_and]
      intro other isEarlier same
      rw [map_append, map_cons, nodup_append] at distinct
      exact distinct.2.2 _ (mem_map_of_mem isEarlier) _ mem_cons_self same
    rw [append_cons earlier] at distinct
    rw [if_neg isNew, append_cons earlier next added]
    exact ih distinct (by grind)

/-- A record is read from its name to its closing brace. -/
theorem record_reads {content : RecordDeclaration} (phrase : Record used content) :
    record (used ++ rest) = .ok (content, rest) := by
  obtain ⟨isName, isOpening, listed, distinct, isClosing⟩ := phrase
  simp only [cons_append, append_assoc, nil_append, record, bind_ok_iff,
    identifier_ok_iff, expect_ok_iff, remaining_ok_iff]
  exact ⟨_, _, ⟨rfl, isName⟩, _, _, ⟨rfl, isOpening⟩, _, _, ⟨rfl, rfl⟩, _, _,
    fields_reads listed distinct isClosing (length_lt_append (by simp)), rfl⟩

/-- Members are read up to the closing brace, which stays. They are different, also from those
before, so none is refused. -/
theorem members_reads {earlier added : List String} (phrase : Many Member used added)
    (distinct : (earlier ++ added).Nodup) (isClosing : closes.isSymbol "\x7d" = true)
    (enough : used.length < rounds) :
    members rounds earlier (used ++ closes :: rest) = .ok (earlier ++ added, closes :: rest) := by
  induction phrase generalizing rounds earlier with
  | nil =>
    obtain ⟨fewer, rfl⟩ := exists_round enough
    simp only [members, bind_ok_iff, sees_ok_iff]
    exact ⟨true, _, ⟨rfl, closes, rest, rfl, isClosing⟩, by rw [append_nil]; rfl⟩
  | @cons tokens others next added first listed ih =>
    obtain ⟨fewer, rfl⟩ := exists_round enough
    obtain @⟨name, comma, isName, separated⟩ := first
    have resumes : Resumes (others ++ closes :: rest) :=
      .many listed (fun _ _ => Member.named) isClosing
    obtain ⟨taken, eaten⟩ := eat_reads separated (resumes.stops (by simp))
    simp only [cons_append, append_assoc, members, bind_ok_iff]
    refine ⟨false, _, sees_of_stops (.of_name isName), ?_⟩
    simp only [Bool.false_eq_true, if_false, bind_ok_iff, identifier_ok_iff]
    refine ⟨name, _, ⟨rfl, isName⟩, ?_⟩
    have isNew : ¬ earlier.contains name.text = true := by
      rw [contains_iff_mem]
      intro isEarlier
      exact (nodup_append.mp distinct).2.2 _ isEarlier _ mem_cons_self rfl
    rw [append_cons earlier] at distinct
    rw [if_neg isNew, bind_ok_iff, append_cons earlier name.text added]
    exact ⟨taken, _, eaten, ih distinct (by grind)⟩

/-- An enum is read from its name to its closing brace. It has a member, so it is not refused. -/
theorem enumeration_reads {content : EnumDeclaration} (phrase : Enumeration used content) :
    enumeration (used ++ rest) = .ok (content, rest) := by
  obtain ⟨isName, isOpening, listed, nonempty, distinct, isClosing⟩ := phrase
  simp only [cons_append, append_assoc, nil_append, enumeration, bind_ok_iff,
    identifier_ok_iff, expect_ok_iff, remaining_ok_iff]
  refine ⟨_, _, ⟨rfl, isName⟩, _, _, ⟨rfl, isOpening⟩, _, _, ⟨rfl, rfl⟩, _, _,
    members_reads listed distinct isClosing (length_lt_append (by simp)), ?_⟩
  rw [if_neg (by simpa using nonempty), bind_ok_iff]
  exact ⟨_, _, expect_ok_iff.mpr ⟨rfl, isClosing⟩, rfl⟩

/-! ## Validation blocks -/

/-- An argument is one token, and its kind says what it is. -/
theorem argument_reads {value : Argument} (phrase : ArgumentPhrase used value) :
    argument (used ++ rest) = .ok (value, rest) := by
  simp only [argument, bind_ok_iff, current_ok_iff]
  cases phrase with
  | @text token isText =>
    refine ⟨token, _, ⟨rfl, rest, rfl⟩, ?_⟩
    rw [isText, bind_ok_iff]
    exact ⟨token, rest, (advance_ok_iff (by simp [isText])).mpr ⟨rfl, rfl⟩, rfl⟩
  | @number token value spells =>
    refine ⟨token, _, ⟨rfl, rest, rfl⟩, ?_⟩
    simp only [spells.isNumber, bind_ok_iff]
    exact ⟨value, _, number_ok_iff.mpr ⟨rfl, spells.read, spells.finite⟩, token, rest,
      (advance_ok_iff (by simp [spells.isNumber])).mpr ⟨rfl, rfl⟩, rfl⟩
  | @word token isName =>
    refine ⟨token, _, ⟨rfl, rest, rfl⟩, ?_⟩
    rw [isName, bind_ok_iff]
    exact ⟨token, rest, (advance_ok_iff (by simp [isName])).mpr ⟨rfl, rfl⟩, rfl⟩

/-- Further arguments are added to those before. -/
theorem arguments_reads_further {earlier added : List Argument}
    (phrase : Further "," ArgumentPhrase used added) (nonempty : earlier.isEmpty = false)
    (isClosing : closes.isSymbol ")" = true) (enough : used.length < rounds) :
    arguments rounds earlier (used ++ closes :: rest) = .ok (earlier ++ added, rest) := by
  induction phrase generalizing rounds earlier with
  | nil =>
    obtain ⟨fewer, rfl⟩ := exists_round enough
    simp only [arguments, bind_ok_iff]
    exact ⟨true, rest, eat_true_iff.mpr ⟨closes, rfl, isClosing⟩, by rw [append_nil]; rfl⟩
  | @cons comma tokens others next added isComma argument further ih =>
    obtain ⟨fewer, rfl⟩ := exists_round enough
    simp only [cons_append, append_assoc, arguments, nonempty, bind_ok_iff]
    refine ⟨false, _, eat_of_stops (.of_symbol isComma (by simp)), ?_⟩
    simp only [Bool.false_eq_true, Bool.not_false, if_false, if_true, bind_ok_iff, expect_ok_iff]
    rw [append_cons earlier next added]
    exact ⟨comma, _, ⟨rfl, isComma⟩, next, _, argument_reads argument, ih (by simp) (by grind)⟩

/-- An argument is no symbol. -/
theorem Stops.argument {value : Argument} (phrase : ArgumentPhrase used value) :
    Stops symbols (used ++ rest) := by
  cases phrase with
  | text isText => exact .of_kind (by simp [isText])
  | number spells => exact .of_kind (by simp [spells.isNumber])
  | word isName => exact .of_name isName

/-- Arguments are read up to the closing parenthesis, and a comma stands before each but the first.
-/
theorem arguments_reads {all : List Argument} (phrase : Arguments used all)
    (isClosing : closes.isSymbol ")" = true) (enough : used.length < rounds) :
    arguments rounds [] (used ++ closes :: rest) = .ok (all, rest) := by
  obtain ⟨fewer, rfl⟩ := exists_round enough
  simp only [arguments, bind_ok_iff]
  cases phrase with
  | none => exact ⟨true, rest, eat_true_iff.mpr ⟨closes, rfl, isClosing⟩, rfl⟩
  | @some tokens others value values first further =>
    rw [append_assoc]
    refine ⟨false, _, eat_of_stops (.argument first), ?_⟩
    simp only [Bool.false_eq_true, isEmpty_nil, Bool.not_true, if_false, bind_ok_iff]
    have enoughOthers : others.length < fewer := by
      have taken := first.length_eq_one
      rw [length_append] at enough
      omega
    exact ⟨value, _, argument_reads first,
      arguments_reads_further further rfl isClosing enoughOthers⟩

variable {value : Call}

/-- A constraint has arguments exactly if a parenthesis follows its name. -/
theorem call_reads (phrase : CallPhrase used value) (stops : Stops ["("] rest) :
    call (used ++ rest) = .ok (value, rest) := by
  cases phrase with
  | @bare name isName =>
    simp only [call, bind_ok_iff, identifier_ok_iff]
    exact ⟨name, rest, ⟨rfl, isName⟩, false, rest, eat_of_stops stops, rfl⟩
  | @applied name opens closes tokens arguments isName isOpening given isClosing =>
    simp only [cons_append, append_assoc, nil_append, call, bind_ok_iff, identifier_ok_iff]
    refine ⟨name, _, ⟨rfl, isName⟩, true, _, eat_true_iff.mpr ⟨opens, rfl, isOpening⟩, ?_⟩
    simp only [if_true, bind_ok_iff, remaining_ok_iff]
    exact ⟨_, _, ⟨rfl, rfl⟩, arguments, rest,
      arguments_reads given isClosing (length_lt_append (by simp)), rfl⟩

/-- A constraint is not the key of a rule, unless a colon follows its name. -/
theorem beginsRule_call (phrase : CallPhrase used value) (stops : Stops [":"] rest) :
    beginsRule (used ++ rest) = false := by
  cases phrase with
  | bare isName =>
    obtain ⟨token, others, rfl, noColon⟩ := stops
    simp [beginsRule, noColon]
  | @applied name opens closes tokens arguments isName isOpening given isClosing =>
    have stopsName : Stops [":"] (opens :: (tokens ++ [closes])) := .of_symbol isOpening (by simp)
    obtain ⟨_, _, ⟨⟩, noColon⟩ := stopsName
    simp [beginsRule, noColon]

/-- Rules go on with the key of the next one or end with the closing brace. -/
inductive RuleEnds : List Token → Prop where
  | key {key colon : Token} {rest : List Token} (isKey : key.kind = .identifier)
      (isColon : colon.isSymbol ":" = true) : RuleEnds (key :: colon :: rest)
  | closing {token : Token} {rest : List Token} (isClosing : token.isSymbol "\x7d" = true) :
      RuleEnds (token :: rest)

/-- Where a rule ends, what stands in braces resumes. -/
theorem RuleEnds.resumes (ends : RuleEnds tokens) : Resumes tokens := by
  cases ends with
  | key isKey _ => exact .name isKey
  | closing isClosing => exact .closing isClosing

/-- A comma before the end of a rule is its last. -/
theorem furtherCalls_ends {comma : Token} (isComma : comma.isSymbol "," = true)
    (ends : RuleEnds rest) : furtherCalls (rounds + 1) (comma :: rest) = .ok ([], rest) := by
  simp only [furtherCalls, bind_ok_iff]
  refine ⟨true, rest, eat_true_iff.mpr ⟨comma, rfl, isComma⟩, ?_⟩
  simp only [if_true, bind_ok_iff]
  cases ends with
  | @key key colon rest isKey isColon =>
    have begins : beginsRule (key :: colon :: rest) = true := by simp [beginsRule, isKey, isColon]
    refine ⟨_, _, rfl, false, _, sees_of_stops (.of_name isKey), ?_⟩
    rw [begins]
    rfl
  | @closing token rest isClosing =>
    refine ⟨_, _, rfl, true, _, sees_ok_iff.mpr ⟨rfl, token, rest, rfl, isClosing⟩, ?_⟩
    rw [Bool.or_true]
    rfl

/-- A constraint starts with its name. -/
theorem Stops.call (phrase : CallPhrase used value) : Stops symbols (used ++ rest) := by
  cases phrase with
  | bare isName | applied isName _ _ _ => exact .of_name isName

/-- The constraints of a rule are read as long as commas are followed by one. The comma at the end
of the rule is taken as well. -/
theorem furtherCalls_reads {comma rest : List Token} {calls : List Call}
    (phrase : Further "," CallPhrase used calls) (separated : Perhaps "," comma)
    (ends : RuleEnds rest) (enough : used.length < rounds) :
    furtherCalls rounds (used ++ (comma ++ rest)) = .ok (calls, rest) := by
  induction phrase generalizing rounds with
  | nil =>
    obtain ⟨fewer, rfl⟩ := exists_round enough
    cases separated with
    | absent =>
      simp only [furtherCalls, bind_ok_iff]
      exact ⟨false, rest, eat_of_stops (ends.resumes.stops (by simp)), rfl⟩
    | present isComma => exact furtherCalls_ends isComma ends
  | @cons sign tokens others call calls isSign next further ih =>
    obtain ⟨fewer, rfl⟩ := exists_round enough
    have stops : Stops ["(", ":"] (others ++ (comma ++ rest)) :=
      .further further (.perhaps separated (ends.resumes.stops (by simp)) (by simp)) (by simp)
    simp only [cons_append, append_assoc, furtherCalls, bind_ok_iff]
    refine ⟨true, _, eat_true_iff.mpr ⟨sign, rfl, isSign⟩, ?_⟩
    simp only [if_true, bind_ok_iff]
    -- What is behind the comma is neither a key nor a brace: no colon follows its name.
    refine ⟨_, _, rfl, false, _, sees_of_stops (.call next), ?_⟩
    rw [beginsRule_call next (stops.mono _ (by simp)), Bool.or_false, if_neg (by simp), bind_ok_iff]
    refine ⟨call, _, call_reads next (stops.mono _ (by simp)), ?_⟩
    rw [bind_ok_iff]
    exact ⟨calls, rest, ih (by grind), rfl⟩

/-- A rule ends where the rules behind it begin, or at the brace. -/
theorem RuleEnds.many {rules : List Rule} {closes : Token} (many : Many RulePhrase tokens rules)
    (isClosing : closes.isSymbol "\x7d" = true) : RuleEnds (tokens ++ closes :: rest) := by
  cases many with
  | nil => exact .closing isClosing
  | cons first _ =>
    obtain ⟨isKey, isColon, _, _, _⟩ := first
    exact .key isKey isColon

/-- Rules are read up to the closing brace of their block. -/
theorem rules_reads {rest : List Token} {values : List Rule} (phrase : Many RulePhrase used values)
    (isClosing : closes.isSymbol "\x7d" = true) (enough : used.length < rounds) :
    rules rounds (used ++ closes :: rest) = .ok (values, rest) := by
  induction phrase generalizing rounds with
  | nil =>
    obtain ⟨fewer, rfl⟩ := exists_round enough
    simp only [rules, bind_ok_iff]
    exact ⟨true, rest, eat_true_iff.mpr ⟨closes, rfl, isClosing⟩, rfl⟩
  | @cons tokens others rule values first listed ih =>
    obtain ⟨fewer, rfl⟩ := exists_round enough
    obtain @⟨key, colon, tokens, further, comma, call, calls, isKey, isColon, first, more,
      separated⟩ := first
    have ends : RuleEnds (others ++ closes :: rest) := .many listed isClosing
    have stops : Stops ["("] (further ++ (comma ++ (others ++ closes :: rest))) :=
      .further more (.perhaps separated (ends.resumes.stops (by simp)) (by simp)) (by simp)
    simp only [cons_append, append_assoc, rules, bind_ok_iff]
    refine ⟨false, _, eat_of_stops (.of_name isKey), ?_⟩
    simp only [Bool.false_eq_true, if_false, bind_ok_iff, identifier_ok_iff, expect_ok_iff,
      remaining_ok_iff]
    exact ⟨key, _, ⟨rfl, isKey⟩, colon, _, ⟨rfl, isColon⟩, call, _, call_reads first stops, _, _,
      ⟨rfl, rfl⟩, calls, _, furtherCalls_reads more separated ends (length_lt_append (by simp)),
      values, rest, ih (by grind), rfl⟩

variable {keyword : Token}

/-- A block is read from its opening brace on, whatever it is about. -/
theorem block_reads {opens : Token} {target? : Option String} {values : List Rule}
    (isOpening : opens.isSymbol "\x7b" = true) (listed : Many RulePhrase tokens values)
    (isClosing : closes.isSymbol "\x7d" = true) :
    (do
      let _ ← expect "\x7b"
      let rules ← rules (← remaining)
      return ⟨target?, rules, keyword.location⟩ : Reading ValidationBlock)
      (opens :: (tokens ++ closes :: rest)) = .ok (⟨target?, values, keyword.location⟩, rest) := by
  simp only [bind_ok_iff, expect_ok_iff, remaining_ok_iff]
  exact ⟨opens, _, ⟨rfl, isOpening⟩, _, _, ⟨rfl, rfl⟩, values, rest,
    rules_reads listed isClosing (length_lt_append (by simp)), rfl⟩

/-- A block is about the name before its brace, if one stands there. -/
theorem validation_reads {content : ValidationBlock} (phrase : Validation keyword used content) :
    validation keyword (used ++ rest) = .ok (content, rest) := by
  obtain @⟨opens, closes, target, tokens, target?, rules, isTarget, isOpening, listed, isClosing⟩ :=
    phrase
  simp only [cons_append, append_assoc, nil_append, validation, bind_ok_iff, current_ok_iff]
  cases isTarget with
  | preceding =>
    have notName : opens.kind ≠ .identifier := by simp [kind_of_isSymbol isOpening]
    refine ⟨opens, _, ⟨rfl, _, rfl⟩, ?_⟩
    rw [if_neg notName]
    exact block_reads isOpening listed isClosing
  | @named name isName =>
    refine ⟨name, _, ⟨rfl, _, rfl⟩, ?_⟩
    rw [if_pos isName, bind_ok_iff]
    exact ⟨name, _, (advance_ok_iff (by simp [isName])).mpr ⟨rfl, rfl⟩,
      block_reads isOpening listed isClosing⟩

/-! ## Modules -/

/-- The next token is no alias of an import before it. -/
def Unaliased (tokens : List Token) : Prop :=
  ∃ token rest, tokens = token :: rest ∧ token.isKeyword "as" = false

/-- An import is read with its alias. Without one, what stands behind it must not look like one. -/
theorem importing_reads {content : Import} (phrase : Importing keyword used content)
    (unaliased : Unaliased rest) : importing keyword (used ++ rest) = .ok (content, rest) := by
  obtain @⟨path, tokens, alias?, isText, nonempty, isAlias⟩ := phrase
  simp only [cons_append, importing, bind_ok_iff, current_ok_iff]
  refine ⟨path, _, ⟨rfl, _, rfl⟩, ?_⟩
  rw [if_neg (by simpa using isText), bind_ok_iff]
  refine ⟨path, _, (advance_ok_iff (by simp [isText])).mpr ⟨rfl, rfl⟩, ?_⟩
  simp only [if_neg nonempty, bind_ok_iff, current_ok_iff]
  cases isAlias with
  | absent =>
    obtain ⟨token, rest, rfl, noAlias⟩ := unaliased
    refine ⟨token, _, ⟨rfl, _, rfl⟩, ?_⟩
    rw [noAlias]
    rfl
  | @present word name isWord isName =>
    refine ⟨word, _, ⟨rfl, _, rfl⟩, ?_⟩
    simp only [isWord, if_true, bind_ok_iff, identifier_ok_iff]
    exact ⟨word, _, (advance_ok_iff (not_end_of_isKeyword isWord)).mpr ⟨rfl, rfl⟩, name, rest,
      ⟨rfl, isName⟩, rfl⟩

/-- A word is no other word. -/
theorem isKeyword_eq {token : Token} {word : String} (isWord : token.isKeyword word = true)
    (other : String) : token.isKeyword other = decide (word = other) := by
  simp only [Token.isKeyword, Bool.and_eq_true, decide_eq_true_eq] at isWord
  simp [Token.isKeyword, isWord]

/-- What a declaration says is read after its keyword. -/
theorem reads_after {content : Type} {reader : Reading content} {made : content → Declaration}
    {value : content} {word : String} (isKeyword : keyword.isKeyword word = true)
    (reads : reader (used ++ rest) = .ok (value, rest)) :
    (do let _ ← advance; return made (← reader) : Reading Declaration) (keyword :: used ++ rest) =
      .ok (made value, rest) := by
  simp only [bind_ok_iff, cons_append, advance_ok_iff (not_end_of_isKeyword isKeyword)]
  exact ⟨keyword, _, ⟨rfl, rfl⟩, value, rest, reads, rfl⟩

/-- A declaration is what its keyword says. The keywords are different, so the tests before it fail.
-/
theorem declaration_reads {value : Declaration} (phrase : DeclarationPhrase used value)
    (unaliased : Unaliased rest) : declaration (used ++ rest) = .ok (value, rest) := by
  simp only [declaration, bind_ok_iff, current_ok_iff]
  cases phrase with
  | @moduleImport keyword tokens content isKeyword phrase =>
    refine ⟨keyword, _, ⟨rfl, _, rfl⟩, ?_⟩
    rw [if_pos isKeyword]
    exact reads_after isKeyword (importing_reads phrase unaliased)
  | @enumeration keyword tokens content isKeyword phrase =>
    refine ⟨keyword, _, ⟨rfl, _, rfl⟩, ?_⟩
    simp only [isKeyword_eq isKeyword, decide_eq_true_eq, String.reduceEq, reduceIte]
    exact reads_after isKeyword (enumeration_reads phrase)
  | @record keyword tokens content isKeyword phrase =>
    refine ⟨keyword, _, ⟨rfl, _, rfl⟩, ?_⟩
    simp only [isKeyword_eq isKeyword, decide_eq_true_eq, String.reduceEq, reduceIte]
    exact reads_after isKeyword (record_reads phrase)
  | @entry keyword tokens content isKeyword phrase =>
    refine ⟨keyword, _, ⟨rfl, _, rfl⟩, ?_⟩
    rcases isKeyword with isKeyword | isKeyword
    all_goals
      simp only [isKeyword_eq isKeyword, Bool.or_eq_true, decide_eq_true_eq, String.reduceEq,
        or_true, true_or, reduceIte]
      exact reads_after isKeyword (record_reads phrase)
  | @validation keyword tokens content isKeyword phrase =>
    refine ⟨keyword, _, ⟨rfl, _, rfl⟩, ?_⟩
    simp only [isKeyword_eq isKeyword, Bool.or_eq_true, decide_eq_true_eq, String.reduceEq,
      or_self, reduceIte]
    exact reads_after isKeyword (validation_reads phrase)

/-- A declaration starts with a word that is not the one before an alias. -/
theorem declaration_starts {value : Declaration} (phrase : DeclarationPhrase used value) :
    ∃ keyword others word, used = keyword :: others ∧ keyword.isKeyword word = true ∧
      word ≠ "as" := by
  cases phrase with
  | moduleImport isWord _ | enumeration isWord _ | record isWord _ | validation isWord _ =>
    exact ⟨_, _, _, rfl, isWord, by simp⟩
  | entry isWord _ =>
    rcases isWord with isWord | isWord
    all_goals exact ⟨_, _, _, rfl, isWord, by simp⟩

variable {values : List Declaration}

/-- Neither the next declaration nor the end of the text is an alias. -/
theorem Unaliased.module {after : List Token} {last : Token} (phrase : Module tokens values)
    (isEnd : last.kind = .endOfText) : Unaliased (tokens ++ last :: after) := by
  cases phrase with
  | nil => exact ⟨last, after, rfl, by simp [Token.isKeyword, isEnd]⟩
  | cons first _ =>
    obtain ⟨keyword, others, word, rfl, isKeyword, isOther⟩ := declaration_starts first
    exact ⟨keyword, _, rfl, by simp [isKeyword_eq isKeyword, isOther]⟩

/-- A module before the end of the text is read. -/
theorem declarations_reads {after : List Token} {last : Token} (phrase : Module used values)
    (isEnd : last.kind = .endOfText) (enough : used.length < rounds) :
    declarations rounds (used ++ last :: after) = .ok (values, last :: after) := by
  induction phrase generalizing rounds with
  | nil =>
    obtain ⟨fewer, rfl⟩ := exists_round enough
    simp only [declarations, bind_ok_iff, current_ok_iff]
    refine ⟨last, _, ⟨rfl, after, rfl⟩, ?_⟩
    rw [if_pos isEnd]
    rfl
  | @cons tokens others value values first listed ih =>
    obtain ⟨fewer, rfl⟩ := exists_round enough
    have unaliased : Unaliased (others ++ last :: after) := .module listed isEnd
    have reads := declaration_reads first unaliased
    obtain ⟨keyword, tokens, word, rfl, isKeyword, _⟩ := declaration_starts first
    simp only [cons_append, append_assoc, declarations, bind_ok_iff, current_ok_iff]
    refine ⟨keyword, _, ⟨rfl, _, rfl⟩, ?_⟩
    simp only [if_neg (not_end_of_isKeyword isKeyword), bind_ok_iff]
    exact ⟨value, _, reads, values, _, ih (by grind), rfl⟩

end SchemaLang.Reading
