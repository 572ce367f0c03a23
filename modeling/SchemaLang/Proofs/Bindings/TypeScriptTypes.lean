import SchemaLang.Proofs.Bindings.RustCollisions

/-!
# What the text of a TypeScript type means

TypeScript tells fewer types apart than a registry does: texts of every format are strings, all
numbers are one type, and a union has no inner structure. What is left of a type is the list of its
alternatives, of which there is one unless it is a union.

The text is read with the precedence of TypeScript. A name is an operand, brackets behind an
operand make an array of it and bind tighter than bars, and parentheses make one operand of all
alternatives between them. The reader goes through the text once and keeps, for every parenthesis
that is still open, the alternatives before and the operand that a bracket would apply to. Reading
the text of a type gives the alternatives of the type, whatever stands around it; and since the text
is written from the alternatives alone, it is the same for two types exactly if these are.
-/

namespace SchemaLang

open Outcome List Definition

namespace FieldType

variable {ρ : Type}

mutual

/-- Every union of a type has two arms at least. -/
def IsBranching : FieldType ρ → Prop
  | .primitive _ => True
  | .reference _ => True
  | .array item => item.IsBranching
  | .optional inner => inner.IsBranching
  | .union arms => 2 ≤ arms.length ∧ AreBranching arms
  | .range _ _ _ => True

/-- Every union of several types has two arms at least. -/
def AreBranching : List (FieldType ρ) → Prop
  | [] => True
  | type :: types => type.IsBranching ∧ AreBranching types

end

theorem areBranching_iff {types : List (FieldType ρ)} :
    AreBranching types ↔ ∀ type ∈ types, type.IsBranching := by
  induction types with
  | nil => simp [AreBranching]
  | cons type types ih => rw [AreBranching, ih, forall_mem_cons]

end FieldType

variable {definition defn : Definition}

namespace TypeScriptBindings

/-! ## Alternatives -/

/-- A type that is no union. -/
inductive Alternative where
  | text
  | number
  | boolean
  | unknown
  | undefined
  | reference (id : Nat)
  | array (item : List Alternative)
deriving Repr

/-- The type that a built-in type is taken for. -/
def Alternative.ofPrimitive : Primitive → Alternative
  | .integer => .number
  | .number => .number
  | .boolean => .boolean
  | .any => .unknown
  | .string => .text
  | .dateTime => .text
  | .date => .text
  | .uri => .text
  | .email => .text

mutual

/-- What is left of a type: its alternatives, with those of an inner union among them. -/
def alternatives : FieldType Nat → List Alternative
  | .primitive kind => [.ofPrimitive kind]
  | .range _ _ _ => [.number]
  | .reference id => [.reference id]
  | .array item => [.array (alternatives item)]
  | .optional inner => alternatives inner ++ [.undefined]
  | .union arms => alternativesOfAll arms

/-- The alternatives of several types. -/
def alternativesOfAll : List (FieldType Nat) → List Alternative
  | [] => []
  | arm :: arms => alternatives arm ++ alternativesOfAll arms

end

/-! ## The reader -/

/-- The words for types that need no definition. -/
def keywords : List (String × Alternative) :=
  [("string", .text), ("number", .number), ("boolean", .boolean), ("unknown", .unknown),
    ("undefined", .undefined)]

/-- What a name means: a word of the language, or else the definition with that identifier. -/
def named? (registry : Registry) (name : String) : Option Alternative :=
  (keywords.lookup name).or
    ((registry.definitions.findIdx? fun definition => definition.identifier = name).map .reference)

/-- The parts of a written type. -/
inductive Lexeme where
  | name (letters : List Char)
  | bar
  | openParenthesis
  | closeParenthesis
  | openBracket
  | closeBracket

/-- The part that a sign is. -/
def Lexeme.ofSign? (c : Char) : Option Lexeme :=
  if c = '|' then some .bar
  else if c = '(' then some .openParenthesis
  else if c = ')' then some .closeParenthesis
  else if c = '[' then some .openBracket
  else if c = ']' then some .closeBracket
  else none

/-- The name with some letters, if there are any. -/
def nameOf (letters : List Char) : List Lexeme := if letters = [] then [] else [.name letters]

/-- The parts of a text behind the letters of a name. Blanks and signs end a name. -/
def lexemes (letters : List Char) : List Char → List Lexeme
  | [] => nameOf letters
  | c :: rest =>
    match Lexeme.ofSign? c with
    | some sign => nameOf letters ++ sign :: lexemes [] rest
    | none => if c = ' ' then nameOf letters ++ lexemes [] rest else lexemes (letters ++ [c]) rest

/-- What is known of the operand that is read. -/
inductive Operand where
  | missing
  | whole (alternatives : List Alternative)
  | bracketed (item : List Alternative)

/-- The alternatives before an operand, and the operand. -/
structure Level where
  before : List Alternative
  operand : Operand

/-- One step of reading, with the innermost parenthesis first. -/
def step (registry : Registry) : List Level → Lexeme → Option (List Level)
  | ⟨before, .missing⟩ :: outer, .name letters =>
    (named? registry (.ofList letters)).map fun meaning => ⟨before, .whole [meaning]⟩ :: outer
  | ⟨before, .whole operand⟩ :: outer, .bar => some (⟨before ++ operand, .missing⟩ :: outer)
  | ⟨before, .missing⟩ :: outer, .openParenthesis =>
    some (⟨[], .missing⟩ :: ⟨before, .missing⟩ :: outer)
  | ⟨inside, .whole operand⟩ :: ⟨before, .missing⟩ :: outer, .closeParenthesis =>
    some (⟨before, .whole (inside ++ operand)⟩ :: outer)
  | ⟨before, .whole operand⟩ :: outer, .openBracket => some (⟨before, .bracketed operand⟩ :: outer)
  | ⟨before, .bracketed item⟩ :: outer, .closeBracket =>
    some (⟨before, .whole [.array item]⟩ :: outer)
  | _, _ => none

/-- What was read, if all parentheses are closed and no operand is missing. -/
def finish : List Level → Option (List Alternative)
  | [⟨before, .whole operand⟩] => some (before ++ operand)
  | _ => none

/-- The levels after a text. -/
def feed (registry : Registry) (levels : List Level) (text : List Char) : Option (List Level) :=
  (lexemes [] text).foldlM (step registry) levels

/-- The alternatives that a text stands for. -/
def readType (registry : Registry) (text : String) : Option (List Alternative) :=
  (feed registry [⟨[], .missing⟩] text.toList).bind finish

/-! ## Names in a text -/

/-- Whether a character ends a name. -/
def endsName (c : Char) : Bool := c = ' ' || (Lexeme.ofSign? c).isSome

/-- A text cannot continue a name. -/
def Stops (rest : List Char) : Prop := ∀ c, rest.head? = some c → endsName c = true

variable {sign : Lexeme}

section Lexemes

variable {letters rest : List Char} {c : Char}

theorem lexemes_sign (isSign : Lexeme.ofSign? c = some sign) :
    lexemes letters (c :: rest) = nameOf letters ++ sign :: lexemes [] rest := by
  rw [lexemes, isSign]

theorem lexemes_blank : lexemes letters (' ' :: rest) = nameOf letters ++ lexemes [] rest := by
  rw [lexemes]
  rfl

theorem lexemes_letters {more : List Char} (areLetters : ∀ c ∈ more, endsName c = false) :
    lexemes letters (more ++ rest) = lexemes (letters ++ more) rest := by
  induction more generalizing letters with
  | nil => simp
  | cons c more ih =>
    obtain ⟨isLetter, areOthers⟩ := forall_mem_cons.mp areLetters
    obtain ⟨notBlank, notSign⟩ : c ≠ ' ' ∧ Lexeme.ofSign? c = none := by
      simpa [endsName] using isLetter
    rw [cons_append, lexemes, notSign]
    dsimp only
    rw [if_neg notBlank, ih areOthers, append_assoc, singleton_append]

theorem lexemes_stops (stops : Stops rest) :
    lexemes letters rest = nameOf letters ++ lexemes [] rest := by
  cases rest with
  | nil => simp [lexemes, nameOf]
  | cons c rest =>
    have ends := stops c rfl
    cases isSign : Lexeme.ofSign? c with
    | some sign =>
      rw [lexemes_sign isSign, lexemes_sign isSign]
      simp [nameOf]
    | none =>
      obtain rfl : c = ' ' := by simpa [endsName, isSign] using ends
      rw [lexemes_blank, lexemes_blank]
      simp [nameOf]

end Lexemes

/-! ## Reading what was written -/

section Feed

variable {registry reg : Registry} {levels outer : List Level} {rest : List Char}

theorem stops_blank : Stops (' ' :: rest) := by
  rintro _ ⟨⟩
  rfl

theorem stops_sign {c : Char} (isSign : Lexeme.ofSign? c = some sign) : Stops (c :: rest) := by
  rintro _ ⟨⟩
  rw [endsName, isSign, Option.isSome_some, Bool.or_true]

theorem feed_blank : feed reg levels (' ' :: rest) = feed reg levels rest := by
  unfold feed
  rw [lexemes_blank]
  rfl

theorem feed_sign {c : Char} (isSign : Lexeme.ofSign? c = some sign) {next : List Level}
    (stepped : step reg levels sign = some next) :
    feed reg levels (c :: rest) = feed reg next rest := by
  unfold feed
  rw [lexemes_sign isSign, nameOf, if_pos rfl, nil_append, foldlM_cons, stepped]
  rfl

theorem feed_name {letters : List Char} {before : List Alternative} {meaning : Alternative}
    (isThere : letters ≠ []) (areLetters : ∀ c ∈ letters, endsName c = false)
    (means : named? reg (.ofList letters) = some meaning) (stops : Stops rest) :
    feed reg (⟨before, .missing⟩ :: outer) (letters ++ rest) =
      feed reg (⟨before, .whole [meaning]⟩ :: outer) rest := by
  unfold feed
  rw [lexemes_letters areLetters, nil_append, lexemes_stops stops, nameOf, if_neg isThere,
    singleton_append, foldlM_cons, step, means]
  rfl

end Feed

/-- Reading a text gives alternatives, whatever stands before it and however it goes on. The last
of them is the operand that a bracket would apply to. -/
def Reads (registry : Registry) (text : String) (meaning : List Alternative) : Prop :=
  ∃ init last, meaning = init ++ [last] ∧ ∀ before outer rest, Stops rest →
    feed registry (⟨before, .missing⟩ :: outer) (text.toList ++ rest) =
      feed registry (⟨before ++ init, .whole [last]⟩ :: outer) rest

namespace Reads

variable {registry reg : Registry} {text : String} {meaning : List Alternative}

theorem name {single : Alternative} (isThere : text.toList ≠ [])
    (areLetters : ∀ c ∈ text.toList, endsName c = false)
    (means : named? reg text = some single) : Reads reg text [single] := by
  refine ⟨[], single, rfl, fun before outer rest stops => ?_⟩
  rw [append_nil]
  exact feed_name isThere areLetters (by rwa [String.ofList_toList]) stops

/-- A bar puts alternatives together. -/
theorem join {other : String} {more : List Alternative} (first : Reads reg text meaning)
    (second : Reads reg other more) :
    Reads reg (text ++ " | " ++ other) (meaning ++ more) := by
  obtain ⟨init, last, rfl, reads⟩ := first
  obtain ⟨otherInit, otherLast, rfl, readsOther⟩ := second
  refine ⟨init ++ [last] ++ otherInit, otherLast, by simp, fun before outer rest stops => ?_⟩
  calc feed reg (⟨before, .missing⟩ :: outer) ((text ++ " | " ++ other).toList ++ rest)
      = feed reg (⟨before, .missing⟩ :: outer)
          (text.toList ++ (' ' :: '|' :: ' ' :: (other.toList ++ rest))) := by simp
    _ = feed reg (⟨before ++ init, .whole [last]⟩ :: outer)
          (' ' :: '|' :: ' ' :: (other.toList ++ rest)) := reads before outer _ stops_blank
    _ = feed reg (⟨before ++ init ++ [last], .missing⟩ :: outer)
          (' ' :: (other.toList ++ rest)) := by rw [feed_blank, feed_sign rfl rfl]
    _ = feed reg (⟨before ++ init ++ [last] ++ otherInit, .whole [otherLast]⟩ :: outer)
          rest := by rw [feed_blank, readsOther _ outer rest stops]
    _ = _ := by simp

/-- Brackets apply to a single alternative. -/
theorem brackets {single : Alternative} (reads : Reads reg text [single]) :
    Reads reg (text ++ "[]") [.array [single]] := by
  obtain ⟨init, last, same, reads⟩ := reads
  obtain ⟨rfl, rfl⟩ : init = [] ∧ last = single := by
    cases init with
    | nil => simpa using same.symm
    | cons first others => simp at same
  refine ⟨[], _, rfl, fun before outer rest stops => ?_⟩
  calc feed reg (⟨before, .missing⟩ :: outer) ((text ++ "[]").toList ++ rest)
      = feed reg (⟨before, .missing⟩ :: outer) (text.toList ++ ('[' :: ']' :: rest)) := by
        simp
    _ = feed reg (⟨before ++ [], .whole [last]⟩ :: outer) ('[' :: ']' :: rest) :=
        reads before outer _ (stops_sign rfl)
    _ = feed reg (⟨before ++ [], .whole [.array [last]]⟩ :: outer) rest := by
        rw [feed_sign rfl rfl, feed_sign rfl rfl]

/-- Brackets behind a parenthesis apply to all alternatives inside. -/
theorem group (reads : Reads reg text meaning) :
    Reads reg ("(" ++ text ++ ")[]") [.array meaning] := by
  obtain ⟨init, last, rfl, reads⟩ := reads
  refine ⟨[], _, rfl, fun before outer rest stops => ?_⟩
  calc feed reg (⟨before, .missing⟩ :: outer) (("(" ++ text ++ ")[]").toList ++ rest)
      = feed reg (⟨before, .missing⟩ :: outer)
          ('(' :: (text.toList ++ (')' :: '[' :: ']' :: rest))) := by simp
    _ = feed reg (⟨[], .missing⟩ :: ⟨before, .missing⟩ :: outer)
          (text.toList ++ (')' :: '[' :: ']' :: rest)) := feed_sign rfl rfl
    _ = feed reg (⟨init, .whole [last]⟩ :: ⟨before, .missing⟩ :: outer)
          (')' :: '[' :: ']' :: rest) := reads [] _ _ (stops_sign rfl)
    _ = feed reg (⟨before, .whole [.array (init ++ [last])]⟩ :: outer) rest := by
        rw [feed_sign rfl rfl, feed_sign rfl rfl, feed_sign rfl rfl]
    _ = _ := by rw [append_nil]

/-- A text that stands alone is read in the same way. -/
theorem readType (reads : Reads reg text meaning) : readType reg text = some meaning := by
  obtain ⟨init, last, rfl, reads⟩ := reads
  have alone := reads [] [] [] (by rintro _ ⟨⟩)
  rw [append_nil, nil_append] at alone
  rw [TypeScriptBindings.readType, alone]
  rfl

end Reads

/-! ## Names in types -/

/-- Identifiers can be read: they are there, different, and come from plain names. -/
structure Legible (registry : Registry) : Prop where
  distinct : (registry.definitions.map identifier).Nodup
  present : ∀ definition ∈ registry.definitions, definition.identifier ≠ ""
  plain : ∀ definition ∈ registry.definitions, PlainName definition.name

variable {registry reg : Registry}

/-- No character of a name ends it. -/
theorem endsName_of_plain {name : String} (plain : PlainName name) :
    ∀ c ∈ name.toList, endsName c = false := by
  intro c member
  exact (plain c member).forall_of (fun c => endsName c = false) (by decide)

/-- An identifier is no word of the language, since it does not start with a small letter. -/
theorem lookup_identifier (plain : PlainName defn.name) :
    keywords.lookup defn.identifier = none := by
  have small : ∀ word ∈ keywords.map Prod.fst, word.toList.head?.any Char.isLower = true := by
    decide
  rw [lookup_eq_none_iff]
  intro word isWord
  have starts := small word.1 (mem_map_of_mem isWord)
  rw [bne_iff_ne]
  intro same
  rw [← same] at starts
  cases isHead : defn.identifier.toList.head? with
  | none =>
    rw [isHead] at starts
    cases starts
  | some c =>
    rw [isHead, Option.any_some, Text.pascalCase_head plain isHead] at starts
    cases starts

/-- An identifier means its definition. -/
theorem named?_identifier (legible : Legible reg) {id : Nat}
    (found : reg.get? id = some defn) :
    named? reg defn.identifier = some (.reference id) := by
  have isDefinition := mem_of_getElem? found
  obtain ⟨bound, isThere⟩ := List.getElem?_eq_some_iff.mp found
  rw [named?, lookup_identifier (legible.plain defn isDefinition), Option.none_or,
    Option.map_eq_some_iff]
  refine ⟨id, findIdx?_eq_some_iff_getElem.mpr ⟨bound, by simp [isThere], ?_⟩, rfl⟩
  intro earlier before same
  have differs := pairwise_iff_getElem.mp legible.distinct earlier id (by simp; omega)
    (by simpa using bound) before
  simp [isThere] at differs same
  exact differs same

theorem reads_identifier (legible : Legible reg) {id : Nat}
    (found : reg.get? id = some defn) :
    Reads reg defn.identifier [.reference id] := by
  have isDefinition := mem_of_getElem? found
  refine .name ?_ ?_ (named?_identifier legible found)
  · intro isEmpty
    exact legible.present defn isDefinition (String.toList_eq_nil_iff.mp isEmpty)
  · exact endsName_of_plain (Text.pascalCase_plain (legible.plain defn isDefinition))

/-- A word of the language means a type of its own. -/
theorem reads_primitive (kind : Primitive) : Reads reg (ofPrimitive kind) [.ofPrimitive kind] := by
  refine .name ?_ ?_ ?_
  · cases kind <;> decide
  · exact endsName_of_plain (by cases kind <;> decide)
  · cases kind <;> rfl

theorem reads_undefined : Reads reg "undefined" [.undefined] :=
  .name (by decide) (endsName_of_plain (by decide)) rfl

/-! ## Types -/

/-- The form of a type that needs no parentheses is a single alternative. -/
theorem alternatives_single {type : FieldType Nat} (bare : needsParentheses type = false) :
    ∃ single, alternatives type = [single] := by
  cases type with
  | union _ | optional _ => cases bare
  | _ => exact ⟨_, rfl⟩

/-- Reading the texts of types with bars between them gives the alternatives of all. -/
theorem reads_intercalate {arms : List (FieldType Nat)} {texts : List String} (isThere : arms ≠ [])
    (each : Forall₂ (fun arm text => Reads reg text (alternatives arm)) arms texts) :
    Reads reg (" | ".intercalate texts) (alternativesOfAll arms) := by
  induction each with
  | nil => exact absurd rfl isThere
  | cons first others ih =>
    cases others with
    | nil =>
      rw [String.intercalate_singleton, alternativesOfAll, alternativesOfAll, append_nil]
      exact first
    | cons _ _ =>
      rw [String.intercalate_cons_cons, alternativesOfAll]
      exact first.join (ih (cons_ne_nil _ _))

/-- Reading the text of a type gives its alternatives. -/
theorem ofType_reads (legible : Legible reg) {type : FieldType Nat}
    (branching : type.IsBranching) {text : String} (done : ofType reg type = .ok text) :
    Reads reg text (alternatives type) := by
  induction type generalizing text with
  | primitive kind =>
    cases done
    exact reads_primitive kind
  | range kind least greatest =>
    cases done
    cases kind with
    | integer => exact reads_primitive .integer
    | number => exact reads_primitive .number
  | reference id =>
    rw [ofType] at done
    split at done
    · rename_i defn found
      cases done
      exact reads_identifier legible found
    · cases done
  | array item ih =>
    rw [FieldType.IsBranching] at branching
    obtain ⟨inner, written, rfl⟩ := map_ok_iff.mp done
    have reads := ih branching written
    cases needed : needsParentheses item with
    | true =>
      rw [if_pos rfl]
      exact reads.group
    | false =>
      obtain ⟨single, isSingle⟩ := alternatives_single needed
      rw [if_neg Bool.false_ne_true, alternatives, isSingle]
      rw [isSingle] at reads
      exact reads.brackets
  | optional inner ih =>
    rw [FieldType.IsBranching] at branching
    obtain ⟨held, written, rfl⟩ := map_ok_iff.mp done
    have reads := ih branching written
    have spelled : held ++ " | undefined" = held ++ " | " ++ "undefined" := by
      rw [String.append_assoc]
      rfl
    rw [spelled, alternatives]
    exact reads.join reads_undefined
  | union arms each =>
    obtain ⟨texts, written, rfl⟩ := map_ok_iff.mp done
    rw [ofArms_eq_mapM] at written
    obtain ⟨two, armsBranching⟩ := branching
    refine reads_intercalate ?_ (forall₂_imp (mapM_ok_iff.mp written) fun arm isArm _ =>
      each arm isArm (FieldType.areBranching_iff.mp armsBranching arm isArm))
    rintro rfl
    cases two

/-! ## The text as written from the alternatives -/

mutual

/-- The text of an alternative. -/
def Alternative.spelling (registry : Registry) : Alternative → String
  | .text => "string"
  | .number => "number"
  | .boolean => "boolean"
  | .unknown => "unknown"
  | .undefined => "undefined"
  | .reference id => ((registry.get? id).map identifier).getD ""
  | .array item =>
    let inner := " | ".intercalate (spellings registry item)
    if item.length = 1 then inner ++ "[]" else "(" ++ inner ++ ")[]"

/-- The texts of alternatives. -/
def spellings (registry : Registry) : List Alternative → List String
  | [] => []
  | first :: others => first.spelling registry :: spellings registry others

end

/-- The text of a type with some alternatives. -/
def spelling (registry : Registry) (meaning : List Alternative) : String :=
  " | ".intercalate (spellings registry meaning)

theorem spellings_eq_map (reg : Registry) (meaning : List Alternative) :
    spellings reg meaning = meaning.map (Alternative.spelling reg) := by
  induction meaning with
  | nil => rfl
  | cons first others ih => rw [spellings, ih, map_cons]

/-- The texts of unions are put together with a bar. -/
theorem spelling_append {first second : List Alternative} (isThere : first ≠ [])
    (isThereToo : second ≠ []) :
    spelling reg (first ++ second) = spelling reg first ++ " | " ++ spelling reg second := by
  simp only [spelling, spellings_eq_map, map_append]
  exact String.intercalate_append_of_ne_nil (by simpa using isThere) (by simpa using isThereToo)

theorem spelling_singleton (single : Alternative) : spelling reg [single] = single.spelling reg :=
  String.intercalate_singleton

mutual

/-- A type in which unions branch has an alternative. -/
theorem alternatives_length_pos {type : FieldType Nat} (branching : type.IsBranching) :
    0 < (alternatives type).length := by
  cases type with
  | union arms =>
    obtain ⟨two, armsBranching⟩ := branching
    have atLeast := alternativesOfAll_length_le armsBranching
    rw [alternatives]
    omega
  | optional inner => simp [alternatives]
  | _ => exact Nat.one_pos

/-- Every arm brings an alternative. -/
theorem alternativesOfAll_length_le {arms : List (FieldType Nat)}
    (branching : FieldType.AreBranching arms) :
    arms.length ≤ (alternativesOfAll arms).length := by
  cases arms with
  | nil => exact Nat.zero_le _
  | cons arm others =>
    obtain ⟨armBranching, othersBranching⟩ := branching
    have here := alternatives_length_pos armBranching
    have there := alternativesOfAll_length_le othersBranching
    rw [alternativesOfAll, length_append, length_cons]
    omega

end

/-- Exactly the forms that need parentheses have several alternatives. -/
theorem needsParentheses_iff {type : FieldType Nat} (branching : type.IsBranching) :
    needsParentheses type = true ↔ (alternatives type).length ≠ 1 := by
  cases type with
  | union arms =>
    obtain ⟨two, armsBranching⟩ := branching
    have atLeast := alternativesOfAll_length_le armsBranching
    rw [alternatives]
    exact ⟨fun _ => by omega, fun _ => rfl⟩
  | optional inner =>
    rw [FieldType.IsBranching] at branching
    have here := alternatives_length_pos branching
    rw [alternatives, length_append, length_singleton]
    exact ⟨fun _ => by omega, fun _ => rfl⟩
  | _ => simp [needsParentheses, alternatives]

/-- The texts of arms make up the text of all their alternatives. -/
theorem spelling_alternativesOfAll {arms : List (FieldType Nat)}
    (branching : FieldType.AreBranching arms) (isThere : arms ≠ []) :
    " | ".intercalate (arms.map fun arm => spelling reg (alternatives arm)) =
      spelling reg (alternativesOfAll arms) := by
  induction arms with
  | nil => exact absurd rfl isThere
  | cons arm others ih =>
    obtain ⟨armBranching, othersBranching⟩ := branching
    have here := alternatives_length_pos armBranching
    have there := alternativesOfAll_length_le othersBranching
    by_cases isLast : others = []
    · subst isLast
      rw [map_singleton, String.intercalate_singleton, alternativesOfAll, alternativesOfAll,
        append_nil]
    · have remains : 0 < others.length := length_pos_of_ne_nil isLast
      rw [map_cons, String.intercalate_cons_of_ne_nil (by simpa using isLast),
        ih othersBranching isLast, alternativesOfAll,
        spelling_append (ne_nil_of_length_pos here) (ne_nil_of_length_pos (by omega))]

/-- The text of a type is that of its alternatives. -/
theorem ofType_spelling {type : FieldType Nat} (covers : reg.Covers type)
    (branching : type.IsBranching) :
    ofType reg type = .ok (spelling reg (alternatives type)) := by
  induction type with
  | primitive kind | range kind _ _ =>
    rw [alternatives, spelling_singleton]
    cases kind <;> rfl
  | reference id =>
    obtain ⟨defn, found⟩ := covers.definition
    rw [ofType, alternatives, spelling_singleton, Alternative.spelling, found]
    rfl
  | array item ih =>
    rw [FieldType.IsBranching] at branching
    rw [ofType, ih covers.item branching, alternatives, spelling_singleton, Alternative.spelling,
      ← spelling]
    have needed := needsParentheses_iff branching
    by_cases isSingle : (alternatives item).length = 1
    · have bare : ¬ needsParentheses item = true := fun isNeeded => needed.mp isNeeded isSingle
      simp only [Except.map, if_neg bare, if_pos isSingle]
    · simp only [Except.map, if_pos (needed.mpr isSingle), if_neg isSingle]
  | optional inner ih =>
    rw [FieldType.IsBranching] at branching
    have here := alternatives_length_pos branching
    rw [ofType, ih covers.inner branching, alternatives,
      spelling_append (ne_nil_of_length_pos here) (cons_ne_nil _ _), spelling_singleton,
      String.append_assoc]
    rfl
  | union arms each =>
    obtain ⟨two, armsBranching⟩ := branching
    have isThere : arms ≠ [] := by
      rintro rfl
      cases two
    have written : arms.mapM (ofType reg) =
        .ok (arms.map fun arm => spelling reg (alternatives arm)) := by
      refine mapM_ok_iff.mpr (forall₂_map_right_iff.mpr (forall₂_same.mpr fun arm isArm => ?_))
      exact each arm isArm (covers.arms arm isArm)
        (FieldType.areBranching_iff.mp armsBranching arm isArm)
    rw [ofType, ofArms_eq_mapM, written, alternatives,
      ← spelling_alternativesOfAll armsBranching isThere]
    rfl

/-! ## Which registries have bindings -/

/-- The keys of properties are the names of fields, so only identifiers of definitions can fall
together. -/
theorem typeScript_ok_iff (proper : reg.Proper) :
    (∃ text, Target.typeScript.generate reg = .ok text) ↔
      (reg.definitions.map identifier).Nodup := by
  have checked := (Target.checkIdentifiers_decides .typeScript reg).ok_iff
  have fieldwise : ∀ defn ∈ reg.definitions,
      (defn.fields.map fun field => Target.typeScript.fieldIdentifier field.name).Nodup :=
    proper.fieldNames
  obtain ⟨blocks, written⟩ := generate_ok_of_linked proper.linked
  constructor
  · rintro ⟨text, done⟩
    obtain ⟨⟨⟩, passed, _⟩ := bind_ok_iff.mp done
    exact (checked.mp ⟨(), passed⟩).1
  · intro distinct
    obtain ⟨⟨⟩, passed⟩ := checked.mpr ⟨distinct, fieldwise⟩
    refine ⟨_, bind_ok_iff.mpr ⟨(), passed, bind_ok_iff.mpr ⟨blocks, ?_, rfl⟩⟩⟩
    exact written

/-- The text of a type means the type. Bindings for the registry of an import closure are generated
exactly if no two definitions have the same identifier. Then, if no identifier is empty, the text of
every type over the registry in which unions have two arms at least reads as the alternatives of the
type, and two such types have the same text exactly if they have the same alternatives. -/
theorem type_texts_read_back {context : ImportContext} {path : Path} {closure : Closure}
    (collected : context.closureOf path = .ok closure ∨
      ∃ text, context.closureOfText text path = .ok closure)
    {registry : Registry} (built : Registry.build closure.declarations = .ok registry) :
    ((∃ bindings, Target.typeScript.generate registry = .ok bindings) ↔
      (registry.definitions.map Definition.identifier).Nodup) ∧
    ∀ bindings, Target.typeScript.generate registry = .ok bindings →
      (∀ definition ∈ registry.definitions, definition.identifier ≠ "") →
      (∀ type, registry.Covers type → type.IsBranching →
        ∃ text, ofType registry type = .ok text ∧
          readType registry text = some (alternatives type)) ∧
      ∀ type other, registry.Covers type → type.IsBranching →
        registry.Covers other → other.IsBranching →
        (ofType registry type = ofType registry other ↔
          alternatives type = alternatives other) := by
  have proper := (Registry.sound_of_closure collected built).1
  have succeeds := typeScript_ok_iff proper
  refine ⟨succeeds, fun bindings generated present => ?_⟩
  have legible : Legible registry := ⟨succeeds.mp ⟨bindings, generated⟩, present, proper.plain⟩
  have readsBack : ∀ type, registry.Covers type → type.IsBranching →
      readType registry (spelling registry (alternatives type)) = some (alternatives type) := by
    intro type covers branching
    exact (ofType_reads legible branching (ofType_spelling covers branching)).readType
  refine ⟨fun type covers branching => ⟨_, ofType_spelling covers branching,
    readsBack type covers branching⟩, ?_⟩
  intro type other covers branching otherCovers otherBranching
  rw [ofType_spelling covers branching, ofType_spelling otherCovers otherBranching]
  constructor
  · intro sameText
    have read := readsBack type covers branching
    rw [Except.ok.inj sameText, readsBack other otherCovers otherBranching] at read
    exact (Option.some.inj read).symm
  · intro same
    rw [same]

/-- A registry with two records. -/
def linkedNodes : ImportContext where
  tree := ⟨[(["a.sdl"], .file (.text
    "type Node \x7b next: Node? \x7d\nentry Tree \x7b root: Node \x7d"))], []⟩
  root := ⟨"/"⟩
  entryFileName := "index.sdl"

/-- A list of optional choices. -/
def nestedType : FieldType Nat :=
  .array (.optional (.union [.reference 0, .array (.primitive .date)]))

/-- The parentheses in the text of a list of choices are read as they are meant. -/
theorem nestedType_read :
    ∃ closure registry bindings, linkedNodes.closureOf ⟨"/a.sdl"⟩ = .ok closure ∧
      Registry.build closure.declarations = .ok registry ∧
      Target.typeScript.generate registry = .ok bindings ∧ registry.Covers nestedType ∧
      nestedType.IsBranching ∧
      ofType registry nestedType = .ok "(Node | string[] | undefined)[]" ∧
      readType registry "(Node | string[] | undefined)[]" =
        some [.array [.reference 0, .array [.text], .undefined]] := by
  obtain ⟨closure, collected, view⟩ := Outcome.ok_of_view
    (show (linkedNodes.closureOf ⟨"/a.sdl"⟩).toOption.map (fun closure =>
        (Registry.build closure.declarations).toOption.map fun registry =>
          (registry.size, registry.definitions.map identifier,
            (ofType registry nestedType).toOption)) =
      some (some (2, ["Node", "Tree"], some "(Node | string[] | undefined)[]")) by
        decide +kernel)
  obtain ⟨registry, built, seen⟩ := Outcome.ok_of_view view
  obtain ⟨size, identifiers, written⟩ : registry.size = 2 ∧
      registry.definitions.map identifier = ["Node", "Tree"] ∧
      (ofType registry nestedType).toOption = some "(Node | string[] | undefined)[]" := by
    simpa using seen
  obtain ⟨succeeds, readBack⟩ := type_texts_read_back (.inl collected) built
  obtain ⟨bindings, generated⟩ := succeeds.mpr (by rw [identifiers]; decide)
  have present : ∀ definition ∈ registry.definitions, definition.identifier ≠ "" := by
    intro definition member isEmpty
    have listed := List.mem_map_of_mem (f := identifier) member
    rw [identifiers, isEmpty] at listed
    simp at listed
  have covers : registry.Covers nestedType := by
    intro id isReference
    obtain rfl : id = 0 := by
      simpa [nestedType, FieldType.references, FieldType.referencesOfAll] using isReference
    omega
  have branching : nestedType.IsBranching := by
    simp [nestedType, FieldType.IsBranching, FieldType.AreBranching]
  obtain ⟨text, isText, reads⟩ :=
    (readBack bindings generated present).1 nestedType covers branching
  rw [isText] at written
  obtain rfl := Option.some.inj written
  exact ⟨closure, registry, bindings, collected, built, generated, covers, branching, isText, reads⟩

end TypeScriptBindings

end SchemaLang
