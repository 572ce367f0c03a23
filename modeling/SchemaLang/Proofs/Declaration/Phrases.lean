import SchemaLang.Proofs.Registry.Linking

/-!
# The phrases of the language

The grammar of modules, as relations between tokens and what they say. Each relation is one
production: it tells which tokens make up a phrase and what is declared by it, and knows
nothing of how tokens are read. Conditions that a grammar alone cannot state stand beside the
production that they belong to: members and fields have different names, numbers are finite,
the bounds of a range are in order.

Keywords and the names of built-in types are identifiers like others, so they can name fields
and members. Only in a type the name of a built-in type is always that type, and not the
beginning of a reference.

Declarations, fields, rules and constraints are located at the token of their name, imports
and validation blocks at their keyword.
-/

namespace SchemaLang

open List

namespace Phrase

section Repetition

variable {α : Type}

/-- Any number of phrases, one after the other. -/
inductive Many (phrase : List Token → α → Prop) : List Token → List α → Prop where
  | nil : Many phrase [] []
  | cons {tokens rest : List Token} {value : α} {values : List α} (first : phrase tokens value)
      (others : Many phrase rest values) : Many phrase (tokens ++ rest) (value :: values)

/-- Any number of phrases, each after a separator. -/
inductive Further (separator : String) (phrase : List Token → α → Prop) :
    List Token → List α → Prop where
  | nil : Further separator phrase [] []
  | cons {sign : Token} {tokens rest : List Token} {value : α} {values : List α}
      (isSign : sign.isSymbol separator = true) (next : phrase tokens value)
      (others : Further separator phrase rest values) :
      Further separator phrase (sign :: (tokens ++ rest)) (value :: values)

section Parts

variable {phrase : List Token → α → Prop} {tokens : List Token} {values : List α} {value : α}

/-- Each of many phrases is among the tokens. -/
theorem Many.exists_phrase (many : Many phrase tokens values) (member : value ∈ values) :
    ∃ used, phrase used value ∧ ∀ token ∈ used, token ∈ tokens := by
  induction many with
  | nil => cases member
  | cons first _ ih =>
    rcases mem_cons.mp member with rfl | later
    · exact ⟨_, first, fun _ => mem_append_left _⟩
    · obtain ⟨used, isPhrase, among⟩ := ih later
      exact ⟨used, isPhrase, fun token listed => mem_append_right _ (among token listed)⟩

/-- Each of the phrases behind separators is among the tokens. -/
theorem Further.exists_phrase {separator : String}
    (further : Further separator phrase tokens values) (member : value ∈ values) :
    ∃ used, phrase used value ∧ ∀ token ∈ used, token ∈ tokens := by
  induction further with
  | nil => cases member
  | cons _ next _ ih =>
    rcases mem_cons.mp member with rfl | later
    · refine ⟨_, next, fun token listed => ?_⟩
      exact mem_cons_of_mem _ (mem_append_left _ listed)
    · obtain ⟨used, isPhrase, among⟩ := ih later
      refine ⟨used, isPhrase, fun token listed => ?_⟩
      exact mem_cons_of_mem _ (mem_append_right _ (among token listed))

end Parts

/-- A symbol that may be left out. -/
inductive Perhaps (symbol : String) : List Token → Prop where
  | absent : Perhaps symbol []
  | present {token : Token} (isSymbol : token.isSymbol symbol = true) : Perhaps symbol [token]

end Repetition

/-- A name is an identifier. -/
inductive Name : List Token → String → Prop where
  | identifier {token : Token} (isName : token.kind = .identifier) : Name [token] token.text

/-- A token spells a finite number. -/
structure Spells (token : Token) (value : Double) : Prop where
  isNumber : token.kind = .number
  read : Double.read? token.text = some value
  finite : value.isFinite = true

/-! ## Types -/

/-- A bound of a range, which may be left out. A range of integers has whole bounds. -/
inductive Bound (kind : NumericKind) : List Token → Option Double → Prop where
  | absent : Bound kind [] none
  | present {token : Token} {value : Double} (spells : Spells token value)
      (whole : kind = .integer → value.isWhole = true) : Bound kind [token] (some value)

/-- The first bound does not exceed the second. -/
def Ordered (least? greatest? : Option Double) : Prop :=
  ∀ least greatest, least? = some least → greatest? = some greatest → greatest.lt least = false

/-- A built-in type, a numeric one with a range, or a reference, whose parts are joined by
points. -/
inductive Atom : List Token → FieldType String → Prop where
  | primitive {token : Token} {kind : Primitive} (isName : token.kind = .identifier)
      (builtIn : Primitive.ofKeyword? token.text = some kind) : Atom [token] (.primitive kind)
  | range {token opens point pointAgain closes : Token} {first second : List Token}
      {kind : NumericKind} {least? greatest? : Option Double} (isName : token.kind = .identifier)
      (builtIn : Primitive.ofKeyword? token.text = some kind.primitive)
      (isOpening : opens.isSymbol "(" = true) (least : Bound kind first least?)
      (isPoint : point.isSymbol "." = true) (isPointAgain : pointAgain.isSymbol "." = true)
      (greatest : Bound kind second greatest?) (isClosing : closes.isSymbol ")" = true)
      (ordered : Ordered least? greatest?) :
      Atom (token :: opens :: (first ++ point :: pointAgain :: (second ++ [closes])))
        (.range kind least? greatest?)
  | reference {token : Token} {parts : List Token} {names : List String}
      (isName : token.kind = .identifier) (declared : Primitive.ofKeyword? token.text = none)
      (further : Further "." Name parts names) :
      Atom (token :: parts) (.reference (".".intercalate (token.text :: names)))

/-- Pairs of brackets, each making a list of the type before it. -/
inductive Brackets : List Token → FieldType String → FieldType String → Prop where
  | nil {type : FieldType String} : Brackets [] type type
  | cons {opens closes : Token} {rest : List Token} {type result : FieldType String}
      (isOpening : opens.isSymbol "[" = true) (isClosing : closes.isSymbol "]" = true)
      (others : Brackets rest (.array type) result) : Brackets (opens :: closes :: rest) type result

/-- An arm of a type. -/
inductive Arm : List Token → FieldType String → Prop where
  | postfixed {tokens rest : List Token} {type result : FieldType String}
      (atom : Atom tokens type) (brackets : Brackets rest type result) : Arm (tokens ++ rest) result

/-- A type is one arm, or a flat union of several. -/
inductive TypeExpression : List Token → FieldType String → Prop where
  | single {tokens : List Token} {type : FieldType String} (arm : Arm tokens type) :
      TypeExpression tokens type
  | union {tokens rest : List Token} {first second : FieldType String}
      {others : List (FieldType String)} (arm : Arm tokens first)
      (further : Further "|" Arm rest (second :: others)) :
      TypeExpression (tokens ++ rest) (.union (first :: second :: others))

/-! ## Records and enums -/

/-- A field. It is optional if a mark stands after its name or after its type, but not both. -/
inductive FieldPhrase : List Token → Field → Prop where
  | mandatory {name colon : Token} {tokens comma : List Token} {type : FieldType String}
      (isName : name.kind = .identifier) (isColon : colon.isSymbol ":" = true)
      (typed : TypeExpression tokens type) (separated : Perhaps "," comma) :
      FieldPhrase (name :: colon :: (tokens ++ comma)) ⟨name.text, type, name.location⟩
  | markedName {name mark colon : Token} {tokens comma : List Token} {type : FieldType String}
      (isName : name.kind = .identifier) (isMark : mark.isSymbol "?" = true)
      (isColon : colon.isSymbol ":" = true) (typed : TypeExpression tokens type)
      (separated : Perhaps "," comma) :
      FieldPhrase (name :: mark :: colon :: (tokens ++ comma))
        ⟨name.text, .optional type, name.location⟩
  | markedType {name mark colon : Token} {tokens comma : List Token} {type : FieldType String}
      (isName : name.kind = .identifier) (isColon : colon.isSymbol ":" = true)
      (typed : TypeExpression tokens type) (isMark : mark.isSymbol "?" = true)
      (separated : Perhaps "," comma) :
      FieldPhrase (name :: colon :: (tokens ++ mark :: comma))
        ⟨name.text, .optional type, name.location⟩

/-- A record after its keyword. Its fields have different names. -/
inductive Record : List Token → RecordDeclaration → Prop where
  | braced {name opens closes : Token} {tokens : List Token} {fields : List Field}
      (isName : name.kind = .identifier) (isOpening : opens.isSymbol "\x7b" = true)
      (listed : Many FieldPhrase tokens fields) (distinct : (fields.map Field.name).Nodup)
      (isClosing : closes.isSymbol "\x7d" = true) :
      Record (name :: opens :: (tokens ++ [closes])) ⟨name.text, fields, name.location⟩

/-- A member of an enum. -/
inductive Member : List Token → String → Prop where
  | separated {name : Token} {comma : List Token} (isName : name.kind = .identifier)
      (separated : Perhaps "," comma) : Member (name :: comma) name.text

/-- An enum after its keyword. It has members, and they are different. -/
inductive Enumeration : List Token → EnumDeclaration → Prop where
  | braced {name opens closes : Token} {tokens : List Token} {members : List String}
      (isName : name.kind = .identifier) (isOpening : opens.isSymbol "\x7b" = true)
      (listed : Many Member tokens members) (nonempty : members ≠ []) (distinct : members.Nodup)
      (isClosing : closes.isSymbol "\x7d" = true) :
      Enumeration (name :: opens :: (tokens ++ [closes])) ⟨name.text, members, name.location⟩

/-! ## Validation blocks -/

/-- An argument is one token. -/
inductive ArgumentPhrase : List Token → Argument → Prop where
  | text {token : Token} (isText : token.kind = .string) :
      ArgumentPhrase [token] (.text token.text)
  | number {token : Token} {value : Double} (spells : Spells token value) :
      ArgumentPhrase [token] (.number value)
  | word {token : Token} (isName : token.kind = .identifier) :
      ArgumentPhrase [token] (.word token.text)

/-- Arguments with commas between them, or none. -/
inductive Arguments : List Token → List Argument → Prop where
  | none : Arguments [] []
  | some {tokens rest : List Token} {value : Argument} {values : List Argument}
      (first : ArgumentPhrase tokens value) (others : Further "," ArgumentPhrase rest values) :
      Arguments (tokens ++ rest) (value :: values)

/-- A constraint, with arguments or without. -/
inductive CallPhrase : List Token → Call → Prop where
  | bare {name : Token} (isName : name.kind = .identifier) :
      CallPhrase [name] ⟨name.text, [], name.location⟩
  | applied {name opens closes : Token} {tokens : List Token} {arguments : List Argument}
      (isName : name.kind = .identifier) (isOpening : opens.isSymbol "(" = true)
      (given : Arguments tokens arguments) (isClosing : closes.isSymbol ")" = true) :
      CallPhrase (name :: opens :: (tokens ++ [closes])) ⟨name.text, arguments, name.location⟩

/-- A rule: one constraint or several, with commas between them and perhaps one behind. -/
inductive RulePhrase : List Token → Rule → Prop where
  | keyed {key colon : Token} {tokens rest comma : List Token} {call : Call} {calls : List Call}
      (isKey : key.kind = .identifier) (isColon : colon.isSymbol ":" = true)
      (first : CallPhrase tokens call) (others : Further "," CallPhrase rest calls)
      (separated : Perhaps "," comma) :
      RulePhrase (key :: colon :: (tokens ++ (rest ++ comma)))
        ⟨key.text, call :: calls, key.location⟩

/-- The name of the type that a block is for, which may be left out. -/
inductive Target : List Token → Option String → Prop where
  | preceding : Target [] none
  | named {name : Token} (isName : name.kind = .identifier) : Target [name] (some name.text)

/-- A validation block after its keyword. -/
inductive Validation (keyword : Token) : List Token → ValidationBlock → Prop where
  | braced {opens closes : Token} {target tokens : List Token} {target? : Option String}
      {rules : List Rule} (isTarget : Target target target?)
      (isOpening : opens.isSymbol "\x7b" = true) (listed : Many RulePhrase tokens rules)
      (isClosing : closes.isSymbol "\x7d" = true) :
      Validation keyword (target ++ opens :: (tokens ++ [closes]))
        ⟨target?, rules, keyword.location⟩

/-! ## Modules -/

/-- The alias of an import, which may be left out. -/
inductive Alias : List Token → Option String → Prop where
  | absent : Alias [] none
  | present {word name : Token} (isWord : word.isKeyword "as" = true)
      (isName : name.kind = .identifier) : Alias [word, name] (some name.text)

/-- An import after its keyword. Its path is not empty. -/
inductive Importing (keyword : Token) : List Token → Import → Prop where
  | path {path : Token} {rest : List Token} {alias? : Option String}
      (isText : path.kind = .string) (nonempty : path.text ≠ "") (isAlias : Alias rest alias?) :
      Importing keyword (path :: rest) ⟨path.text, alias?, keyword.location⟩

/-- A declaration starts with its keyword. -/
inductive DeclarationPhrase : List Token → Declaration → Prop where
  | moduleImport {keyword : Token} {tokens : List Token} {content : Import}
      (isKeyword : keyword.isKeyword "import" = true)
      (phrase : Importing keyword tokens content) :
      DeclarationPhrase (keyword :: tokens) (.moduleImport content)
  | enumeration {keyword : Token} {tokens : List Token} {content : EnumDeclaration}
      (isKeyword : keyword.isKeyword "enum" = true) (phrase : Enumeration tokens content) :
      DeclarationPhrase (keyword :: tokens) (.enumeration content)
  | record {keyword : Token} {tokens : List Token} {content : RecordDeclaration}
      (isKeyword : keyword.isKeyword "type" = true) (phrase : Record tokens content) :
      DeclarationPhrase (keyword :: tokens) (.record content)
  | entry {keyword : Token} {tokens : List Token} {content : RecordDeclaration}
      (isKeyword : keyword.isKeyword "agent" = true ∨ keyword.isKeyword "entry" = true)
      (phrase : Record tokens content) : DeclarationPhrase (keyword :: tokens) (.entry content)
  | validation {keyword : Token} {tokens : List Token} {content : ValidationBlock}
      (isKeyword : keyword.isKeyword "validate" = true)
      (phrase : Validation keyword tokens content) :
      DeclarationPhrase (keyword :: tokens) (.validation content)

/-- A module is any number of declarations. -/
abbrev Module : List Token → List Declaration → Prop := Many DeclarationPhrase

end Phrase

/-! ## The shape of types -/

namespace FieldType

variable {ρ : Type}

/-- An atom under any number of lists. -/
def IsArm : FieldType ρ → Prop
  | .primitive _ => True
  | .reference _ => True
  | .range _ _ _ => True
  | .array item => item.IsArm
  | .optional _ => False
  | .union _ => False

/-- One arm, or a flat union of at least two. -/
def IsExpression : FieldType ρ → Prop
  | .union arms => 2 ≤ arms.length ∧ ∀ arm ∈ arms, arm.IsArm
  | type => type.IsArm

/-- The type of a field. Only at the top it may be optional. -/
def IsOfField : FieldType ρ → Prop
  | .optional inner => inner.IsExpression
  | type => type.IsExpression

theorem IsArm.isExpression {type : FieldType ρ} (isArm : type.IsArm) : type.IsExpression := by
  cases type with
  | union arms => cases isArm
  | _ => exact isArm

theorem IsExpression.isOfField {type : FieldType ρ} (isExpression : type.IsExpression) :
    type.IsOfField := by
  cases type with
  | optional inner => cases isExpression
  | _ => exact isExpression

end FieldType

namespace Phrase

variable {tokens : List Token} {type : FieldType String}

theorem Atom.isArm (atom : Atom tokens type) : type.IsArm := by
  cases atom <;> trivial

theorem Brackets.isArm {result : FieldType String} (brackets : Brackets tokens type result)
    (isArm : type.IsArm) : result.IsArm := by
  induction brackets with
  | nil => exact isArm
  | cons _ _ _ ih => exact ih isArm

theorem Arm.isArm (arm : Arm tokens type) : type.IsArm := by
  obtain ⟨atom, brackets⟩ := arm
  exact brackets.isArm atom.isArm

theorem Further.isArm {types : List (FieldType String)} (further : Further "|" Arm tokens types) :
    ∀ type ∈ types, type.IsArm := by
  intro type member
  obtain ⟨_, arm, _⟩ := further.exists_phrase member
  exact arm.isArm

theorem TypeExpression.isExpression (expression : TypeExpression tokens type) :
    type.IsExpression := by
  cases expression with
  | single arm => exact arm.isArm.isExpression
  | union arm further =>
    refine ⟨by simp, ?_⟩
    exact forall_mem_cons.mpr ⟨arm.isArm, further.isArm⟩

theorem FieldPhrase.isOfField {field : Field} (phrase : FieldPhrase tokens field) :
    field.type.IsOfField := by
  cases phrase with
  | mandatory _ _ typed _ => exact typed.isExpression.isOfField
  | markedName _ _ _ typed _ | markedType _ _ typed _ _ => exact typed.isExpression

theorem Record.isOfField {content : RecordDeclaration} (phrase : Record tokens content) :
    ∀ field ∈ content.fields, field.type.IsOfField := by
  obtain ⟨_, _, listed, _, _⟩ := phrase
  intro field member
  obtain ⟨_, isField, _⟩ := listed.exists_phrase member
  exact isField.isOfField

/-- The types of all fields that a module declares have the shape of field types. -/
theorem Module.isOfField {declarations : List Declaration} (phrase : Module tokens declarations) :
    ∀ declaration ∈ declarations, ∀ field ∈ declaration.fields, field.type.IsOfField := by
  intro declaration member
  obtain ⟨_, phrase, _⟩ := phrase.exists_phrase member
  cases phrase with
  | moduleImport _ _ | enumeration _ _ | validation _ _ => simp [Declaration.fields]
  | record _ phrase | entry _ phrase => exact phrase.isOfField

/-! ## The first tokens of phrases -/

variable {used : List Token}

theorem FieldPhrase.named {value : Field} (phrase : FieldPhrase used value) :
    ∃ name others, used = name :: others ∧ name.kind = .identifier := by
  cases phrase with
  | mandatory isName _ _ _ | markedName isName _ _ _ _ | markedType isName _ _ _ _ =>
    exact ⟨_, _, rfl, isName⟩

theorem Member.named {value : String} (phrase : Member used value) :
    ∃ name others, used = name :: others ∧ name.kind = .identifier := by
  obtain ⟨isName, _⟩ := phrase
  exact ⟨_, _, rfl, isName⟩

theorem ArgumentPhrase.length_eq_one {value : Argument} (phrase : ArgumentPhrase used value) :
    used.length = 1 := by
  cases phrase <;> rfl

end Phrase

end SchemaLang
