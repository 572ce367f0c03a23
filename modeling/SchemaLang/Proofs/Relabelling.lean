import Mathlib.Logic.Function.Basic
import SchemaLang.Registry.Build

/-!
# Changing locations and numbers

Locations say where something was written, and numbers say which definition a reference means.
No stage of a compilation looks into either: it passes locations on to errors and definitions, and
it uses numbers to find definitions. To say so, a `Relabelling` changes all locations and all
numbers of some data, and a stage commutes with it: what it makes of the changed data is what it
makes of the data, changed.

A stage may fail, so `Relabelling.outcome` changes the error or the value that it ends in. Its laws
follow the steps of a stage.
-/

namespace SchemaLang

open List

/-- A change of locations and of numbers. Built-in types stay where they are, and different
numbers stay different. -/
structure Relabelling where
  place : Location → Location
  number : Nat → Nat
  builtin : place .builtin = .builtin
  injective : Function.Injective number

/-- Forget all locations. -/
def Relabelling.unplaced : Relabelling := ⟨fun _ => .builtin, id, rfl, Function.injective_id⟩

/-- Change nothing. -/
def Relabelling.identity : Relabelling := ⟨id, id, rfl, Function.injective_id⟩

/-! ## Declarations -/

variable (ρ : Relabelling)

def Token.relabel (token : Token) : Token := { token with location := ρ.place token.location }

def Field.relabel (field : Field) : Field := { field with location := ρ.place field.location }

def Import.relabel (item : Import) : Import := { item with location := ρ.place item.location }

def EnumDeclaration.relabel (content : EnumDeclaration) : EnumDeclaration :=
  { content with location := ρ.place content.location }

def RecordDeclaration.relabel (content : RecordDeclaration) : RecordDeclaration :=
  { content with
    fields := content.fields.map (Field.relabel ρ)
    location := ρ.place content.location }

def Call.relabel (call : Call) : Call := { call with location := ρ.place call.location }

def Rule.relabel (rule : Rule) : Rule :=
  { rule with
    calls := rule.calls.map (Call.relabel ρ)
    location := ρ.place rule.location }

def ValidationBlock.relabel (block : ValidationBlock) : ValidationBlock :=
  { block with
    rules := block.rules.map (Rule.relabel ρ)
    location := ρ.place block.location }

def Declaration.relabel : Declaration → Declaration
  | .moduleImport content => .moduleImport (content.relabel ρ)
  | .enumeration content => .enumeration (content.relabel ρ)
  | .record content => .record (content.relabel ρ)
  | .entry content => .entry (content.relabel ρ)
  | .validation content => .validation (content.relabel ρ)

def ScopedDeclaration.relabel (statement : ScopedDeclaration) : ScopedDeclaration :=
  { statement with declaration := statement.declaration.relabel ρ }

def Outline.relabel (outline : Outline) : Outline :=
  { outline with statement := outline.statement.relabel ρ }

/-! ## Definitions -/

namespace FieldType

variable {α β : Type}

mutual

/-- A type with every reference changed. -/
def map (change : α → β) : FieldType α → FieldType β
  | .primitive kind => .primitive kind
  | .reference target => .reference (change target)
  | .array item => .array (item.map change)
  | .optional inner => .optional (inner.map change)
  | .union arms => .union (mapAll change arms)
  | .range kind least greatest => .range kind least greatest

/-- Types with every reference changed. -/
def mapAll (change : α → β) : List (FieldType α) → List (FieldType β)
  | [] => []
  | type :: types => type.map change :: mapAll change types

end

theorem mapAll_eq_map (change : α → β) (types : List (FieldType α)) :
    mapAll change types = types.map (map change) := by
  induction types with
  | nil => rfl
  | cons type types ih => rw [mapAll, ih, map_cons]

end FieldType

def DefinedField.relabel (field : DefinedField) : DefinedField :=
  { field with
    type := field.type.map ρ.number
    location := ρ.place field.location }

def RecordBody.relabel (content : RecordBody) : RecordBody :=
  { content with fields := content.fields.map (DefinedField.relabel ρ) }

def DefinitionBody.relabel : DefinitionBody → DefinitionBody
  | .enumeration members => .enumeration members
  | .record content => .record (content.relabel ρ)

def Definition.relabel (definition : Definition) : Definition :=
  { definition with
    location := ρ.place definition.location
    body := definition.body.relabel ρ }

/-! ## Errors -/

def InternalFault.relabel : InternalFault → InternalFault
  | .unterminatedTokens => .unterminatedTokens
  | .danglingType id => .danglingType (ρ.number id)
  | .invalidSchema fault => .invalidSchema fault

def Error.relabel : Error → Error
  | .file fault => .file fault
  | .characters text location => .characters text (ρ.place location)
  | .unterminatedString location => .unterminatedString (ρ.place location)
  | .unexpected found expected => .unexpected (found.relabel ρ) expected
  | .moduleNotFound path reason location? => .moduleNotFound path reason (location?.map ρ.place)
  | .circularImport cycle => .circularImport cycle
  | .duplicateDeclaration name location previous =>
    .duplicateDeclaration name (ρ.place location) (ρ.place previous)
  | .multipleEntries name previous location => .multipleEntries name previous (ρ.place location)
  | .unresolvedReference name field owner location =>
    .unresolvedReference name field owner (ρ.place location)
  | .unknownConstraint function location => .unknownConstraint function (ρ.place location)
  | .invalidConstraint fault location => .invalidConstraint fault (ρ.place location)
  | .conflictingConstraint owner field keyword location =>
    .conflictingConstraint owner field keyword (ρ.place location)
  | .unsupported target construct location => .unsupported target construct (ρ.place location)
  | .unknownTarget name => .unknownTarget name
  | .configuration subject fault => .configuration subject fault
  | .internal fault => .internal (fault.relabel ρ)

/-! ## Outcomes -/

namespace Relabelling

variable {α β γ δ : Type}

/-- Change what a stage ends in. -/
def outcome (change : α → β) : Except Error α → Except Error β
  | .ok value => .ok (change value)
  | .error fault => .error (fault.relabel ρ)

variable {ρ}

/-- The second of two steps commutes if it does at every value of the first. -/
theorem outcome_bind {change : α → β} {changeLast : γ → δ} {first : Except Error α}
    {next : α → Except Error γ} {other : β → Except Error δ}
    (commutes : ∀ value, other (change value) = ρ.outcome changeLast (next value)) :
    (ρ.outcome change first >>= other) = ρ.outcome changeLast (first >>= next) := by
  cases first with
  | error fault => rfl
  | ok value => exact commutes value

theorem outcome_map {change : α → β} {changeLast : γ → δ} {first : Except Error α}
    {next : α → γ} {other : β → δ}
    (commutes : ∀ value, other (change value) = changeLast (next value)) :
    (ρ.outcome change first).map other = ρ.outcome changeLast (first.map next) := by
  cases first with
  | error fault => rfl
  | ok value => exact congrArg Except.ok (commutes value)

/-- A step over a list commutes if it does at every item. -/
theorem outcome_mapM {changeItem : α → β} {change : γ → δ} {step : α → Except Error γ}
    {other : β → Except Error δ} {items : List α}
    (commutes : ∀ item ∈ items, other (changeItem item) = ρ.outcome change (step item)) :
    (items.map changeItem).mapM other = ρ.outcome (map change) (items.mapM step) := by
  induction items with
  | nil => rfl
  | cons item rest ih =>
    have others := ih fun later member =>
      commutes later (mem_cons_of_mem item member)
    rw [map_cons, mapM_cons, mapM_cons, commutes item mem_cons_self, others]
    exact outcome_bind fun result => outcome_bind fun results => rfl

/-- A step whose results stay as they are commutes over a list if it does at every item. -/
theorem outcome_mapM_values {changeItem : α → β} {step : α → Except Error γ}
    {other : β → Except Error γ} {items : List α}
    (commutes : ∀ item ∈ items,
      other (changeItem item) = ρ.outcome id (step item)) :
    (items.map changeItem).mapM other = ρ.outcome id (items.mapM step) := by
  have mapped := outcome_mapM commutes
  rwa [map_id_fun] at mapped

/-- A fold commutes if each of its steps does. -/
theorem outcome_foldlM {changeItem : α → β} {change : γ → δ} {step : γ → α → Except Error γ}
    {other : δ → β → Except Error δ} {items : List α}
    (commutes : ∀ state, ∀ item ∈ items,
      other (change state) (changeItem item) = ρ.outcome change (step state item)) (start : γ) :
    (items.map changeItem).foldlM other (change start) =
      ρ.outcome change (items.foldlM step start) := by
  induction items generalizing start with
  | nil => rfl
  | cons item rest ih =>
    rw [map_cons, foldlM_cons, foldlM_cons, commutes start item mem_cons_self]
    exact outcome_bind (ih fun state later member =>
      commutes state later (mem_cons_of_mem item member))

/-! Two runs end alike when what they end in is the same once it is changed. -/

/-- What it means to end alike. -/
theorem outcome_eq_iff {change : α → β} {first second : Except Error α} :
    ρ.outcome change first = ρ.outcome change second ↔
      (∃ one two, first = .ok one ∧ second = .ok two ∧ change one = change two) ∨
      ∃ fault other, first = .error fault ∧ second = .error other ∧
        fault.relabel ρ = other.relabel ρ := by
  cases first with
  | error _ | ok _ => cases second <;> simp [outcome]

/-- Two steps end alike if the first ones do, and the second ones do on values that are alike. -/
theorem outcome_bind_congr {change : α → β} {changeLast : γ → δ} {first second : Except Error α}
    {next other : α → Except Error γ} (alike : ρ.outcome change first = ρ.outcome change second)
    (continues : ∀ one two, change one = change two →
      ρ.outcome changeLast (next one) = ρ.outcome changeLast (other two)) :
    ρ.outcome changeLast (first >>= next) = ρ.outcome changeLast (second >>= other) := by
  rcases outcome_eq_iff.mp alike with ⟨one, two, rfl, rfl, same⟩ | ⟨fault, fault', rfl, rfl, same⟩
  · exact continues one two same
  · exact congrArg Except.error same

/-- Folds over items that are alike end alike if their steps do. -/
theorem outcome_foldlM_congr {changeItem : α → β} {change : γ → δ}
    {step other : γ → α → Except Error γ} {items others : List α}
    (sameItems : items.map changeItem = others.map changeItem)
    (continues : ∀ one two item otherItem, change one = change two →
      changeItem item = changeItem otherItem →
      ρ.outcome change (step one item) = ρ.outcome change (other two otherItem))
    {start otherStart : γ} (sameStart : change start = change otherStart) :
    ρ.outcome change (items.foldlM step start) =
      ρ.outcome change (others.foldlM other otherStart) := by
  induction items generalizing others start otherStart with
  | nil =>
    obtain rfl : others = [] := map_eq_nil_iff.mp sameItems.symm
    exact congrArg Except.ok sameStart
  | cons item rest ih =>
    cases others with
    | nil => cases sameItems
    | cons otherItem otherRest =>
      obtain ⟨sameItem, sameRest⟩ := cons.inj sameItems
      rw [foldlM_cons, foldlM_cons]
      exact outcome_bind_congr (continues _ _ _ _ sameStart sameItem) fun one two same =>
        ih sameRest same

variable (ρ) in
/-- Two stages end alike: in related values, or in an error and the same error changed. -/
inductive Matches (related : α → β → Prop) : Except Error α → Except Error β → Prop where
  | value {first second} (same : related first second) : Matches related (.ok first) (.ok second)
  | fault {error : Error} : Matches related (.error error) (.error (error.relabel ρ))

variable {first : Except Error α} {other : Except Error β}

theorem Matches.bind {related : α → β → Prop} {relatedLast : γ → δ → Prop}
    {next : α → Except Error γ} {nextOther : β → Except Error δ}
    (alike : ρ.Matches related first other)
    (continues : ∀ one two, related one two → ρ.Matches relatedLast (next one) (nextOther two)) :
    ρ.Matches relatedLast (first >>= next) (other >>= nextOther) := by
  cases alike with
  | value same => exact continues _ _ same
  | fault => exact .fault

/-- A stage that commutes with a change matches itself on changed data. -/
theorem Matches.of_outcome {change : α → β} (commutes : other = ρ.outcome change first) :
    ρ.Matches (fun one two => two = change one) first other := by
  subst commutes
  cases first with
  | error fault => exact .fault
  | ok value => exact .value rfl

end Relabelling

/-! ## Changes that keep locations -/

section Placed

variable {ρ : Relabelling} (placed : ρ.place = id)
include placed

theorem Token.relabel_placed : Token.relabel ρ = id := by
  funext token
  rw [Token.relabel, placed]
  rfl

theorem Field.relabel_placed : Field.relabel ρ = id := by
  funext field
  rw [Field.relabel, placed]
  rfl

theorem RecordDeclaration.relabel_placed : RecordDeclaration.relabel ρ = id := by
  funext content
  rw [RecordDeclaration.relabel, placed, Field.relabel_placed placed, map_id]
  rfl

theorem Call.relabel_placed : Call.relabel ρ = id := by
  funext call
  rw [Call.relabel, placed]
  rfl

theorem Rule.relabel_placed : Rule.relabel ρ = id := by
  funext rule
  rw [Rule.relabel, placed, Call.relabel_placed placed, map_id]
  rfl

theorem ValidationBlock.relabel_placed : ValidationBlock.relabel ρ = id := by
  funext block
  rw [ValidationBlock.relabel, placed, Rule.relabel_placed placed, map_id]
  rfl

theorem Declaration.relabel_placed (decl : Declaration) : decl.relabel ρ = decl := by
  cases decl with
  | moduleImport content => rw [relabel, Import.relabel, placed]; rfl
  | enumeration content => rw [relabel, EnumDeclaration.relabel, placed]; rfl
  | record _ | entry _ => rw [relabel, RecordDeclaration.relabel_placed placed]; rfl
  | validation content => rw [relabel, ValidationBlock.relabel_placed placed]; rfl

theorem ScopedDeclaration.relabel_placed (stmt : ScopedDeclaration) : stmt.relabel ρ = stmt := by
  rw [relabel, Declaration.relabel_placed placed]

theorem Outline.relabel_placed (outline : Outline) : outline.relabel ρ = outline := by
  rw [relabel, ScopedDeclaration.relabel_placed placed]

end Placed

/-! ## Kinds of errors -/

/-- The kinds of errors, whatever they are about and wherever they are. -/
inductive Error.Kind where
  | file
  | characters
  | unterminatedString
  | unexpected
  | moduleNotFound
  | circularImport
  | duplicateDeclaration
  | multipleEntries
  | unresolvedReference
  | unknownConstraint
  | invalidConstraint
  | conflictingConstraint
  | unsupported
  | unknownTarget
  | configuration
  | internal
deriving DecidableEq, Repr

/-- The kind of an error. -/
def Error.kind : Error → Error.Kind
  | .file _ => .file
  | .characters _ _ => .characters
  | .unterminatedString _ => .unterminatedString
  | .unexpected _ _ => .unexpected
  | .moduleNotFound _ _ _ => .moduleNotFound
  | .circularImport _ => .circularImport
  | .duplicateDeclaration _ _ _ => .duplicateDeclaration
  | .multipleEntries _ _ _ => .multipleEntries
  | .unresolvedReference _ _ _ _ => .unresolvedReference
  | .unknownConstraint _ _ => .unknownConstraint
  | .invalidConstraint _ _ => .invalidConstraint
  | .conflictingConstraint _ _ _ _ => .conflictingConstraint
  | .unsupported _ _ _ => .unsupported
  | .unknownTarget _ => .unknownTarget
  | .configuration _ _ => .configuration
  | .internal _ => .internal

theorem Error.kind_relabel (ρ : Relabelling) (fault : Error) :
    (fault.relabel ρ).kind = fault.kind := by
  cases fault <;> rfl

theorem Error.kind_eq_of_relabel {ρ : Relabelling} {fault other : Error}
    (same : fault.relabel ρ = other.relabel ρ) : fault.kind = other.kind := by
  rw [← fault.kind_relabel ρ, same, other.kind_relabel]

end SchemaLang
