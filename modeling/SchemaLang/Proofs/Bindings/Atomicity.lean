import SchemaLang.Proofs.Bindings.Emission

/-!
# Writing a Rust type is atomic

Writing the type of a field either fails and leaves everything as it was, or succeeds. Then the
type has one union at most, and what was made is the enum for it with the name that it takes. The
reason is that a variant is named before its arm is written, and an arm with a union in it has no
such name; so an arm that is written makes nothing.

Whether a reference stands inside a vector can be told by a parameter, as in `ofType`, or be read
off a count that each vector raises while its items are written. The count has to be lowered also
where the items cannot be written. `writeType` does this, and it comes to the same.
-/

namespace SchemaLang

open FieldType

mutual

/-- How many unions stand in a type. -/
def FieldType.unionCount {ρ : Type} : FieldType ρ → Nat
  | .primitive _ | .range _ _ _ | .reference _ => 0
  | .array item => item.unionCount
  | .optional inner => inner.unionCount
  | .union arms => unionCounts arms + 1

/-- How many unions stand in several types. -/
def FieldType.unionCounts {ρ : Type} : List (FieldType ρ) → Nat
  | [] => 0
  | type :: types => type.unionCount + unionCounts types

end

namespace RustBindings

open Emission List

variable {ctx : FieldContext}

/-! ## What writing a type makes -/

/-- A type with a variant has no union in it. -/
theorem unionCount_of_variantName {type : FieldType Nat} {name : String}
    (named : variantName ctx type = .ok name) : type.unionCount = 0 := by
  match type with
  | .primitive _ | .range _ _ _ | .reference _ => rfl
  | .array item =>
    obtain ⟨inner, isInner, _⟩ := Outcome.map_ok_iff.mp named
    rw [unionCount]
    exact unionCount_of_variantName isInner
  | .optional inner =>
    rw [variantName] at named
    rw [unionCount]
    exact unionCount_of_variantName named
  | .union arms => cases named

/-- Writing a type without unions makes nothing, even if it fails. -/
theorem ofType_of_flat {type : FieldType Nat} (flat : type.unionCount = 0) (insideVector : Bool)
    (progress : Progress) : (outcome (ofType ctx insideVector type) progress).2 = progress := by
  match type with
  | .primitive _ | .range _ _ _ => rfl
  | .reference id => rw [ofType, outcome_liftExcept]
  | .array item =>
    rw [unionCount] at flat
    rw [ofType, outcome_map]
    exact ofType_of_flat flat true progress
  | .optional inner =>
    rw [unionCount] at flat
    rw [ofType, outcome_map]
    exact ofType_of_flat flat insideVector progress
  | .union arms => cases flat

/-- Writing the arms of a union makes nothing, even if it fails, and succeeds only if no arm has
a union in it. -/
theorem ofArms_flat (ctx : FieldContext) (insideVector : Bool)
    (earlier : List (String × String)) (arms : List (FieldType Nat)) (progress : Progress) :
    (outcome (ofArms ctx insideVector earlier arms) progress).2 = progress ∧
      ∀ variants, (outcome (ofArms ctx insideVector earlier arms) progress).1 = .ok variants →
        unionCounts arms = 0 := by
  induction arms generalizing earlier with
  | nil => exact ⟨rfl, fun _ _ => rfl⟩
  | cons arm arms ih =>
    rw [ofArms, outcome_bind, outcome_liftExcept]
    cases named : variantName ctx arm with
    | error fault => exact ⟨rfl, by simp⟩
    | ok variant =>
      have flat := unionCount_of_variantName named
      have unchanged : (outcome (ofType ctx insideVector arm) progress).2 = progress :=
        ofType_of_flat flat insideVector progress
      dsimp only
      rw [outcome_bind]
      generalize outcome (ofType ctx insideVector arm) progress = written at unchanged ⊢
      obtain ⟨result, made⟩ := written
      obtain rfl : made = progress := unchanged
      cases result with
      | error fault => exact ⟨rfl, by simp⟩
      | ok type =>
        dsimp only
        split
        · exact ⟨rfl, by simp⟩
        · rw [unionCounts, flat, Nat.zero_add]
          exact ih _

/-- The name for a choice is refused exactly if it is used, or that of a definition. -/
theorem freeUnionName_cases (ctx : FieldContext) (progress : Progress) :
    (unionName ctx ∉ progress.unionNames ∧
      unionName ctx ∉ ctx.registry.definitions.map Definition.identifier ∧
      outcome (freeUnionName ctx) progress = (.ok (unionName ctx), progress)) ∨
    ((unionName ctx ∈ progress.unionNames ∨
        unionName ctx ∈ ctx.registry.definitions.map Definition.identifier) ∧
      ∃ construct, outcome (freeUnionName ctx) progress =
        (.error (unsupported ctx construct), progress) ∧ construct ≠ .nestedUnion) := by
  rw [freeUnionName, outcome_bind, outcome_get]
  dsimp only
  split
  · rename_i isUsed
    exact .inr ⟨.inl (by simpa using isUsed), _, rfl, by simp⟩
  · rename_i isNew
    split
    · rename_i isDeclared
      exact .inr ⟨.inr (by simpa using isDeclared), _, rfl, by simp⟩
    · rename_i isUndeclared
      exact .inl ⟨by simpa using isNew, by simpa using isUndeclared, rfl⟩

/-- What writing a type with so many unions may end in: a fault, with nothing made; the text of a
type without unions, with nothing made; or that of a type with one union, the enum of which is
made under a name that was not used. -/
inductive Writes (context : FieldContext) (progress : Progress) :
    Nat → Except Error String × Progress → Prop where
  | fault {count error} : Writes context progress count (.error error, progress)
  | flat {text} : Writes context progress 0 (.ok text, progress)
  | union {text} (isNew : unionName context ∉ progress.unionNames)
      (variants : List (String × String)) :
      Writes context progress 1 (.ok text,
        { pending := progress.pending ++ [unionText (unionName context) variants]
          unionNames := progress.unionNames ++ [unionName context] })

theorem Writes.map {progress : Progress} {count : Nat} {ended : Except Error String × Progress}
    (writes : Writes ctx progress count ended) (change : String → String) :
    Writes ctx progress count (ended.1.map change, ended.2) := by
  cases writes with
  | fault => exact .fault
  | flat => exact .flat
  | union isNew variants => exact .union isNew variants

theorem ofType_writes (insideVector : Bool) (type : FieldType Nat) (progress : Progress) :
    Writes ctx progress type.unionCount
      (outcome (ofType ctx insideVector type) progress) := by
  match type with
  | .primitive _ | .range _ _ _ => exact .flat
  | .reference id =>
    rw [ofType, outcome_liftExcept]
    cases ofReference ctx insideVector id with
    | error fault => exact .fault
    | ok text => exact .flat
  | .array item =>
    rw [ofType, outcome_map]
    exact (ofType_writes true item progress).map _
  | .optional inner =>
    rw [ofType, outcome_map]
    exact (ofType_writes insideVector inner progress).map _
  | .union arms =>
    rw [ofType, outcome_bind]
    rcases freeUnionName_cases ctx progress with
      ⟨isNew, _, named⟩ | ⟨_, construct, stopped, _⟩
    · rw [named]
      dsimp only
      obtain ⟨unchanged, flat⟩ := ofArms_flat ctx insideVector [] arms progress
      rw [outcome_bind]
      generalize outcome (ofArms ctx insideVector [] arms) progress = written
        at unchanged flat ⊢
      obtain ⟨result, made⟩ := written
      obtain rfl : made = progress := unchanged
      cases result with
      | error fault => exact .fault
      | ok variants =>
        rw [unionCount, flat variants rfl]
        exact .union isNew variants
    · rw [stopped]
      exact .fault

/-! ## Counting vectors -/

/-- What a writer keeps: how many vectors stand around what it writes, and what it has made. -/
structure Writer where
  depth : Nat
  progress : Progress

/-- A step of a writer, which may fail. -/
abbrev Writing (α : Type) := ExceptT Error (StateM Writer) α

namespace Writing

variable {α β : Type}

/-- What a step of a writer ends in, and what the writer keeps then. -/
def ending (writing : Writing α) (writer : Writer) : Except Error α × Writer :=
  writing.run.run writer

theorem ending_bind (writing : Writing α) (next : α → Writing β) (writer : Writer) :
    ending (writing >>= next) writer =
      match ending writing writer with
      | (.ok value, middle) => ending (next value) middle
      | (.error fault, middle) => (.error fault, middle) := by
  show ExceptT.bindCont next (writing writer).1 (writing writer).2 =
    match writing writer with
    | (.ok value, middle) => ending (next value) middle
    | (.error fault, middle) => (.error fault, middle)
  cases writing writer with
  | mk ended middle => cases ended <;> rfl

@[simp] theorem ending_liftExcept (ended : Except Error α) (writer : Writer) :
    ending (liftExcept ended : Writing α) writer = (ended, writer) := by
  cases ended <;> rfl

/-- An emission as a step of a writer, which leaves the count alone. -/
def ofEmission (emission : Emission α) : Writing α :=
  ExceptT.mk fun writer =>
    let ended := outcome emission writer.progress
    (ended.1, { writer with progress := ended.2 })

@[simp] theorem ending_ofEmission (emission : Emission α) (depth : Nat) (progress : Progress) :
    ending (ofEmission emission) ⟨depth, progress⟩ =
      ((outcome emission progress).1, ⟨depth, (outcome emission progress).2⟩) := rfl

/-- A step of a writer does what an emission does that is told whether it is inside a vector. -/
def Follows (writing : Writing α) (emission : Bool → Emission α) : Prop :=
  ∀ depth progress, ending writing ⟨depth, progress⟩ =
    ending (ofEmission (emission (decide (0 < depth)))) ⟨depth, progress⟩

/-- Steps one after the other follow emissions one after the other. -/
theorem Follows.bind {writing : Writing α} {emission : Bool → Emission α} {next : α → Writing β}
    {further : α → Bool → Emission β} (first : Follows writing emission)
    (second : ∀ value, Follows (next value) (further value)) :
    Follows (writing >>= next) fun inside => emission inside >>= (further · inside) := by
  intro depth progress
  rw [ending_bind, first, ending_ofEmission, ending_ofEmission, outcome_bind]
  cases outcome (emission (decide (0 < depth))) progress with
  | mk result made =>
    cases result with
    | error fault => rfl
    | ok value => exact second value depth made

end Writing

open Writing

mutual

/-- The type for a type expression on a field, by a writer that counts the vectors around it. -/
def writeType (context : FieldContext) : FieldType Nat → Writing String
  | .primitive kind => pure (ofPrimitive kind)
  | .range kind _ _ => pure (ofPrimitive kind.primitive)
  | .reference id => do
    let writer ← get
    liftExcept (ofReference context (decide (0 < writer.depth)) id)
  | .array item => do
    modify fun writer => { writer with depth := writer.depth + 1 }
    -- The count is lowered before it is asked whether the items could be written.
    let written ← ExceptT.lift (writeType context item).run
    modify fun writer => { writer with depth := writer.depth - 1 }
    return "Vec<" ++ (← liftExcept written) ++ ">"
  | .optional inner => do return "Option<" ++ (← writeType context inner) ++ ">"
  | .union arms => do
    let name ← ofEmission (freeUnionName context)
    let variants ← writeArms context [] arms
    ofEmission (addUnion name variants)
    return name

/-- The variants for the arms of a union after those before them. -/
def writeArms (context : FieldContext) (earlier : List (String × String)) :
    List (FieldType Nat) → Writing (List (String × String))
  | [] => pure earlier
  | arm :: arms => do
    let variant ← liftExcept (variantName context arm)
    let type ← writeType context arm
    match earlier.find? fun other => other.1 = variant || other.2 = type with
    | some (_, existing) => throw (unsupported context (.sameArms existing))
    | none => writeArms context (earlier ++ [(variant, type)]) arms

end

section

variable (ctx : FieldContext)

/-- Writing a vector leaves the count as it is after the items, less one. -/
theorem writeType_array (item : FieldType Nat) (depth : Nat) (progress : Progress) :
    ending (writeType ctx (.array item)) ⟨depth, progress⟩ =
      ((ending (writeType ctx item) ⟨depth + 1, progress⟩).1.map ("Vec<" ++ · ++ ">"),
        ⟨(ending (writeType ctx item) ⟨depth + 1, progress⟩).2.depth - 1,
          (ending (writeType ctx item) ⟨depth + 1, progress⟩).2.progress⟩) := by
  rw [writeType]
  show ending (do
      return "Vec<" ++ (← liftExcept (ending (writeType ctx item) ⟨depth + 1, progress⟩).1) ++ ">")
    ⟨(ending (writeType ctx item) ⟨depth + 1, progress⟩).2.depth - 1,
      (ending (writeType ctx item) ⟨depth + 1, progress⟩).2.progress⟩ = _
  cases (ending (writeType ctx item) ⟨depth + 1, progress⟩).1 <;> rfl

mutual

/-- A writer that counts vectors writes types as the emission that is told of them. -/
theorem writeType_follows (type : FieldType Nat) :
    Follows (writeType ctx type) fun inside => ofType ctx inside type := by
  match type with
  | .primitive _ | .range _ _ _ => exact fun _ _ => rfl
  | .reference id =>
    intro depth progress
    simp only [ending_ofEmission, ofType, outcome_liftExcept]
    exact ending_liftExcept _ _
  | .array item =>
    intro depth progress
    have inner := writeType_follows item (depth + 1) progress
    rw [ending_ofEmission, decide_eq_true (Nat.succ_pos depth)] at inner
    simp only [ending_ofEmission, ofType, outcome_map]
    rw [writeType_array, inner]
    rfl
  | .optional inner =>
    exact (writeType_follows inner).bind fun _ _ _ => rfl
  | .union arms =>
    refine Follows.bind (fun _ _ => rfl) fun name => ?_
    refine (writeArms_follows [] arms).bind fun variants => ?_
    exact fun _ _ => rfl

theorem writeArms_follows (earlier : List (String × String)) (arms : List (FieldType Nat)) :
    Follows (writeArms ctx earlier arms) fun inside => ofArms ctx inside earlier arms := by
  match arms with
  | [] => exact fun _ _ => rfl
  | arm :: arms =>
    refine Follows.bind (fun depth progress => ?_) fun variant => ?_
    · rw [ending_liftExcept, ending_ofEmission, outcome_liftExcept]
    refine (writeType_follows arm).bind fun type => ?_
    cases earlier.find? fun other => other.1 = variant || other.2 = type with
    | some _ => exact fun _ _ => rfl
    | none => exact writeArms_follows _ arms

end

end

/-- Writing a type, from whatever a writer keeps, does what the emission does and restores the
count of vectors. It fails and changes nothing; or it succeeds for a type without unions and
changes nothing; or it succeeds for a type with one union and adds the enum for it, together with
the name of the enum, which was free. -/
theorem writeType_atomic (context : FieldContext) (type : FieldType Nat) (writer : Writer) :
    ∃ result after, ending (writeType context type) writer = (result, after) ∧
      outcome (ofType context (decide (0 < writer.depth)) type) writer.progress =
        (result, after.progress) ∧
      after.depth = writer.depth ∧
      ((∃ fault, result = .error fault ∧ after = writer) ∨
        (∃ text, result = .ok text ∧ type.unionCount = 0 ∧ after = writer) ∨
        ∃ text variants, result = .ok text ∧ type.unionCount = 1 ∧
          unionName context ∉ writer.progress.unionNames ∧
          after.progress.pending =
            writer.progress.pending ++ [unionText (unionName context) variants] ∧
          after.progress.unionNames = writer.progress.unionNames ++ [unionName context]) := by
  obtain ⟨depth, progress⟩ := writer
  have follows := writeType_follows context type depth progress
  have writes : Writes context progress type.unionCount _ :=
    ofType_writes (decide (0 < depth)) type progress
  rw [ending_ofEmission] at follows
  generalize outcome (ofType context (decide (0 < depth)) type) progress = ended
    at follows writes ⊢
  refine ⟨ended.1, ⟨depth, ended.2⟩, follows, rfl, rfl, ?_⟩
  generalize type.unionCount = count at writes ⊢
  cases writes with
  | fault => exact .inl ⟨_, rfl, rfl⟩
  | flat => exact .inr (.inl ⟨_, rfl, rfl, rfl⟩)
  | union isNew variants => exact .inr (.inr ⟨_, variants, rfl, rfl, isNew, rfl, rfl⟩)

end RustBindings

end SchemaLang
