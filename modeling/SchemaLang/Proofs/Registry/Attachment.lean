import Mathlib.Data.List.Induction
import SchemaLang.Proofs.Registry.Additions
import SchemaLang.Proofs.Registry.Order
import SchemaLang.Proofs.Registry.Shapes

/-!
# What validation blocks attach

A validation block is about one record: the one it names, or else the nearest record before it in
its own contribution. Every call of its rules adds something to that record, under the key of the
rule: a constraint to the field of that name, or required fields to the record itself. Nothing
else comes of a block.

So what a record holds under a key is read off the declarations: take the blocks about it in their
order, their rules with that key, and the calls of these. A step adds the calls of one rule under
one key and leaves what is held under the others, which carries over to blocks and then to all
declarations. The walk remembers the last record of all and not the last one of each contribution.
This is enough, since the contributions of an import closure stand one after the other.
-/

namespace SchemaLang

open Outcome List Definition ScopedDeclaration

/-! ## The record that a block is about -/

/-- Whether a declaration is a record, the entry or not. -/
def ScopedDeclaration.isRecord (statement : ScopedDeclaration) : Bool :=
  match statement.declaration with
  | .record _ => true
  | .entry _ => true
  | _ => false

/-- The last declaration of a kind among those with names, and its number. -/
def lastOfKind? (kind : ScopedDeclaration → Bool) (declarations : List ScopedDeclaration) :
    Option (ScopedDeclaration × Nat) :=
  (declarations.filter introducesName).zipIdx.reverse.find? fun numbered =>
    kind numbered.1

section LastOfKind

variable {kind : ScopedDeclaration → Bool} {before : List ScopedDeclaration}
  {statement stmt : ScopedDeclaration}

/-- A later declaration with a name is the last of its kinds. -/
theorem lastOfKind?_concat_named (named : stmt.introducesName = true) :
    lastOfKind? kind (before ++ [stmt]) = if kind stmt then
        some (stmt, (before.filter introducesName).length)
      else lastOfKind? kind before := by
  unfold lastOfKind?
  rw [filter_append, filter_cons_of_pos named, filter_nil, zipIdx_append, reverse_append,
    zipIdx_singleton, reverse_singleton, singleton_append, find?_cons]
  cases kind stmt <;> simp

theorem lastOfKind?_concat_unnamed (unnamed : stmt.introducesName = false) :
    lastOfKind? kind (before ++ [stmt]) = lastOfKind? kind before := by
  unfold lastOfKind?
  rw [filter_append, filter_cons_of_neg (by simp [unnamed]), filter_nil, append_nil]

/-- The last of a kind is of that kind and stands at its number. -/
theorem lastOfKind?_some {id : Nat} (found : lastOfKind? kind before = some (stmt, id)) :
    kind stmt = true ∧
      (before.filter introducesName)[id]? = some stmt := by
  refine ⟨find?_some (p := fun numbered : ScopedDeclaration × Nat => kind numbered.1) found, ?_⟩
  have member := mem_reverse.mp (mem_of_find?_eq_some found)
  exact mem_zipIdx_iff_getElem?.mp member

/-- In order of contributions, the last record of the current contribution is the last record of
all, or there is none. -/
theorem lastOfKind?_own {unit : Nat} (inOrder : ContributionsInOrder before)
    (earlier : ∀ other ∈ before, other.unit ≤ unit) :
    lastOfKind? (fun other => other.isRecord && other.unit = unit) before =
      (lastOfKind? isRecord before).filter fun numbered =>
        numbered.1.unit = unit := by
  induction before using reverseRecOn with
  | nil => rfl
  | append_singleton before stmt ih =>
    obtain ⟨beforeInOrder, _, below⟩ := pairwise_append.mp inOrder
    have same := ih beforeInOrder fun other member =>
      earlier other (mem_append_left _ member)
    by_cases named : stmt.introducesName = true
    · rw [lastOfKind?_concat_named named, lastOfKind?_concat_named named, same]
      cases isRecord : stmt.isRecord with
      | false => simp
      | true =>
        by_cases isOwn : stmt.unit = unit
        · simp [isOwn, Option.filter_some]
        · -- The contribution of the last record is over, and so are those before it.
          have ended : stmt.unit < unit := Nat.lt_of_le_of_ne (earlier stmt (by simp)) isOwn
          cases last : lastOfKind? ScopedDeclaration.isRecord before with
          | none => simp [isOwn, Option.filter_some]
          | some numbered =>
            obtain ⟨other, id⟩ := numbered
            have member := mem_of_getElem? (lastOfKind?_some last).2
            have notLater := below other (mem_filter.mp member).1 stmt (by simp)
            have notOwn : other.unit ≠ unit := by omega
            simp [isOwn, notOwn, Option.filter_some]
    · have unnamed : stmt.introducesName = false := by simpa using named
      rw [lastOfKind?_concat_unnamed unnamed, lastOfKind?_concat_unnamed unnamed, same]

end LastOfKind

variable {others : List ScopedDeclaration}

namespace Registry

/-- The number of the nearest record of a contribution, among the declarations before a place. -/
def nearestRecord? (unit : Nat) (before : List ScopedDeclaration) : Option Nat :=
  (lastOfKind? (fun other => other.isRecord && other.unit = unit) before).map Prod.snd

/-- The number of what a block is about, where it stands after some declarations: what its name
means in its scope, or else the nearest record of its contribution. -/
def targetOf? (registry : Registry) (before : List ScopedDeclaration)
    (statement : ScopedDeclaration) (block : ValidationBlock) : Option Nat :=
  match block.target? with
  | some name => registry.lookupIn? statement.scope? name
  | none => nearestRecord? statement.unit before

/-- The rules about a definition that a declaration states, where it stands after others. -/
def rulesOf (registry : Registry) (id : Nat) (before : List ScopedDeclaration)
    (statement : ScopedDeclaration) : List Rule :=
  match statement.declaration with
  | .validation block =>
    if registry.targetOf? before statement block = some id then block.rules else []
  | _ => []

/-- The rules about a definition, block after block. -/
def rulesOn (registry : Registry) (id : Nat) (before : List ScopedDeclaration) :
    List ScopedDeclaration → List Rule
  | [] => []
  | statement :: others =>
    registry.rulesOf id before statement ++ registry.rulesOn id (before ++ [statement]) others

/-- The calls about a definition under a key. -/
def callsOn (registry : Registry) (declarations : List ScopedDeclaration) (id : Nat)
    (key : String) : List Call :=
  callsUnder key (registry.rulesOn id [] declarations)

/-! ## What a block adds -/

/-- A registry without what validation blocks added. -/
def skeleton (registry : Registry) : Registry :=
  { registry with definitions := registry.definitions.map Definition.skeleton }

variable {registry reg linked : Registry} {before : List ScopedDeclaration}
  {statement stmt : ScopedDeclaration} {block : ValidationBlock} {id : Nat}

theorem get?_skeleton (reg : Registry) (id : Nat) :
    reg.skeleton.get? id = (reg.get? id).map Definition.skeleton := by
  rw [skeleton, get?, get?, getElem?_map]

theorem lookupIn?_skeleton (reg : Registry) : reg.skeleton.lookupIn? = reg.lookupIn? := by
  funext scope? name
  refine lookupIn?_congr ?_ scope? name
  rw [skeleton, map_map]
  exact map_congr_left fun defn _ => defn.skeleton_name

theorem targetOf?_skeleton (reg : Registry) : reg.skeleton.targetOf? = reg.targetOf? := by
  funext before stmt block
  rw [targetOf?, targetOf?, lookupIn?_skeleton]

/-- A block fits where it stands: it is about a record, which admits its rules. -/
def Fits (registry : Registry) (before : List ScopedDeclaration) (statement : ScopedDeclaration)
    (block : ValidationBlock) : Prop :=
  ∃ id definition, registry.targetOf? before statement block = some id ∧
    registry.get? id = some definition ∧ definition.IsRecord ∧
      ∀ rule ∈ block.rules, definition.Admits rule

/-- The last record before a place, with its contribution. -/
def lastRecord? (before : List ScopedDeclaration) : Option (Nat × Nat) :=
  (lastOfKind? isRecord before).map fun numbered => (numbered.1.unit, numbered.2)

/-- The definitions of records are records. -/
def Declares (registry : Registry) (declarations : List ScopedDeclaration) : Prop :=
  ∀ id statement, (declarations.filter introducesName)[id]? = some statement →
    statement.isRecord = true → ∃ definition, registry.get? id = some definition ∧
      definition.IsRecord

/-- Where contributions are in order, the walk finds what a block is about. -/
theorem validationTarget_ok_iff (declares : reg.Declares before)
    (inOrder : ContributionsInOrder (before ++ [stmt])) :
    reg.validationTarget stmt block (lastRecord? before) = .ok id ↔
      reg.targetOf? before stmt block = some id ∧
        ∃ defn, reg.get? id = some defn ∧ defn.IsRecord := by
  unfold validationTarget targetOf?
  cases block.target? with
  | some name =>
    dsimp only
    cases found : reg.lookupIn? stmt.scope? name with
    | none => simp
    | some other =>
      have bound : other < reg.definitions.length := lookupIn?_lt found
      have isThere : reg.get? other = some reg.definitions[other] := getElem?_eq_getElem bound
      dsimp only
      rw [isThere, Option.map_some]
      cases body : reg.definitions[other].body with
      | enumeration members =>
        constructor
        · rintro ⟨⟩
        · rintro ⟨⟨⟩, defn, isDefinition, content, isRecord⟩
          rw [isThere] at isDefinition
          cases isDefinition
          rw [body] at isRecord
          cases isRecord
      | record content =>
        constructor
        · rintro ⟨⟩
          exact ⟨rfl, _, isThere, content, body⟩
        · rintro ⟨⟨⟩, _⟩
          rfl
  | none =>
    obtain ⟨beforeInOrder, _, below⟩ := pairwise_append.mp inOrder
    rw [nearestRecord?, lastOfKind?_own beforeInOrder fun other member =>
      below other member stmt (by simp), lastRecord?]
    cases last : lastOfKind? isRecord before with
    | none => simp
    | some numbered =>
      obtain ⟨other, place⟩ := numbered
      obtain ⟨isRecord, isThere⟩ := lastOfKind?_some last
      rw [Option.map_some, Option.filter_some]
      dsimp only
      by_cases isOwn : other.unit = stmt.unit
      · rw [if_pos isOwn, if_pos (by simpa using isOwn), Option.map_some]
        constructor
        · rintro ⟨⟩
          exact ⟨rfl, declares _ other isThere isRecord⟩
        · rintro ⟨⟨⟩, _⟩
          rfl
      · rw [if_neg isOwn, if_neg (by simpa using isOwn)]
        simp

variable {changed : Registry}

/-- A block is attached to a record and adds to it what its rules do, if the record admits them.
Other definitions stay as they are. -/
theorem applyBlock_ok_iff {defn : Definition} (isThere : reg.get? id = some defn) :
    reg.applyBlock block id = .ok changed ↔ ∃ final, block.rules.foldlM applyRule defn = .ok final ∧
        changed = reg.set id final := by
  rw [applyBlock, isThere]
  rw [bind_ok_iff]
  exact exists_congr fun final => and_congr_right fun _ => ⟨fun same => (Except.ok.inj same).symm,
    fun same => congrArg Except.ok same.symm⟩

/-! ## What all blocks add -/

/-- The registry after one more declaration. -/
def attachStep (before : List ScopedDeclaration) (registry : Registry)
    (statement : ScopedDeclaration) : Except Error Registry :=
  match statement.declaration with
  | .validation block => registry.attach statement block (lastRecord? before)
  | _ => .ok registry

/-- The registry after further declarations. -/
def attachAfter (before : List ScopedDeclaration) (registry : Registry)
    (others : List ScopedDeclaration) : Except Error Registry :=
  applyBlocks (before.filter introducesName).length (lastRecord? before)
    registry others

/-- Every record is the last one for a while. -/
theorem lastRecord?_concat_record (isRecord : stmt.isRecord = true)
    (named : stmt.introducesName = true) :
    lastRecord? (before ++ [stmt]) = some (stmt.unit, (before.filter introducesName).length) := by
  rw [lastRecord?, lastOfKind?_concat_named named, if_pos isRecord]
  rfl

theorem lastRecord?_concat_other (isOther : stmt.isRecord = false) :
    lastRecord? (before ++ [stmt]) = lastRecord? before := by
  unfold lastRecord?
  cases named : stmt.introducesName with
  | true => rw [lastOfKind?_concat_named named, isOther, if_neg Bool.false_ne_true]
  | false => rw [lastOfKind?_concat_unnamed named]

/-- The walk goes on from one declaration to the next. -/
theorem attachAfter_cons (before : List ScopedDeclaration) (reg : Registry)
    (stmt : ScopedDeclaration) (others : List ScopedDeclaration) :
    attachAfter before reg (stmt :: others) = attachStep before reg stmt >>= fun attached =>
        attachAfter (before ++ [stmt]) attached others := by
  unfold attachAfter attachStep
  rw [filter_append, length_append]
  cases decl : stmt.declaration with
  | validation block =>
    rw [applyBlocks_validation decl, lastRecord?_concat_other (by
      rw [isRecord, decl]), filter_cons_of_neg (by
      simp [introducesName, decl, Declaration.name?])]
    rfl
  | moduleImport content =>
    rw [applyBlocks, decl, lastRecord?_concat_other (by
      rw [isRecord, decl]), filter_cons_of_neg (by
      simp [introducesName, decl, Declaration.name?])]
    rfl
  | enumeration content =>
    rw [applyBlocks, decl, lastRecord?_concat_other (by
      rw [isRecord, decl]), filter_cons_of_pos (by
      simp [introducesName, decl, Declaration.name?])]
    rfl
  | record _ | entry _ =>
    have named : stmt.introducesName = true := by
      rw [introducesName, decl]
      rfl
    rw [applyBlocks, decl, lastRecord?_concat_record (by
      rw [isRecord, decl]) named, filter_cons_of_pos named]
    rfl

theorem declares_skeleton {decls : List ScopedDeclaration} :
    reg.skeleton.Declares decls ↔ reg.Declares decls := by
  simp only [Declares, get?_skeleton, Option.map_eq_some_iff, exists_exists_and_eq_and,
    isRecord_skeleton]

theorem Declares.of_append (declares : reg.Declares (before ++ others)) : reg.Declares before := by
  intro id stmt found isRecord
  refine declares id stmt ?_ isRecord
  obtain ⟨bound, _⟩ := List.getElem?_eq_some_iff.mp found
  rw [filter_append, getElem?_append_left bound]
  exact found

theorem fits_skeleton : reg.skeleton.Fits before stmt block ↔ reg.Fits before stmt block := by
  unfold Fits
  rw [targetOf?_skeleton]
  constructor
  · rintro ⟨id, defn, isTarget, isThere, isRecord, admits⟩
    rw [get?_skeleton] at isThere
    obtain ⟨original, found, rfl⟩ := Option.map_eq_some_iff.mp isThere
    exact ⟨id, original, isTarget, found, isRecord_skeleton.mp isRecord,
      fun rule isRule => admits_skeleton.mp (admits rule isRule)⟩
  · rintro ⟨id, defn, isTarget, isThere, isRecord, admits⟩
    refine ⟨id, defn.skeleton, isTarget, ?_, isRecord_skeleton.mpr isRecord,
      fun rule isRule => admits_skeleton.mpr (admits rule isRule)⟩
    rw [get?_skeleton, isThere]
    rfl

theorem rulesOf_skeleton (reg : Registry) : reg.skeleton.rulesOf = reg.rulesOf := by
  funext id before stmt
  rw [rulesOf, rulesOf, targetOf?_skeleton]

theorem rulesOn_skeleton (reg : Registry) (id : Nat) (before others : List ScopedDeclaration) :
    reg.skeleton.rulesOn id before others = reg.rulesOn id before others := by
  induction others generalizing before with
  | nil => rfl
  | cons stmt others ih =>
    rw [rulesOn, rulesOn, rulesOf_skeleton, ih]

/-- The walk can take a step exactly if a block that stands there fits. -/
theorem attachStep_ok_iff (declares : reg.Declares before)
    (inOrder : ContributionsInOrder (before ++ [stmt])) :
    (∃ changed, attachStep before reg stmt = .ok changed) ↔
      ∀ block, stmt.declaration = .validation block →
        reg.Fits before stmt block := by
  unfold attachStep
  cases decl : stmt.declaration with
  | validation block =>
    constructor
    · rintro ⟨changed, attached⟩ _ ⟨⟩
      obtain ⟨id, target, applied⟩ := bind_ok_iff.mp attached
      obtain ⟨isTarget, defn, isThere, isRecord⟩ :=
        (validationTarget_ok_iff declares inOrder).mp target
      obtain ⟨final, rules, _⟩ := (applyBlock_ok_iff isThere).mp applied
      exact ⟨id, defn, isTarget, isThere, isRecord, (applyRules_ok_iff isRecord).mp ⟨final, rules⟩⟩
    · intro fits
      obtain ⟨id, defn, isTarget, isThere, isRecord, admits⟩ := fits block rfl
      obtain ⟨final, rules⟩ := (applyRules_ok_iff isRecord).mpr admits
      refine ⟨_, bind_ok_iff.mpr ⟨id, ?_, (applyBlock_ok_iff isThere).mpr
        ⟨final, rules, rfl⟩⟩⟩
      exact (validationTarget_ok_iff declares inOrder).mpr
        ⟨isTarget, defn, isThere, isRecord⟩
  | _ => simp

/-- Under each key a definition comes to hold what the calls of some rules add. -/
def Gains (definition final : Definition) (rules : List Rule) : Prop :=
  ∀ key, ∃ added, (callsUnder key rules).mapM (Call.link definition key) = .ok added ∧
    final.held key = definition.held key ++ added

/-- Without rules nothing is added. -/
theorem Gains.refl (defn : Definition) : Gains defn defn [] :=
  fun _ => ⟨[], rfl, (append_nil _).symm⟩

/-- A registry comes from another one by what rules add to each definition. Nothing else of it
has changed. -/
def ComesOf (changed registry : Registry) (rules : Nat → List Rule) : Prop :=
  changed.skeleton = registry.skeleton ∧
    ∀ id definition, registry.get? id = some definition →
      ∃ final, changed.get? id = some final ∧ Gains definition final (rules id)

/-- What is added first and what is added later is held in this order. The calls are linked within
the definition as it was, since what was added does not matter to them. -/
theorem ComesOf.trans {final : Registry} {rules more : Nat → List Rule}
    (first : changed.ComesOf reg rules) (later : final.ComesOf changed more) :
    final.ComesOf reg fun id => rules id ++ more id := by
  refine ⟨later.1.trans first.1, fun id defn found => ?_⟩
  obtain ⟨middle, isMiddle, firstAdds⟩ := first.2 id defn found
  obtain ⟨result, isResult, laterAdds⟩ := later.2 id middle isMiddle
  refine ⟨result, isResult, fun key => ?_⟩
  obtain ⟨added, calls, held⟩ := firstAdds key
  obtain ⟨others, otherCalls, otherHeld⟩ := laterAdds key
  have sameOwner : middle.skeleton = defn.skeleton := by
    have sameHere := congrArg (fun other => other.get? id) first.1
    rw [get?_skeleton, get?_skeleton, isMiddle, found] at sameHere
    exact Option.some.inj sameHere
  rw [Call.link_congr sameOwner] at otherCalls
  refine ⟨added ++ others, ?_, ?_⟩
  · rw [callsUnder_append]
    exact mapM_append_ok calls otherCalls
  · rw [otherHeld, held, append_assoc]

/-- A step of the walk adds what the rules of a block do to what it is about. -/
theorem attachStep_adds (declares : reg.Declares before)
    (inOrder : ContributionsInOrder (before ++ [stmt]))
    (stepped : attachStep before reg stmt = .ok changed) :
    changed.ComesOf reg fun id => reg.rulesOf id before stmt := by
  unfold attachStep at stepped
  unfold rulesOf
  cases decl : stmt.declaration with
  | validation block =>
    rw [decl] at stepped
    obtain ⟨target, targeted, applied⟩ := bind_ok_iff.mp stepped
    obtain ⟨isTarget, original, isThere, isRecord⟩ :=
      (validationTarget_ok_iff declares inOrder).mp targeted
    have same := applyBlock_skeleton applied
    refine ⟨?_, fun id defn found => ?_⟩
    · rw [skeleton, skeleton, same.1, same.2]
    · obtain ⟨final, rules, rfl⟩ := (applyBlock_ok_iff isThere).mp applied
      dsimp only
      rw [isTarget, get?_set]
      by_cases isOwn : target = id
      · subst isOwn
        rw [isThere] at found
        cases found
        rw [if_pos rfl, if_pos rfl, isThere]
        exact ⟨final, rfl, applyRules_adds isRecord rules⟩
      · rw [if_neg isOwn, if_neg (fun isSame => isOwn (Option.some.inj isSame))]
        exact ⟨defn, found, .refl defn⟩
  | _ =>
    rw [decl] at stepped
    cases stepped
    exact ⟨rfl, fun id defn found => ⟨defn, found, .refl defn⟩⟩

/-- All blocks can be attached exactly if each fits where it stands. -/
theorem attachAfter_ok_iff (before : List ScopedDeclaration)
    (declares : reg.Declares (before ++ others))
    (inOrder : ContributionsInOrder (before ++ others)) :
    (∃ final, attachAfter before reg others = .ok final) ↔
      ∀ earlier stmt after block, others = earlier ++ stmt :: after →
        stmt.declaration = .validation block →
        reg.Fits (before ++ earlier) stmt block := by
  induction others generalizing before reg with
  | nil => simp [attachAfter, applyBlocks]
  | cons stmt others ih =>
    rw [attachAfter_cons]
    rw [append_cons] at declares inOrder
    have ownDeclares := declares.of_append.of_append
    have ownInOrder : ContributionsInOrder (before ++ [stmt]) := (pairwise_append.mp inOrder).1
    have step := attachStep_ok_iff ownDeclares ownInOrder
    -- Blocks fit or not whatever was attached before.
    have rest : ∀ changed, attachStep before reg stmt = .ok changed →
        ((∃ final, attachAfter (before ++ [stmt]) changed others = .ok final) ↔
          ∀ earlier other after block, others = earlier ++ other :: after →
            other.declaration = .validation block →
            reg.Fits (before ++ stmt :: earlier) other block) := by
      intro changed stepped
      have same := (attachStep_adds ownDeclares ownInOrder stepped).1
      have sameFits : ∀ place other block,
          changed.Fits place other block ↔ reg.Fits place other block := by
        intro place other block
        rw [← fits_skeleton, same, fits_skeleton]
      rw [ih _ (declares_skeleton.mp (same ▸ declares_skeleton.mpr declares)) inOrder]
      simp only [sameFits, append_assoc, singleton_append]
    constructor
    · rintro ⟨final, done⟩ earlier other after block split isBlock
      obtain ⟨changed, stepped, further⟩ := bind_ok_iff.mp done
      rcases cons_eq_append_iff.mp split with ⟨rfl, same⟩ | ⟨later, rfl, same⟩
      · cases same
        rw [append_nil]
        exact step.mp ⟨changed, stepped⟩ block isBlock
      · exact (rest changed stepped).mp ⟨final, further⟩ later other after block same isBlock
    · intro fits
      obtain ⟨changed, stepped⟩ := step.mpr fun block isBlock => by
        simpa using fits [] stmt others block rfl isBlock
      obtain ⟨final, further⟩ := (rest changed stepped).mpr fun later other after block split =>
        fits (stmt :: later) other after block (congrArg (cons stmt) split)
      exact ⟨final, bind_ok_iff.mpr ⟨changed, stepped, further⟩⟩

/-- All blocks together add what their rules do to what they are about. -/
theorem attachAfter_adds (before : List ScopedDeclaration) {final : Registry}
    (declares : reg.Declares (before ++ others))
    (inOrder : ContributionsInOrder (before ++ others))
    (attached : attachAfter before reg others = .ok final) :
    final.ComesOf reg fun id => reg.rulesOn id before others := by
  induction others generalizing before reg with
  | nil =>
    cases attached
    exact ⟨rfl, fun id defn found => ⟨defn, found, .refl defn⟩⟩
  | cons stmt others ih =>
    rw [attachAfter_cons] at attached
    obtain ⟨changed, stepped, further⟩ := bind_ok_iff.mp attached
    rw [append_cons] at declares inOrder
    have first :=
      attachStep_adds declares.of_append.of_append (pairwise_append.mp inOrder).1 stepped
    have later := ih _ (declares_skeleton.mp (first.1 ▸ declares_skeleton.mpr declares)) inOrder
      further
    have sameRules : (changed.rulesOn · (before ++ [stmt]) others) =
        (reg.rulesOn · (before ++ [stmt]) others) := by
      funext id
      rw [← rulesOn_skeleton, first.1, rulesOn_skeleton]
    exact first.trans (sameRules ▸ later)

/-! ## Registries with and without blocks -/

/-- Declarations without the validation blocks among them. -/
def withoutBlocks (declarations : List ScopedDeclaration) : List ScopedDeclaration :=
  declarations.filter fun statement => !statement.isValidation

variable {decls : List ScopedDeclaration}

/-- Validation blocks have no names. -/
theorem all_withoutBlocks (decls : List ScopedDeclaration) :
    Outline.all (withoutBlocks decls) = Outline.all decls := by
  unfold Outline.all withoutBlocks
  rw [filterMap_filter]
  refine filterMap_congr fun stmt _ => ?_
  cases isValidation : stmt.isValidation with
  | false => rfl
  | true =>
    unfold ScopedDeclaration.isValidation at isValidation
    split at isValidation
    · rename_i block decl
      simp [Outline.ofStatement?, qualifiedName?, decl, Declaration.name?]
    · cases isValidation

/-- Without blocks, nothing is attached. -/
theorem attachAfter_withoutBlocks (before : List ScopedDeclaration) (reg : Registry)
    (decls : List ScopedDeclaration) :
    attachAfter before reg (withoutBlocks decls) = .ok reg := by
  unfold withoutBlocks
  induction decls generalizing before with
  | nil => rfl
  | cons stmt others ih =>
    rw [filter_cons]
    split
    · rename_i isOther
      have stepped : attachStep before reg stmt = .ok reg := by
        unfold attachStep
        cases decl : stmt.declaration with
        | validation block => simp [isValidation, decl] at isOther
        | _ => rfl
      rw [attachAfter_cons, stepped]
      exact ih _
    · exact ih before

/-- Without blocks, a registry is what linking gives. -/
theorem build_withoutBlocks_ok_iff :
    build (withoutBlocks decls) = .ok linked ↔ link decls = .ok linked := by
  have sameLink : link (withoutBlocks decls) = .ok linked ↔
      link decls = .ok linked := by
    rw [link_ok_iff, link_ok_iff, all_withoutBlocks]
  rw [← sameLink, build, bind_ok_iff]
  constructor
  · rintro ⟨other, done, attached⟩
    have unchanged := attachAfter_withoutBlocks [] other decls
    obtain rfl := Except.ok.inj (unchanged.symm.trans attached)
    exact done
  · intro done
    exact ⟨linked, done, attachAfter_withoutBlocks [] linked decls⟩

/-- A registry without blocks has nothing attached. -/
theorem skeleton_of_link (done : link decls = .ok linked) : linked.skeleton = linked := by
  obtain ⟨_, _, defns, links, rfl⟩ := link_ok_iff.mp done
  have bare : defns.map Definition.skeleton = defns := by
    refine (map_congr_left fun defn member => ?_).trans (List.map_id defns)
    obtain ⟨outline, _, linkedHere⟩ := exists_left links member
    exact linkOutline_skeleton linkedHere
  rw [skeleton, bare]

/-- Linking gives records their definitions. -/
theorem declares_of_link (done : link decls = .ok linked) : linked.Declares decls := by
  have renders := build_renders (build_withoutBlocks_ok_iff.mpr done)
  rw [← Outline.all_statements, all_withoutBlocks, Outline.all_statements] at renders
  intro id stmt found isRecord
  obtain ⟨defn, isThere, rendered⟩ := getElem?_right renders found
  refine ⟨defn, isThere, ?_⟩
  have body := rendered.body
  cases ofDefinition : defn.body with
  | record content => exact ⟨content, ofDefinition⟩
  | enumeration members =>
    rw [ofDefinition] at body
    generalize declared : stmt.declaration = decl at body
    cases body
    rw [ScopedDeclaration.isRecord, declared] at isRecord
    cases isRecord

/-- A registry is built exactly when it is without its blocks, and each of these fits. -/
theorem build_ok_iff_fits (inOrder : ContributionsInOrder decls) :
    (∃ reg, build decls = .ok reg) ↔ ∃ linked, build (withoutBlocks decls) = .ok linked ∧
        ∀ before stmt after block, decls = before ++ stmt :: after →
          stmt.declaration = .validation block → linked.Fits before stmt block := by
  simp only [build_withoutBlocks_ok_iff]
  constructor
  · rintro ⟨reg, built⟩
    obtain ⟨linked, done, attached⟩ := bind_ok_iff.mp built
    exact ⟨linked, done, (attachAfter_ok_iff [] (declares_of_link done) inOrder).mp ⟨reg, attached⟩⟩
  · rintro ⟨linked, done, fits⟩
    obtain ⟨reg, attached⟩ := (attachAfter_ok_iff [] (declares_of_link done) inOrder).mpr fits
    exact ⟨reg, bind_ok_iff.mpr ⟨linked, done, attached⟩⟩

/-- A definition holds what the calls about it add, and the registry is that without blocks
otherwise. -/
theorem build_adds (inOrder : ContributionsInOrder decls)
    (built : build decls = .ok reg) :
    build (withoutBlocks decls) = .ok reg.skeleton ∧
      ∀ id defn, reg.get? id = some defn → ∀ key,
        (reg.callsOn decls id key).mapM (Call.link defn key) =
          .ok (defn.held key) := by
  obtain ⟨linked, done, attached⟩ := bind_ok_iff.mp built
  have bare := skeleton_of_link done
  obtain ⟨same, adds⟩ := attachAfter_adds [] (declares_of_link done) inOrder attached
  rw [bare] at same
  refine ⟨build_withoutBlocks_ok_iff.mpr (same ▸ done), fun id defn found key => ?_⟩
  have original : linked.get? id = some defn.skeleton := by
    rw [← same, get?_skeleton, found]
    rfl
  obtain ⟨result, isResult, each⟩ := adds id defn.skeleton original
  obtain rfl := Option.some.inj (isResult.symm.trans found)
  obtain ⟨added, calls, held⟩ := each key
  rw [held_skeleton, nil_append] at held
  rw [held, callsOn, ← rulesOn_skeleton, same, ← calls, Call.link_skeleton]

/-- Validation blocks attach where they should and change nothing else. A registry of an import
closure is built exactly when it is without the blocks and each block is about a record that admits
its rules. What the calls about a record add, block after block and rule after rule, is then what
the record requires and what its fields are constrained by, and the registry without these is the
one that is built without the blocks. A field cannot be constrained if its name is the word for the
record. A block without a name is never about a record of another contribution. -/
theorem blocks_attach_to_their_records {context : ImportContext} {path : Path} {closure : Closure}
    (collected : context.closureOf path = .ok closure ∨
      ∃ text, context.closureOfText text path = .ok closure) :
    ((∃ registry, build closure.declarations = .ok registry) ↔
      ∃ linked, build (withoutBlocks closure.declarations) = .ok linked ∧
        ∀ before statement after block, closure.declarations = before ++ statement :: after →
          statement.declaration = .validation block → linked.Fits before statement block) ∧
    (∀ registry, build closure.declarations = .ok registry →
      build (withoutBlocks closure.declarations) = .ok registry.skeleton ∧
      ∀ id definition content, registry.get? id = some definition →
        definition.body = .record content →
        (registry.callsOn closure.declarations id "self").mapM (Call.link definition "self") =
          .ok (content.required.map .required) ∧
        ∀ field ∈ content.fields,
          (field.name ≠ "self" →
            (registry.callsOn closure.declarations id field.name).mapM
              (Call.link definition field.name) = .ok (field.constraints.map .constraint)) ∧
          (field.name = "self" → field.constraints = [])) ∧
    ∀ before statement after block, closure.declarations = before ++ statement :: after →
      statement.declaration = .validation block → block.target? = none →
      (∀ other ∈ before, other.isRecord = true → other.unit ≠ statement.unit) →
      ∃ fault, build closure.declarations = .error fault := by
  have inOrder := (ImportContext.keeps_inOrder.collected collected).rising
  have succeeds := build_ok_iff_fits inOrder
  refine ⟨succeeds, fun registry built => ?_, ?_⟩
  · obtain ⟨otherwise, adds⟩ := build_adds inOrder built
    refine ⟨otherwise, fun id definition content found body => ?_⟩
    have isDefinition : definition ∈ registry.definitions := List.mem_of_getElem? found
    have isFields : definition.fields = content.fields := by rw [fields, body]
    have distinct := (sound_of_closure collected built).1.fieldNames definition isDefinition
    have spared := build_sparesSelf built definition isDefinition
    rw [isFields] at distinct
    rw [Definition.SparesSelf, isFields] at spared
    refine ⟨?_, fun field isField => ⟨fun notSelf => ?_, spared field isField⟩⟩
    · rw [adds id definition found, held, body]
      rfl
    · rw [adds id definition found, held_field body distinct isField notSelf]
  · intro before statement after block split isBlock unnamed foreign
    cases outcome : build closure.declarations with
    | error fault => exact ⟨fault, rfl⟩
    | ok registry =>
      obtain ⟨linked, _, fits⟩ := succeeds.mp ⟨registry, outcome⟩
      obtain ⟨id, definition, isTarget, _⟩ := fits before statement after block split isBlock
      rw [targetOf?, unnamed] at isTarget
      obtain ⟨⟨nearest, place⟩, found, _⟩ := Option.map_eq_some_iff.mp isTarget
      obtain ⟨isOwn, isThere⟩ := lastOfKind?_some found
      have member := (List.mem_filter.mp (List.mem_of_getElem? isThere)).1
      obtain ⟨isRecord, sameUnit⟩ : nearest.isRecord = true ∧ nearest.unit = statement.unit := by
        simpa using isOwn
      exact absurd sameUnit (foreign nearest member isRecord)

/-- Two modules that both have something to say about a record, and one of them about its own. -/
def sharedRecord : ImportContext where
  tree := ⟨[
    (["a.sdl"], .file (.text
      "import \"./b\"\nentry A \x7b x: B \x7d\nvalidate B \x7b z: max_length(4) \x7d")),
    (["b.sdl"], .file (.text
      "type B \x7b z: string \x7d\nvalidate \x7b z: min_length(2) \x7d"))], []⟩
  root := ⟨"/"⟩
  entryFileName := "index.sdl"

/-- What the two modules say about the field of the shared record comes in the order of their
contributions. -/
theorem sharedRecord_attaches :
    ∃ closure registry definition content field,
      sharedRecord.closureOf ⟨"/a.sdl"⟩ = .ok closure ∧
      build closure.declarations = .ok registry ∧ registry.get? 1 = some definition ∧
      definition.name = "B" ∧ definition.body = .record content ∧ field ∈ content.fields ∧
      (registry.callsOn closure.declarations 1 field.name).mapM (Call.link definition field.name) =
        .ok [.constraint (.maxLength 4), .constraint (.minLength 2)] := by
  obtain ⟨closure, collected, view⟩ := Outcome.ok_of_view
    (show (sharedRecord.closureOf ⟨"/a.sdl"⟩).toOption.map (fun closure =>
        (build closure.declarations).toOption.map fun registry =>
          (registry.get? 1).bind fun definition => definition.fields[0]?.map fun field =>
            (definition.name, field.name, field.constraints)) =
      some (some (some ("B", "z", [.maxLength 4, .minLength 2]))) by decide +kernel)
  obtain ⟨registry, built, ofRegistry⟩ := Outcome.ok_of_view view
  obtain ⟨definition, found, ofDefinition⟩ := Option.bind_eq_some_iff.mp ofRegistry
  obtain ⟨field, first, seen⟩ := Option.map_eq_some_iff.mp ofDefinition
  obtain ⟨named, fieldNamed, constraints⟩ : definition.name = "B" ∧ field.name = "z" ∧
      field.constraints = [.maxLength 4, .minLength 2] := by simpa using seen
  have isField := List.mem_of_getElem? first
  cases body : definition.body with
  | enumeration members =>
    rw [fields, body] at isField
    cases isField
  | record content =>
    rw [fields, body] at isField
    have notSelf : field.name ≠ "self" := by
      rw [fieldNamed]
      decide
    obtain ⟨_, holds, _⟩ := blocks_attach_to_their_records (.inl collected)
    have held := (((holds registry built).2 1 definition content found body).2 field isField).1
      notSelf
    rw [constraints] at held
    exact ⟨closure, registry, definition, content, field, collected, built, found, named, body,
      isField, held⟩

/-- A record with a field that has the word for the record as its name. -/
def selfNamed : ImportContext where
  tree := ⟨[(["a.sdl"], .file (.text
    "type T \x7b self: string \x7d\nvalidate \x7b self: required(self) \x7d"))], []⟩
  root := ⟨"/"⟩
  entryFileName := "index.sdl"

/-- What is said under that word is not about the field. -/
theorem selfNamed_unconstrained :
    ∃ closure registry definition content field,
      selfNamed.closureOf ⟨"/a.sdl"⟩ = .ok closure ∧
      build closure.declarations = .ok registry ∧ registry.get? 0 = some definition ∧
      definition.body = .record content ∧ field ∈ content.fields ∧
      ¬ (registry.callsOn closure.declarations 0 field.name).mapM
        (Call.link definition field.name) = .ok (field.constraints.map .constraint) := by
  obtain ⟨closure, collected, view⟩ := Outcome.ok_of_view
    (show (selfNamed.closureOf ⟨"/a.sdl"⟩).toOption.map (fun closure =>
        (build closure.declarations).toOption.map fun registry =>
          (registry.get? 0).bind fun definition => definition.fields[0]?.map fun field =>
            (field.constraints.length,
              (registry.callsOn closure.declarations 0 field.name).length)) =
      some (some (some (0, 1))) by decide +kernel)
  obtain ⟨registry, built, ofRegistry⟩ := Outcome.ok_of_view view
  obtain ⟨definition, found, ofDefinition⟩ := Option.bind_eq_some_iff.mp ofRegistry
  obtain ⟨field, first, seen⟩ := Option.map_eq_some_iff.mp ofDefinition
  obtain ⟨none, one⟩ := Prod.mk.inj seen
  have isField := List.mem_of_getElem? first
  cases body : definition.body with
  | enumeration members =>
    rw [fields, body] at isField
    cases isField
  | record content =>
    rw [fields, body] at isField
    refine ⟨closure, registry, definition, content, field, collected, built, found, body, isField,
      fun linked => ?_⟩
    have sameLength := (Outcome.mapM_ok_iff.mp linked).length_eq
    rw [List.length_map, none, one] at sameLength
    cases sameLength

end Registry

end SchemaLang
