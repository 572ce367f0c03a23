import SchemaLang.Bindings.Generate
import SchemaLang.Proofs.Outcome

/-!
# Emissions step by step

Writing Rust bindings is a chain of steps that may fail and that add to what has been made.
The laws here say how two steps combine, so that later proofs follow the chain: what it ends
in, what it has made when it succeeds, and which faults it can end in.
-/

namespace SchemaLang.RustBindings

open List

variable {progress final : Progress}

namespace Emission

variable {α β : Type}

/-- What an emission ends in, and what has been made by then. -/
def outcome (emission : Emission α) (progress : Progress) : Except Error α × Progress :=
  emission.run.run progress

/-- The second of two steps starts with what the first has made. -/
theorem outcome_bind (emission : Emission α) (next : α → Emission β) (progress : Progress) :
    outcome (emission >>= next) progress =
      match outcome emission progress with
      | (.ok value, middle) => outcome (next value) middle
      | (.error fault, middle) => (.error fault, middle) := by
  show ExceptT.bindCont next (emission progress).1 (emission progress).2 =
    match emission progress with
    | (.ok value, middle) => outcome (next value) middle
    | (.error fault, middle) => (.error fault, middle)
  cases emission progress with
  | mk ended middle => cases ended <;> rfl

@[simp] theorem outcome_pure (value : α) (progress : Progress) :
    outcome (pure value) progress = (.ok value, progress) := rfl

@[simp] theorem outcome_throw (fault : Error) (progress : Progress) :
    outcome (throw fault : Emission α) progress = (.error fault, progress) := rfl

@[simp] theorem outcome_get (progress : Progress) :
    outcome (get : Emission Progress) progress = (.ok progress, progress) := rfl

@[simp] theorem outcome_addUnion (name : String) (variants : List (String × String))
    (progress : Progress) :
    outcome (addUnion name variants) progress =
      (.ok (), { pending := progress.pending ++ [unionText name variants]
                 unionNames := progress.unionNames ++ [name] }) := rfl

@[simp] theorem outcome_liftExcept (ended : Except Error α) (progress : Progress) :
    outcome (liftExcept ended : Emission α) progress = (ended, progress) := by
  cases ended <;> rfl

/-- What is only made of a result makes nothing more. -/
theorem outcome_map (emission : Emission α) (change : α → β) (progress : Progress) :
    outcome (do return change (← emission)) progress =
      ((outcome emission progress).1.map change, (outcome emission progress).2) := by
  rw [outcome_bind]
  cases outcome emission progress with
  | mk ended middle => cases ended <;> rfl

/-- A value alone makes nothing. -/
theorem pure_ok_iff {value result : α} :
    outcome (pure value) progress = (.ok result, final) ↔ value = result ∧ progress = final := by
  simp

theorem throw_ne_ok {fault : Error} {result : α} :
    outcome (throw fault) progress ≠ (.ok result, final) := by
  simp

variable {emission : Emission α} {next : α → Emission β}

/-- Two steps succeed exactly when the first does and the second does after it. -/
theorem bind_ok_iff {result : β} :
    outcome (emission >>= next) progress = (.ok result, final) ↔
      ∃ value middle, outcome emission progress = (.ok value, middle) ∧
        outcome (next value) middle = (.ok result, final) := by
  rw [outcome_bind]
  cases outcome emission progress with
  | mk ended middle => cases ended <;> simp

variable {step : α → Emission β} {items : List α}

/-- A step over a list makes progress item by item, and what holds between the steps holds
at the end. -/
theorem mapM_ok (kept : Progress → Prop) {related : α → β → Prop} {results : List β}
    (each : ∀ item ∈ items, ∀ result start made, kept start → outcome (step item) start = (.ok
      result, made) → related item result ∧ kept made) (holds : kept progress)
    (done : outcome (items.mapM step) progress = (.ok results, final)) :
    Forall₂ related items results ∧ kept final := by
  induction items generalizing results progress with
  | nil =>
    cases done
    exact ⟨.nil, holds⟩
  | cons item rest ih =>
    rw [mapM_cons] at done
    obtain ⟨result, middle, first, others⟩ := bind_ok_iff.mp done
    obtain ⟨found, last, mapped, same⟩ := bind_ok_iff.mp others
    cases same
    obtain ⟨here, middleKept⟩ := each item mem_cons_self result progress middle holds first
    obtain ⟨there, finalKept⟩ := ih
      (fun other member => each other (mem_cons_of_mem item member)) middleKept mapped
    exact ⟨.cons here there, finalKept⟩

/-- The only faults that an emission can end in are of a kind, whatever was made before. -/
def FailsOnly (kind : Error → Prop) (emission : Emission α) : Prop :=
  ∀ progress, Outcome.FailsOnly kind (emission.outcome progress).1

variable {ended : Except Error α}

section FailsOnly

variable {kind : Error → Prop}

theorem FailsOnly.pure (value : α) : FailsOnly kind (pure value : Emission α) :=
  fun _ => .of_ok ⟨value, rfl⟩

theorem FailsOnly.throw {fault : Error} (holds : kind fault) :
    FailsOnly kind (throw fault : Emission α) := fun _ => .error holds

theorem FailsOnly.get : FailsOnly kind (get : Emission Progress) :=
  fun progress => .of_ok ⟨progress, rfl⟩

theorem FailsOnly.set (made : Progress) : FailsOnly kind (set made : Emission PUnit) :=
  fun _ => .of_ok ⟨(), rfl⟩

theorem FailsOnly.addUnion (name : String) (variants : List (String × String)) :
    FailsOnly kind (addUnion name variants) := fun _ => .of_ok ⟨(), rfl⟩

theorem FailsOnly.liftExcept (only : Outcome.FailsOnly kind ended) :
    FailsOnly kind (liftExcept ended : Emission α) := by
  intro progress
  rw [outcome_liftExcept]
  exact only

/-- Two steps fail only as each of them does. -/
theorem FailsOnly.bind (first : FailsOnly kind emission)
    (second : ∀ value, FailsOnly kind (next value)) : FailsOnly kind (emission >>= next) := by
  intro progress
  have firstOnly := first progress
  rw [outcome_bind]
  cases ended : outcome emission progress with
  | mk value middle =>
    rw [ended] at firstOnly
    cases value with
    | error fault => exact .error (firstOnly fault rfl)
    | ok value => exact second value middle

/-- A step over a list fails only as it does at one of the items. -/
theorem FailsOnly.mapM (each : ∀ item ∈ items, FailsOnly kind (step item)) :
    FailsOnly kind (items.mapM step) := by
  induction items with
  | nil => exact .pure []
  | cons item rest ih =>
    rw [mapM_cons]
    refine (each item mem_cons_self).bind fun result => ?_
    refine (ih fun other member => ?_).bind fun results => .pure _
    exact each other (mem_cons_of_mem item member)

end FailsOnly

/-- What an emission needs and takes. It succeeds exactly if a condition holds and some names are
free, that is different from each other and from those used before; then it has used them. If
not, it ends in a fault of a kind. -/
def Takes (condition : Prop) (names : List String) (kind : Error → Prop) (emission : Emission α) :
    Prop :=
  ∀ progress : Progress, progress.unionNames.Nodup →
    (condition ∧ (progress.unionNames ++ names).Nodup ∧ ∃ value made,
      outcome emission progress = (.ok value, made) ∧
        made.unionNames = progress.unionNames ++ names) ∨
    (¬ (condition ∧ (progress.unionNames ++ names).Nodup) ∧ ∃ fault made,
      outcome emission progress = (.error fault, made) ∧ kind fault)

section Takes

variable {condition : Prop} {names : List String} {kind : Error → Prop}

theorem Takes.pure (value : α) : Takes True [] kind (pure value : Emission α) := by
  intro progress distinct
  rw [append_nil]
  exact .inl ⟨trivial, distinct, value, progress, rfl, rfl⟩

/-- A check takes nothing. -/
theorem Takes.liftExcept {ended : Except Error α}
    (decides : Outcome.Decides condition kind ended) :
    Takes condition [] kind (liftExcept ended : Emission α) := by
  intro progress distinct
  rw [append_nil]
  rcases decides with ⟨holds, value, rfl⟩ | ⟨fails, fault, rfl, isKind⟩
  · exact .inl ⟨holds, distinct, value, progress, rfl, rfl⟩
  · exact .inr ⟨fun both => fails both.1, fault, progress, rfl, isKind⟩

/-- The condition can be said in another way, and the kind be a wider one. -/
theorem Takes.imp {other : Prop} {wider : Error → Prop}
    (takes : Takes condition names kind emission) (same : condition ↔ other)
    (widen : ∀ fault, kind fault → wider fault) : Takes other names wider emission := by
  intro progress distinct
  rw [← same]
  refine (takes progress distinct).imp_right fun ⟨fails, fault, made, stopped, isKind⟩ => ?_
  exact ⟨fails, fault, made, stopped, widen fault isKind⟩

/-- Two steps need what each of them needs. The names of the second have to be free when those of
the first are used. -/
theorem Takes.bind {second : Prop} {more : List String}
    (takes : Takes condition names kind emission)
    (continues : ∀ value, Takes second more kind (next value)) :
    Takes (condition ∧ second) (names ++ more) kind (emission >>= next) := by
  intro progress distinct
  rw [← append_assoc]
  rcases takes progress distinct with
    ⟨holds, isFree, value, middle, done, uses⟩ | ⟨fails, fault, made, stopped, isKind⟩
  · have continued : outcome (emission >>= next) progress = outcome (next value) middle := by
      rw [outcome_bind, done]
    rw [continued, ← uses]
    rcases continues value middle (uses ▸ isFree) with
      ⟨holdsLater, isFreeLater, made⟩ | ⟨failsLater, made⟩
    · exact .inl ⟨⟨holds, holdsLater⟩, isFreeLater, made⟩
    · exact .inr ⟨fun both => failsLater ⟨both.1.2, both.2⟩, made⟩
  · refine .inr ⟨fun both => fails ⟨both.1.1, (nodup_append.mp both.2).1⟩, fault, made, ?_, isKind⟩
    rw [outcome_bind, stopped]

/-- What is only made of a result needs and takes nothing more. -/
theorem Takes.map (takes : Takes condition names kind emission) (change : α → β) :
    Takes condition names kind (do return change (← emission)) := by
  have changed := takes.bind fun value => Takes.pure (change value)
  rw [append_nil] at changed
  exact changed.imp (and_iff_left trivial) fun _ isKind => isKind

/-- A step over a list needs and takes what it does at all the items. -/
theorem Takes.mapM {needed : α → Prop} {taken : α → List String}
    (each : ∀ item ∈ items, Takes (needed item) (taken item) kind (step item)) :
    Takes (∀ item ∈ items, needed item) (items.flatMap taken) kind (items.mapM step) := by
  induction items with
  | nil => exact (Takes.pure []).imp (by simp) fun _ isKind => isKind
  | cons item rest ih =>
    obtain ⟨here, there⟩ := forall_mem_cons.mp each
    rw [mapM_cons, flatMap_cons]
    have both := here.bind fun result => (ih there).map (result :: ·)
    exact both.imp forall_mem_cons.symm fun _ isKind => isKind

end Takes

end Emission

end SchemaLang.RustBindings
