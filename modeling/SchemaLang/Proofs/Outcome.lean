import Mathlib.Data.List.Forall2

/-!
# Outcomes of steps that may fail

Every stage of a compilation answers `Except`: a value, or the first fault on the way to
it. The laws here take a success apart into the successes of its steps, so that later
proofs follow the steps of a stage and never its encoding.
-/

namespace SchemaLang.Outcome

open List

variable {ε α β σ : Type} {first : Except ε α} {next : α → Except ε β} {result : β}

/-- Two steps succeed exactly when the first does and the second does on its value. -/
theorem bind_ok_iff :
    first >>= next = .ok result ↔ ∃ value, first = .ok value ∧ next value = .ok result := by
  cases first with
  | error _ | ok _ => simp [bind, Except.bind]

/-- Two checks pass exactly when both do. -/
theorem then_ok_iff {first second : Except ε Unit} :
    (first >>= fun _ => second) = .ok () ↔ first = .ok () ∧ second = .ok () := by
  rw [bind_ok_iff]
  constructor
  · rintro ⟨_, passed, others⟩
    exact ⟨passed, others⟩
  · rintro ⟨passed, others⟩
    exact ⟨(), passed, others⟩

variable {change : α → β}

/-- A value that is only changed succeeds exactly when it is there to be changed. -/
theorem map_ok_iff :
    first.map change = .ok result ↔ ∃ value, first = .ok value ∧ change value = result := by
  cases first with
  | error _ | ok _ => simp [Except.map]

/-- Changing the value does not change whether there is one. -/
theorem exists_map_ok_iff :
    (∃ result, first.map change = .ok result) ↔ ∃ value, first = .ok value := by
  cases first with
  | error _ | ok _ => simp [Except.map]

/-- A view of the value is there only if the value is. -/
theorem ok_of_view {view : α → β} (seen : first.toOption.map view = some result) :
    ∃ value, first = .ok value ∧ view value = result := by
  cases first with
  | error fault => cases seen
  | ok value => exact ⟨value, rfl, Option.some.inj seen⟩

/-- A value is there if its presence is. -/
theorem ok_of_isSome (isThere : first.toOption.isSome = true) : ∃ value, first = .ok value := by
  cases first with
  | error fault => cases isThere
  | ok value => exact ⟨value, rfl⟩

variable {step : α → Except ε β} {items : List α}

/-- A step over a list succeeds exactly when it succeeds at every place, with the results
in the same order. -/
theorem mapM_ok_iff {results : List β} :
    items.mapM step = .ok results ↔
      Forall₂ (fun item result => step item = .ok result) items results := by
  induction items generalizing results with
  | nil =>
    cases results with
    | nil | cons _ _ => simp [pure, Except.pure]
  | cons item rest ih =>
    rw [mapM_cons, bind_ok_iff]
    cases results with
    | nil =>
      constructor
      · rintro ⟨value, _, remaining⟩
        obtain ⟨values, _, impossible⟩ := bind_ok_iff.mp remaining
        cases impossible
      · rintro ⟨⟩
    | cons result results =>
      simp only [bind_ok_iff, forall₂_cons, ← ih]
      constructor
      · rintro ⟨value, found, values, others, same⟩
        cases same
        exact ⟨found, others⟩
      · rintro ⟨found, others⟩
        exact ⟨result, found, results, others, rfl⟩

/-- A step that succeeds at every item succeeds over the list. -/
theorem mapM_ok_of_forall (succeeds : ∀ item ∈ items, ∃ result, step item = .ok result) :
    ∃ results, items.mapM step = .ok results := by
  induction items with
  | nil => exact ⟨[], rfl⟩
  | cons item rest ih =>
    obtain ⟨result, here⟩ := succeeds item mem_cons_self
    obtain ⟨results, there⟩ := ih fun other member => succeeds other (mem_cons_of_mem item member)
    exact ⟨result :: results, mapM_ok_iff.mpr (.cons here (mapM_ok_iff.mp there))⟩

/-- A step over two lists, one behind the other, gives the results of both in this order. -/
theorem mapM_append_ok {others : List α} {results more : List β}
    (first : items.mapM step = .ok results) (second : others.mapM step = .ok more) :
    (items ++ others).mapM step = .ok (results ++ more) :=
  mapM_ok_iff.mpr (rel_append (mapM_ok_iff.mp first) (mapM_ok_iff.mp second))

/-- Changing each result where it is made gives the changed results. -/
theorem mapM_map_ok {γ : Type} (change : β → γ) {results : List β}
    (done : items.mapM step = .ok results) :
    items.mapM (fun item => (step item).map change) = .ok (results.map change) := by
  rw [mapM_ok_iff, forall₂_map_right_iff]
  refine (mapM_ok_iff.mp done).imp fun item result stepped => ?_
  rw [stepped]
  rfl

variable {step : σ → α → Except ε σ}

/-- What holds at the start of a fold and is kept by each of its steps holds at its end. -/
theorem foldlM_keeps (kept : σ → Prop) {start final : σ}
    (done : items.foldlM step start = .ok final) (holds : kept start)
    (keeps : ∀ state item next, item ∈ items → step state item = .ok next → kept state → kept
      next) : kept final := by
  induction items generalizing start with
  | nil =>
    cases done
    exact holds
  | cons item rest ih =>
    rw [foldlM_cons] at done
    obtain ⟨next, stepped, remaining⟩ := bind_ok_iff.mp done
    have keepsNext := keeps start item next mem_cons_self stepped holds
    exact ih remaining keepsNext fun state other after member =>
      keeps state other after (mem_cons_of_mem item member)

/-! ## Faults -/

/-- The only faults that a step can end in are of a kind. -/
def FailsOnly (kind : ε → Prop) (outcome : Except ε α) : Prop :=
  ∀ fault, outcome = .error fault → kind fault

section FailsOnly

variable {kind : ε → Prop} {outcome : Except ε α}

theorem FailsOnly.of_ok (done : ∃ value, outcome = .ok value) : FailsOnly kind outcome := by
  rintro fault rfl
  obtain ⟨value, impossible⟩ := done
  cases impossible

theorem FailsOnly.error {fault : ε} (holds : kind fault) :
    FailsOnly kind (.error fault : Except ε α) := by
  rintro _ ⟨⟩
  exact holds

/-- Two steps fail only as each of them does. -/
theorem FailsOnly.bind (first : FailsOnly kind outcome)
    (second : ∀ value, outcome = .ok value → FailsOnly kind (next value)) :
    FailsOnly kind (outcome >>= next) := by
  cases outcome with
  | error fault =>
    rintro _ ⟨⟩
    exact first fault rfl
  | ok value => exact second value rfl

/-- A step over a list fails only as it does at one of the items. -/
theorem FailsOnly.mapM {step : α → Except ε β} {items : List α}
    (each : ∀ item ∈ items, FailsOnly kind (step item)) : FailsOnly kind (items.mapM step) := by
  induction items with
  | nil => exact .of_ok ⟨[], rfl⟩
  | cons item rest ih =>
    rw [mapM_cons]
    refine (each item mem_cons_self).bind fun result _ => ?_
    refine (ih fun other member => ?_).bind fun results _ => .of_ok ⟨_, rfl⟩
    exact each other (mem_cons_of_mem item member)

/-- A fold fails only as one of its steps does. -/
theorem FailsOnly.foldlM (each : ∀ state, ∀ item ∈ items, FailsOnly kind (step state item))
    (start : σ) : FailsOnly kind (items.foldlM step start) := by
  induction items generalizing start with
  | nil => exact .of_ok ⟨start, rfl⟩
  | cons item rest ih =>
    rw [foldlM_cons]
    refine (each start item mem_cons_self).bind fun next _ => ?_
    exact ih (fun state other member =>
      each state other (mem_cons_of_mem item member)) next

/-- A step ends in a value or in a fault of the kind. -/
theorem FailsOnly.ok_or_error (only : FailsOnly kind outcome) :
    (∃ value, outcome = .ok value) ∨ ∃ fault, outcome = .error fault ∧ kind fault := by
  cases outcome with
  | error fault => exact .inr ⟨fault, rfl, only fault rfl⟩
  | ok value => exact .inl ⟨value, rfl⟩

end FailsOnly

/-! ## Checks -/

/-- A step is a check of a condition: it succeeds exactly if the condition holds, and ends in a
fault of a kind if not. -/
def Decides (condition : Prop) (kind : ε → Prop) (outcome : Except ε α) : Prop :=
  (condition ∧ ∃ value, outcome = .ok value) ∨
    (¬ condition ∧ ∃ fault, outcome = .error fault ∧ kind fault)

section Decides

variable {condition : Prop} {kind : ε → Prop} {outcome : Except ε α}

variable (decides : Decides condition kind outcome)
include decides

theorem Decides.ok_iff : (∃ value, outcome = .ok value) ↔ condition := by
  rcases decides with ⟨holds, done⟩ | ⟨fails, fault, stopped, _⟩
  · exact ⟨fun _ => holds, fun _ => done⟩
  · refine ⟨?_, fun holds => absurd holds fails⟩
    rintro ⟨value, done⟩
    rw [stopped] at done
    cases done

theorem Decides.failsOnly : FailsOnly kind outcome := by
  rcases decides with ⟨_, done⟩ | ⟨_, fault, rfl, holds⟩
  · exact .of_ok done
  · exact .error holds

/-- The condition can be said in another way, and the kind be a wider one. -/
theorem Decides.imp {other : Prop} {wider : ε → Prop} (same : condition ↔ other)
    (widen : ∀ fault, kind fault → wider fault) : Decides other wider outcome := by
  rcases decides with ⟨holds, done⟩ | ⟨fails, fault, stopped, isKind⟩
  · exact .inl ⟨same.mp holds, done⟩
  · exact .inr ⟨fun holds => fails (same.mpr holds), fault, stopped, widen fault isKind⟩

/-- Two checks, one after the other, check both conditions. -/
theorem Decides.bind {second : Prop} (continues : ∀ value, Decides second kind (next value)) :
    Decides (condition ∧ second) kind (outcome >>= next) := by
  rcases decides with ⟨holds, value, rfl⟩ | ⟨fails, fault, rfl, isKind⟩
  · exact (continues value).imp ⟨fun later => ⟨holds, later⟩, And.right⟩ fun _ isKind => isKind
  · exact .inr ⟨fun both => fails both.1, fault, rfl, isKind⟩

theorem Decides.map : Decides condition kind (outcome.map change) := by
  rcases decides with ⟨holds, value, rfl⟩ | ⟨fails, fault, rfl, isKind⟩
  · exact .inl ⟨holds, _, rfl⟩
  · exact .inr ⟨fails, fault, rfl, isKind⟩

end Decides

/-! ## Outcomes with a changed value -/

section Mirrors

variable {γ δ : Type}

/-- Two outcomes of which both are faults, or both are values and the second is the changed one. -/
inductive Mirrors (change : α → β) : Except ε α → Except ε β → Prop where
  | value (result : α) : Mirrors change (.ok result) (.ok (change result))
  | fault {one other : ε} : Mirrors change (.error one) (.error other)

namespace Mirrors

variable {change : α → β} {changeLast : γ → δ} {first : Except ε α} {second : Except ε β}

theorem of_eq {result : α} {changed : β} (same : change result = changed) :
    Mirrors change (.ok result : Except ε α) (.ok changed) := by
  rw [← same]
  exact .value result

variable {other : β → Except ε δ} (mirrors : Mirrors change first second)
include mirrors

theorem bind {next : α → Except ε γ}
    (each : ∀ result, first = .ok result → Mirrors changeLast (next result) (other (change
      result))) : Mirrors changeLast (first >>= next) (second >>= other) := by
  cases mirrors with
  | value result => exact each result rfl
  | fault => exact .fault

theorem map {next : α → γ} {other : β → δ}
    (commutes : ∀ result, other (change result) = changeLast (next result)) :
    Mirrors changeLast (first.map next) (second.map other) := by
  cases mirrors with
  | value result => exact .of_eq (commutes result).symm
  | fault => exact .fault

omit mirrors in
/-- A step over a list. -/
theorem mapM (changeItem : α → β) {step : α → Except ε γ}
    (each : ∀ item ∈ items, Mirrors changeLast (step item) (other (changeItem item))) :
    Mirrors (List.map changeLast) (items.mapM step) ((items.map changeItem).mapM other) := by
  induction items with
  | nil => exact .value []
  | cons item rest ih =>
    obtain ⟨here, there⟩ := forall_mem_cons.mp each
    rw [map_cons, mapM_cons, mapM_cons]
    exact here.bind fun result _ => (ih there).bind fun results _ =>
      .value (result :: results)

omit mirrors in
/-- A fold over a list. -/
theorem foldlM {step : α → γ → Except ε α} {other : β → γ → Except ε β} {items : List γ}
    (each : ∀ state item, Mirrors change (step state item) (other (change state) item))
    (start : α) :
    Mirrors change (items.foldlM step start) (items.foldlM other (change start)) := by
  induction items generalizing start with
  | nil => exact .value start
  | cons item rest ih =>
    rw [foldlM_cons, foldlM_cons]
    exact (each start item).bind fun result _ => ih result

theorem ok_iff : (∃ result, first = .ok result) ↔ ∃ result, second = .ok result := by
  cases mirrors with
  | value result => exact ⟨fun _ => ⟨_, rfl⟩, fun _ => ⟨_, rfl⟩⟩
  | fault => simp

theorem ok {result : α} (done : first = .ok result) : second = .ok (change result) := by
  subst done
  cases mirrors
  rfl

end Mirrors

end Mirrors

/-! ## Lists related place by place -/

variable {related : α → β → Prop} {items : List α} {results : List β}

/-- Relations that are the same between the items of two lists relate the lists alike. -/
theorem forall₂_iff_of_mem {other : α → β → Prop}
    (each : ∀ item ∈ items, ∀ result ∈ results, (related item result ↔ other item result)) :
    Forall₂ related items results ↔ Forall₂ other items results := by
  induction items generalizing results with
  | nil => simp
  | cons item items ih =>
    cases results with
    | nil => simp
    | cons result results =>
      rw [forall₂_cons, forall₂_cons, each item mem_cons_self result mem_cons_self,
        ih fun item member result alsoMember =>
          each item (mem_cons_of_mem _ member) result (mem_cons_of_mem _ alsoMember)]

/-- A change of lists that takes different items apart takes different lists apart. -/
theorem eq_of_map_eq {others : List α}
    (apart : ∀ item ∈ items, ∀ other, change item = change other → item = other)
    (same : items.map change = others.map change) : items = others := by
  induction items generalizing others with
  | nil => exact (map_eq_nil_iff.mp same.symm).symm
  | cons item items ih =>
    obtain ⟨here, there⟩ := forall_mem_cons.mp apart
    cases others with
    | nil => cases same
    | cons other others =>
      obtain ⟨head, tail⟩ := cons.inj same
      rw [here other head, ih there tail]

variable (pairwise : Forall₂ related items results)
include pairwise

/-- Every result comes from an item. -/
theorem exists_left (member : result ∈ results) : ∃ item ∈ items, related item result := by
  induction pairwise with
  | nil => cases member
  | @cons item first _ _ here _ ih =>
    rcases mem_cons.mp member with rfl | later
    · exact ⟨item, mem_cons_self, here⟩
    · obtain ⟨other, found, holds⟩ := ih later
      exact ⟨other, mem_cons_of_mem _ found, holds⟩

/-- Every item has a result. -/
theorem exists_right {item : α} (member : item ∈ items) : ∃ result ∈ results, related item result :=
  exists_left pairwise.flip member

/-- What follows for every item follows at every place. -/
theorem forall₂_imp {stronger : α → β → Prop}
    (implies : ∀ item ∈ items, ∀ result, related item result → stronger item result) :
    Forall₂ stronger items results := by
  induction pairwise with
  | nil => exact .nil
  | cons here _ ih =>
    exact .cons (implies _ mem_cons_self _ here)
      (ih fun item member => implies item (mem_cons_of_mem _ member))

/-- The result at the place of an item. -/
theorem getElem?_right {place : Nat} {item : α} (found : items[place]? = some item) :
    ∃ result, results[place]? = some result ∧ related item result := by
  induction pairwise generalizing place with
  | nil => simp at found
  | cons here _ ih =>
    cases place with
    | zero =>
      cases found
      exact ⟨_, rfl, here⟩
    | succ place => exact ih found

/-- Values that agree at every place agree as lists. -/
theorem map_eq_of_forall₂ {γ : Type} {ofItem : α → γ} {ofResult : β → γ}
    (agree : ∀ item result, related item result → ofItem item = ofResult result) :
    items.map ofItem = results.map ofResult := by
  induction pairwise with
  | nil => rfl
  | cons here _ ih =>
    rw [map_cons, map_cons, agree _ _ here, ih]

end SchemaLang.Outcome
