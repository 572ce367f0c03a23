import SchemaLang.CommandLine.Session
import SchemaLang.Proofs.Files.Changes

/-!
# How runs end

A step of a run is judged by how it ends and by the tree that it leaves; what it says on the way
does not matter. The laws here follow the ways in which steps are put together, and stop at the
first failure as runs do.

Most steps only look at the tree. Such a step ends as a function of the tree says, and it leaves
the tree as it is.
-/

namespace SchemaLang.CommandLine.Run

variable {α β : Type} {before : FileTree}

/-- How a step ends that starts with a tree, whatever was said before. -/
def Does (step : Run α) (before : FileTree) (ends : Except Error α → FileTree → Prop) : Prop :=
  ∀ session : Session, session.tree = before →
    ends (step.run.run session).1 (step.run.run session).2.tree

/-- A step that leaves the tree as it is and ends as an outcome says. -/
def Answers (step : Run α) (tree : FileTree) (outcome : Except Error α) : Prop :=
  step.Does tree fun result after => result = outcome ∧ after = tree

/-- Two steps share one session; a failure of the first is the end. -/
theorem run_bind (first : Run α) (next : α → Run β) (session : Session) :
    (first >>= next).run.run session =
      match first.run.run session with
      | (.error error, after) => (.error error, after)
      | (.ok value, after) => (next value).run.run after := by
  show (first.run.run session |> fun (result, after) =>
    (ExceptT.bindCont next result).run after) = _
  cases first.run.run session with
  | mk result after => cases result <;> rfl

variable {next : α → Run β} {ends : Except Error β → FileTree → Prop}

/-- Two steps: if the first fails the run ends there, and if not the second goes on from the tree
that the first has left. -/
theorem Does.bind {first : Run α} {middle : Except Error α → FileTree → Prop}
    (does : first.Does before middle)
    (fails : ∀ error after, middle (.error error) after → ends (.error error) after)
    (continues : ∀ value after, middle (.ok value) after → (next value).Does after ends) :
    (first >>= next).Does before ends := by
  intro session same
  have firstEnds := does session same
  rw [run_bind]
  cases run : first.run.run session with
  | mk result after =>
    rw [run] at firstEnds
    cases result with
    | error error => exact fails error after.tree firstEnds
    | ok value => exact continues value after.tree firstEnds after rfl

variable {step : Run α}

/-- What is known of an end may be weakened. -/
theorem Does.imp {ends weaker : Except Error α → FileTree → Prop} (does : step.Does before ends)
    (follows : ∀ result after, ends result after → weaker result after) : step.Does before weaker :=
  fun session same => follows _ _ (does session same)

namespace Answers

variable {tree : FileTree} {outcome : Except Error α}

/-- A value alone. -/
theorem pure (tree : FileTree) (value : α) : Answers (Pure.pure value) tree (.ok value) := by
  rintro session rfl
  exact ⟨rfl, rfl⟩

/-- A failure alone. -/
theorem throw (tree : FileTree) (error : Error) :
    Answers (MonadExcept.throw error : Run α) tree (.error error) := by
  rintro session rfl
  exact ⟨rfl, rfl⟩

/-- After a step that only looks, the run goes on with its value and the same tree. -/
theorem andThen (answers : step.Answers tree outcome)
    (fails : ∀ error, outcome = .error error → ends (.error error) tree)
    (continues : ∀ value, outcome = .ok value → (next value).Does tree ends) :
    (step >>= next).Does tree ends := by
  refine Does.bind answers ?_ ?_
  · rintro error _ ⟨stopped, rfl⟩
    exact fails error stopped.symm
  · rintro value _ ⟨done, rfl⟩
    exact continues value done.symm

/-- Two steps that only look. -/
theorem bind {follow : α → Except Error β} (answers : step.Answers tree outcome)
    (continues : ∀ value, (next value).Answers tree (follow value)) :
    (step >>= next).Answers tree (outcome >>= follow) := by
  refine answers.andThen ?_ ?_
  · rintro error rfl
    exact ⟨rfl, rfl⟩
  · rintro value rfl
    exact continues value

/-- An outcome that does not depend on the tree. -/
theorem ofExcept (tree : FileTree) (outcome : Except Error α) :
    Answers (liftExcept outcome) tree outcome := by
  cases outcome with
  | error error => exact throw tree error
  | ok value => exact pure tree value

/-- Looking at the session shows the tree. -/
theorem get (tree : FileTree) :
    (MonadState.get : Run Session).Does tree fun result after =>
      (∃ session : Session, result = .ok session ∧ session.tree = tree) ∧ after = tree := by
  rintro session rfl
  exact ⟨⟨session, rfl, rfl⟩, rfl⟩

/-- A look at the tree ends as a function of it. -/
theorem look (tree : FileTree) (step : FileTree → Except Error α) :
    (Run.look step).Answers tree (step tree) := by
  refine Does.bind (get tree) ?_ ?_
  · rintro error _ ⟨⟨_, impossible, _⟩, _⟩
    cases impossible
  · rintro session _ ⟨⟨_, same, rfl⟩, rfl⟩
    cases same
    exact ofExcept _ _

/-- Reading is a look. -/
theorem readFile (tree : FileTree) (path : Path) :
    (Run.readFile path).Answers tree ((tree.read path).mapError .file) :=
  look tree _

/-- Saying something adds to the session but not to the tree. -/
theorem say (tree : FileTree) (line : String) : (Run.say line).Answers tree (.ok ()) := by
  rintro session rfl
  exact ⟨rfl, rfl⟩

/-- So does noting something. -/
theorem note (tree : FileTree) (line : String) : (Run.note line).Answers tree (.ok ()) := by
  rintro session rfl
  exact ⟨rfl, rfl⟩

/-- By induction on the items. -/
theorem forM {items : List α} {step : α → Run Unit}
    (each : ∀ item, (step item).Answers tree (.ok ())) :
    (items.forM step).Answers tree (.ok ()) := by
  induction items with
  | nil => exact pure tree ()
  | cons item rest ih =>
    exact (each item).bind fun _ => ih

end Answers

/-! ## Steps that change the tree -/

/-- A change is kept even if it ends in a failure. -/
theorem run_advance (step : FileTree → FileTree × Option FileFault) (session : Session) :
    (Run.advance step).run.run session =
      match step session.tree with
      | (tree, none) => (.ok (), { session with tree := tree })
      | (tree, some fault) => (.error (.file fault), { session with tree := tree }) := by
  have looked : (get : Run Session).run.run session = (.ok session, session) := rfl
  rw [Run.advance, run_bind, looked]
  dsimp only
  cases step session.tree with
  | mk tree fault? => cases fault? <;> rfl

/-- A step that changes the tree as far as it gets. -/
theorem Does.advance (tree : FileTree) (step : FileTree → FileTree × Option FileFault) :
    (Run.advance step).Does tree fun result after =>
      (∃ fault, step tree = (after, some fault) ∧ result = .error (.file fault)) ∨
        (step tree = (after, none) ∧ result = .ok ()) := by
  rintro session rfl
  rw [run_advance]
  cases made : step session.tree with
  | mk tree fault? =>
    cases fault? with
    | some fault => exact .inl ⟨fault, rfl, rfl⟩
    | none => exact .inr ⟨rfl, rfl⟩

end SchemaLang.CommandLine.Run
