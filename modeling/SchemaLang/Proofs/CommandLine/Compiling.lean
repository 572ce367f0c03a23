import SchemaLang.Proofs.CommandLine.Running

/-!
# Compiling from the command line

A compilation has two parts. The first makes everything and only looks at the tree: it reads the
settings, the modules and the baseline. The second writes what was made: the schema, and then the
bindings for one target after the other, for which it makes their directory.

What fails in the first part leaves the tree as it was. The second part is not undone when it
fails: what was written before stays, and the file that could not be written whole may hold the
beginning of its text.
-/

namespace SchemaLang.CommandLine

open List CompileOptions

/-- The settings in a file, if there is one. -/
def fileSettings (tree : FileTree) : Option Path → Except Error Settings
  | some path => Settings.load tree path
  | none => .ok {}

/-- The settings in a file, with a root that goes before theirs. -/
def settingsIn (tree : FileTree) (settings? root? : Option Path) : Except Error Settings := do
  let settings ← fileSettings tree settings?
  return { settings with projectRoot? := root?.or settings.projectRoot? }

/-- Whether the baseline, if there is one, can be compared with. -/
def checkBaseline (tree : FileTree) : Option Path → Except Error Unit
  | none => .ok ()
  | some path => do
    let text ← (tree.read path).mapError .file
    match Json.read text with
    | .error fault => .error (.configuration path.text (.json fault))
    | .ok _ => .ok ()

namespace CompileOptions

/-- All that is made before anything is written. -/
def prepare (options : CompileOptions) (tree : FileTree) : Except Error Compilation := do
  let settings ← settingsIn tree options.settings? options.root?
  let targets ← addTargets settings.targets options.targets
  let compilation ← Compilation.ofFile tree { settings with targets := targets } options.source
  checkBaseline tree options.baseline?
  return compilation

/-- The path of the schema. -/
def output (options : CompileOptions) (tree : FileTree) : Path :=
  options.output?.getD (defaultOutput tree options.source)

/-- The path of the directory for bindings. -/
def directory (options : CompileOptions) (tree : FileTree) : Path :=
  options.outputDirectory?.getD ((options.output tree).parent?.getD ⟨""⟩)

/-- The path of the bindings for a target. -/
def bindingsPath (options : CompileOptions) (tree : FileTree) (target : Target) : Path :=
  (options.directory tree).join ⟨bindingsStem (options.output tree) ++ "." ++ target.extension⟩

/-- The texts of bindings and their paths. -/
def bindingsTexts (options : CompileOptions) (tree : FileTree)
    (bindings : List (Target × String)) : List (Path × String) :=
  bindings.map fun binding => (options.bindingsPath tree binding.1, binding.2)

/-- The texts that are written and their paths: the schema, and then the bindings. -/
def artifacts (options : CompileOptions) (tree : FileTree) (compilation : Compilation) :
    List (Path × String) :=
  (options.output tree, compilation.schema.indented) ::
    options.bindingsTexts tree compilation.bindings

end CompileOptions

/-! ## The part that only looks -/

open Run

/-- A root on the command line goes before the one in the settings. -/
theorem loadSettings_answers (tree : FileTree) (settings? root? : Option Path) :
    (loadSettings settings? root?).Answers tree (settingsIn tree settings? root?) := by
  have rooted (settings : Settings) : (match root? with
      | some root => pure { settings with projectRoot? := some root }
      | none => pure settings : Run Settings).Answers tree
        (.ok { settings with projectRoot? := root?.or settings.projectRoot? }) := by
    cases root? with
    | none => exact .pure tree settings
    | some root => exact .pure tree _
  unfold loadSettings
  cases settings? with
  | none => exact (Answers.pure tree _).bind rooted
  | some path => exact (Answers.look tree _).bind rooted

/-- Notes about the differences leave the tree alone. -/
theorem reportBaseline_answers (tree : FileTree) (schema : Json) (path : Path) :
    (reportBaseline schema path).Answers tree (checkBaseline tree (some path)) := by
  refine (Answers.readFile tree path).bind fun text => ?_
  have notes (names : List String) (line : String → String) :
      (names.forM fun name => note (line name)).Answers tree (.ok ()) :=
    .forM fun name => .note tree (line name)
  cases Json.read text with
  | error fault => exact .throw tree _
  | ok baseline => exact (notes _ _).bind fun _ => (notes _ _).bind fun _ => notes _ _

/-! ## The part that writes -/

/-- Texts as what files hold. -/
def wholeTexts (texts : List (Path × String)) : List (Path × FileContent) :=
  texts.map fun written => (written.1, .text written.2)

/-- Texts written one after the other. -/
theorem wholeTexts_append (texts others : List (Path × String)) :
    wholeTexts (texts ++ others) = wholeTexts texts ++ wholeTexts others := map_append

/-- How writing texts to paths ends: all of them are written, or those before the first that
cannot be written. -/
inductive WritingEnds (storage : Storage) (texts : List (Path × String)) (before : FileTree) :
    Except Error Unit → FileTree → Prop
  | whole {after : FileTree} (written : storage.Writes before (wholeTexts texts) after) :
      WritingEnds storage texts before (.ok ()) after
  | part {middle after : FileTree} {done rest : List (Path × String)} {failing : Path × String}
      {fault : FileFault} (split : texts = done ++ failing :: rest)
      (written : storage.Writes before (wholeTexts done) middle)
      (fails : storage.write middle failing.1 failing.2 = (after, some fault)) :
      WritingEnds storage texts before (.error (.file fault)) after

variable {storage : Storage} {texts : List (Path × String)} {before : FileTree}

/-- What ends so after something was written before. -/
theorem WritingEnds.after {earlier : List (Path × String)} {middle after : FileTree}
    {result : Except Error Unit} (ends : WritingEnds storage texts middle result after)
    (written : storage.Writes before (wholeTexts earlier) middle) :
    WritingEnds storage (earlier ++ texts) before result after := by
  cases ends with
  | whole later => exact .whole (wholeTexts_append _ _ ▸ written.trans later)
  | @part _ _ done rest failing fault split later fails =>
    exact .part (by rw [split, append_assoc]) (wholeTexts_append _ _ ▸ written.trans later) fails

/-- What stops early stops there whatever was to come. -/
theorem WritingEnds.more {after : FileTree} {error : Error}
    (ends : WritingEnds storage texts before (.error error) after)
    (later : List (Path × String)) :
    WritingEnds storage (texts ++ later) before (.error error) after := by
  cases ends with
  | @part _ _ done rest failing fault split written fails =>
    have longer : texts ++ later = done ++ failing :: (rest ++ later) := by
      rw [split, append_assoc, cons_append]
    exact .part longer written fails

/-- Writing one text is all or nothing only when it ends well. -/
theorem write_ends (path : Path) (text : String) :
    (advance fun tree => storage.write tree path text).Does before
      (WritingEnds storage [(path, text)] before) := by
  refine (Does.advance before _).imp ?_
  rintro _ after (⟨fault, fails, rfl⟩ | ⟨written, rfl⟩)
  · have alone : [(path, text)] = [] ++ (path, text) :: [] := rfl
    exact .part alone (.refl storage before) fails
  · rcases storage.write_cases before path text with
      ⟨_, failed⟩ | ⟨_, _, _, _, failed, _⟩ | ⟨_, done, writes⟩
    · rw [failed] at written
      cases written
    · rw [failed] at written
      cases written
    · rw [done] at written
      cases written
      exact .whole writes

/-- Bindings are written one after the other, up to the first that cannot be written. -/
theorem writeBindings_does (storage : Storage) (options : CompileOptions) (start tree : FileTree)
    (bindings : List (Target × String)) :
    (bindings.forM fun (target, text) => writeBindings storage (options.directory start)
      (bindingsStem (options.output start)) target text).Does tree
        (WritingEnds storage (options.bindingsTexts start bindings) tree) := by
  induction bindings generalizing tree with
  | nil =>
    refine (Answers.pure tree ()).imp ?_
    rintro _ after ⟨rfl, rfl⟩
    exact .whole (.refl storage after)
  | cons first rest ih =>
    have one : (writeBindings storage (options.directory start)
        (bindingsStem (options.output start)) first.1 first.2).Does tree
          (WritingEnds storage [(options.bindingsPath start first.1, first.2)] tree) := by
      refine Does.bind (write_ends _ _) (fun error after ends => ends) fun _ after ends => ?_
      refine (Answers.say after _).imp ?_
      rintro _ _ ⟨rfl, rfl⟩
      exact ends
    refine Does.bind one ?_ ?_
    · exact fun error after ends => ends.more _
    · rintro _ after (written | _)
      exact (ih after).imp fun result final ends => ends.after written

/-- How a compilation ends. -/
inductive CompileEnds (storage : Storage) (options : CompileOptions) (before : FileTree) :
    Except Error Unit → FileTree → Prop
  /-- Something cannot be made. -/
  | refused {error : Error} (unprepared : options.prepare before = .error error) :
      CompileEnds storage options before (.error error) before
  /-- Something cannot be written, or the directory for bindings cannot be made. -/
  | stopped {compilation : Compilation} {done rest : List (Path × String)}
      {failing : Path × String} {fault : FileFault} {middle after : FileTree}
      (prepared : options.prepare before = .ok compilation)
      (split : options.artifacts before compilation = done ++ failing :: rest)
      (written : storage.Writes before (wholeTexts done) middle)
      (fails : storage.write middle failing.1 failing.2 = (after, some fault) ∨
        done = [(options.output before, compilation.schema.indented)] ∧
          middle.makeDirectories (options.directory before) = (after, some fault)) :
      CompileEnds storage options before (.error (.file fault)) after
  /-- All is written. -/
  | finished {compilation : Compilation} {after : FileTree}
      (prepared : options.prepare before = .ok compilation)
      (written : storage.Writes before
        (wholeTexts (options.artifacts before compilation)) after) :
      CompileEnds storage options before (.ok ()) after

variable {options : CompileOptions} {compilation : Compilation}

/-- What ends so in writing the artifacts. -/
theorem WritingEnds.compileEnds {result : Except Error Unit} {after : FileTree}
    (prepared : options.prepare before = .ok compilation)
    (ends : WritingEnds storage (options.artifacts before compilation) before result after) :
    CompileEnds storage options before result after := by
  cases ends with
  | whole written => exact .finished prepared written
  | part split written fails => exact .stopped prepared split written (.inl fails)

/-- The schema comes first, and the bindings follow in their order. -/
theorem writeArtifacts_does (prepared : options.prepare before = .ok compilation) :
    (writeArtifacts storage options.source (options.output before) (options.directory before)
      compilation).Does before (CompileEnds storage options before) := by
  unfold writeArtifacts
  refine Does.bind (write_ends _ _) (fun error after ends => ?_) ?_
  · exact (ends.more (options.bindingsTexts before compilation.bindings)).compileEnds prepared
  rintro _ middle (written | _)
  -- With or without new directories, the schema is all that is written so far.
  have continues (tree : FileTree) (made : storage.Writes middle [] tree) :
      (compilation.bindings.forM fun (target, text) => writeBindings storage
        (options.directory before) (bindingsStem (options.output before)) target text).Does tree
          (CompileEnds storage options before) := by
    have begun := written.trans made
    rw [append_nil] at begun
    refine (writeBindings_does storage options before tree _).imp fun result after ends => ?_
    exact (ends.after begun).compileEnds prepared
  refine (Answers.say middle _).andThen ?_ fun _ _ => ?_
  · intro error impossible
    cases impossible
  split
  · rename_i wanted
    obtain ⟨failing, rest, all⟩ : ∃ failing rest, options.artifacts before compilation =
        [(options.output before, compilation.schema.indented)] ++ failing :: rest := by
      unfold artifacts bindingsTexts
      cases listed : compilation.bindings with
      | nil => simp [listed] at wanted
      | cons first others => exact ⟨_, _, rfl⟩
    refine Does.bind (Does.advance middle _) ?_ ?_
    · rintro error after (⟨fault, fails, same⟩ | ⟨_, impossible⟩)
      · cases same
        exact .stopped prepared all written (.inr ⟨rfl, fails⟩)
      · cases impossible
    · rintro _ after (⟨_, _, impossible⟩ | ⟨made, _⟩)
      · cases impossible
      · have nothing := storage.makeDirectories_writes middle (options.directory before)
        rw [made] at nothing
        exact continues after nothing
  · exact continues middle (.refl storage middle)

/-- A compilation ends in one of these ways. -/
theorem runCompile_does (storage : Storage) (options : CompileOptions) (before : FileTree) :
    (runCompile storage options).Does before (CompileEnds storage options before) := by
  -- All steps before the writing only look, so they fail exactly as `prepare` does.
  unfold runCompile
  refine (loadSettings_answers before _ _).andThen ?_ ?_
  · intro error unloaded
    exact .refused (by simp [prepare, unloaded, bind, Except.bind])
  intro settings loaded
  refine (Answers.ofExcept before _).andThen ?_ ?_
  · intro error unknown
    exact .refused (by simp [prepare, loaded, unknown, bind, Except.bind])
  intro targets known
  refine Does.bind (Answers.get before) ?_ ?_
  · rintro error _ ⟨⟨_, impossible, _⟩, _⟩
    cases impossible
  rintro session _ ⟨⟨_, same, rfl⟩, rfl⟩
  cases same
  refine (Answers.look _ _).andThen ?_ ?_
  · intro error uncompiled
    exact .refused (by
      simp [prepare, loaded, known, uncompiled, bind, Except.bind])
  intro compilation compiled
  have checked : options.prepare session.tree =
      (checkBaseline session.tree options.baseline? >>= fun _ => .ok compilation) := by
    simp [prepare, loaded, known, compiled, bind, Except.bind, pure, Except.pure]
  cases given : options.baseline? with
  | none =>
    rw [given] at checked
    exact writeArtifacts_does checked
  | some path =>
    rw [given] at checked
    refine (reportBaseline_answers session.tree _ path).andThen ?_ ?_
    · intro error incomparable
      rw [incomparable] at checked
      exact .refused checked
    · intro _ comparable
      rw [comparable] at checked
      exact writeArtifacts_does checked

/-- The command fails exactly as the compilation does, and leaves the tree that it leaves. -/
theorem run_compile (storage : Storage) (before : FileTree) (options : CompileOptions) :
    (∃ error, (runOn storage before (.compile options)).failure? = some error ∧
      (runOn storage before (.compile options)).status = 1 ∧
      CompileEnds storage options before (.error error)
        (runOn storage before (.compile options)).tree) ∨
    ((runOn storage before (.compile options)).failure? = none ∧
      (runOn storage before (.compile options)).status = 0 ∧
      CompileEnds storage options before (.ok ())
        (runOn storage before (.compile options)).tree) := by
  have ends := runCompile_does storage options before { tree := before } rfl
  unfold runOn
  rw [runCommand, run_bind]
  cases run : (runCompile storage options).run.run { tree := before } with
  | mk result session =>
    rw [run] at ends
    cases result with
    | error error => exact .inl ⟨error, rfl, rfl, ends⟩
    | ok value => exact .inr ⟨rfl, rfl, ends⟩

/-- What is left of a text that could not be written: all is as before, or its file holds a
beginning of it and no other file is changed. -/
def LeavesPart (storage : Storage) (before : FileTree) (failing : Path × String)
    (after : FileTree) : Prop :=
  after = before ∨ ∃ beginning, beginning <+: FileContent.bytesOf failing.2 ∧
    beginning ≠ FileContent.bytesOf failing.2 ∧
    storage.Writes before [(failing.1, .ofBytes beginning)] after

/-- A write that fails has not opened the file, or it has put the beginning of the text into
it. -/
theorem leavesPart_of_write {failing : Path × String} {after : FileTree} {fault : FileFault}
    (fails : storage.write before failing.1 failing.2 = (after, some fault)) :
    LeavesPart storage before failing after := by
  rcases storage.write_cases before failing.1 failing.2 with
    ⟨_, failed⟩ | ⟨beginning, _, isBeginning, isPart, failed, writes⟩ | ⟨_, done, _⟩
  · rw [failed] at fails
    cases fails
    exact .inl rfl
  · rw [failed] at fails
    cases fails
    exact .inr ⟨beginning, isBeginning, isPart, writes⟩
  · rw [done] at fails
    cases fails

/-- What a compilation that fails has changed. Nothing, if something could not be made. If not,
then the failure is that of writing an artifact or of making the directory for bindings: the
artifacts before are written whole, the file of the failing one is as before or holds a beginning
of its text, and no other file is changed. -/
theorem failed_compile_changes {storage : Storage} {before : FileTree} {options : CompileOptions}
    {error : Error} (failed : (runOn storage before (.compile options)).failure? = some error) :
    ((runOn storage before (.compile options)).tree = before ∧
      options.prepare before = .error error) ∨
    ∃ compilation done failing rest fault middle, options.prepare before = .ok compilation ∧
      error = .file fault ∧
      options.artifacts before compilation = done ++ failing :: rest ∧
      storage.Writes before (wholeTexts done) middle ∧
      ((storage.write middle failing.1 failing.2 =
          ((runOn storage before (.compile options)).tree, some fault) ∧
        LeavesPart storage middle failing (runOn storage before (.compile options)).tree) ∨
      (done = [(options.output before, compilation.schema.indented)] ∧
        middle.makeDirectories (options.directory before) =
          ((runOn storage before (.compile options)).tree, some fault) ∧
        storage.Writes middle [] (runOn storage before (.compile options)).tree)) := by
  rcases run_compile storage before options with ⟨actual, same, _, ends⟩ | ⟨succeeded, _, _⟩
  · obtain rfl : actual = error := Option.some.inj (same.symm.trans failed)
    generalize (runOn storage before (.compile options)).tree = after at ends
    cases ends with
    | refused unprepared => exact .inl ⟨rfl, unprepared⟩
    | @stopped _ _ _ _ _ middle _ prepared split written fails =>
      refine .inr ⟨_, _, _, _, _, middle, prepared, rfl, split, written, ?_⟩
      refine fails.imp (fun fails => ⟨fails, leavesPart_of_write fails⟩) ?_
      rintro ⟨alone, fails⟩
      have nothing := storage.makeDirectories_writes middle (options.directory before)
      rw [fails] at nothing
      exact ⟨alone, fails, nothing⟩
  · rw [succeeded] at failed
    cases failed

/-- A module and nothing else. -/
def oneModule : FileTree where
  nodes := [(["a.sdl"], .file (.text "entry E \x7b a: string \x7d"))]
  workingDirectory := []

/-- A storage that takes ten bytes of the last bindings. -/
def nearlyFull : Storage where
  room := [(["a.ts"], 10)]

/-- Options that ask for bindings for both targets. -/
def bothTargets : CompileOptions where
  source := ⟨"a.sdl"⟩
  targets := ["rust", "ts"]

/-- Here the schema and the first bindings are written, and the second ones only in part. -/
theorem nearlyFull_changes :
    (runOn nearlyFull oneModule (.compile bothTargets)).failure? = some (.file .noSpace) ∧
      ∃ compilation done failing rest middle, bothTargets.prepare oneModule = .ok compilation ∧
        bothTargets.artifacts oneModule compilation = done ++ failing :: rest ∧
        nearlyFull.Writes oneModule (wholeTexts done) middle ∧
        (LeavesPart nearlyFull middle failing
            (runOn nearlyFull oneModule (.compile bothTargets)).tree ∨
          nearlyFull.Writes middle []
            (runOn nearlyFull oneModule (.compile bothTargets)).tree) := by
  have failed : (runOn nearlyFull oneModule (.compile bothTargets)).failure? =
      some (.file .noSpace) := by
    decide +kernel
  refine ⟨failed, ?_⟩
  rcases failed_compile_changes failed with ⟨unchanged, _⟩ |
    ⟨compilation, done, failing, rest, _, middle, prepared, _, split, written, ends⟩
  · exact absurd (congrArg (·.nodes.length) unchanged) (by decide +kernel)
  · refine ⟨compilation, done, failing, rest, middle, prepared, split, written, ?_⟩
    exact ends.imp (·.2) (·.2.2)

/-- A compilation that fails may have made files: here the directory for bindings cannot be made,
since the module has its name. -/
theorem failed_compile_may_make_files :
    ∃ tree options error place, (run tree (.compile options)).failure? = some error ∧
      tree.file? place = none ∧ (run tree (.compile options)).tree.file? place ≠ none := by
  refine ⟨oneModule,
    { source := ⟨"a.sdl"⟩, targets := ["rust"], outputDirectory? := some ⟨"a.sdl"⟩ },
    .file .alreadyExists, ["a.schema.json"], ?_⟩
  decide +kernel

end SchemaLang.CommandLine
