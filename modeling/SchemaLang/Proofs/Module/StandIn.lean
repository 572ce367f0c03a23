import SchemaLang.Proofs.Files.Siblings
import SchemaLang.Proofs.Module.Relabelling
import SchemaLang.Proofs.Module.Returns

/-!
# A text in place of a file

A text can be compiled as if it lay in a directory under a name that nothing there has. If it is
the text of a file of that directory, then following its imports goes along with following those
of the file: both walks locate the same modules, read them alike and skip the same ones. The
closure of the file `Mirrors` that of the text, with the file in front.

The walks part where an import comes back to the file. The walk of the file stops there, and that
of the text, which has not met the file before, enters it and follows its imports once more. These
are its own imports. Those that it has been through are all resolvable, so nothing but a cycle can
stop it at them, and the next one leads to a module on the chain. So both walks end in a cycle.
-/

namespace SchemaLang

open List Closure ImportContext SchemaLang.Path

/-! ## Walks in step -/

/-- A text is put into the directory of a file, at a path where nothing can be found. -/
structure StandIn (context : ImportContext) (file stand : Path) (own : List Declaration) :
    Prop where
  fileTrue : file.IsTrue
  standTrue : stand.IsTrue
  apart : stand.alike file = false
  readable : context.readModule file = .ok own
  nowhere : ∀ importer item, importer.IsTrue → context.locateImport importer item ≠ .ok stand
  sameDirectory : ∀ path, context.candidate file path = context.candidate stand path

/-- The closure of a file holds what the closure of its text holds, and the file in front. -/
structure Closure.Mirrors (real shadow : Closure) (file stand : Path) (own : List Declaration) :
    Prop where
  loaded : real.loaded = (file, own) :: shadow.loaded
  visited : ∃ later, real.visited = (file, none) :: later ∧
    shadow.visited = (stand, none) :: later ∧ ∀ pair ∈ later, pair.1.alike file = false
  declarations : real.declarations.map (ScopedDeclaration.relabel .unplaced) =
    shadow.declarations.map (ScopedDeclaration.relabel .unplaced)

variable {ctx : ImportContext} {file stand : Path} {own : List Declaration}

namespace Closure.Mirrors

variable {real shadow : Closure}

/-- The file is the first module of the closure, and the stand-in is none. -/
theorem modules (mirrors : real.Mirrors shadow file stand own) :
    real.modules = file :: shadow.modules := by
  rw [Closure.modules, mirrors.loaded]
  rfl

/-- All that is known of the file is what it holds. -/
theorem faithful (standIn : StandIn ctx file stand own)
    (mirrors : real.Mirrors shadow file stand own) (shadowFaithful : shadow.Faithful ctx) :
    real.Faithful ctx := by
  intro entry member
  rw [mirrors.loaded] at member
  rcases mem_cons.mp member with rfl | earlier
  · exact ⟨standIn.fileTrue, standIn.readable⟩
  · exact shadowFaithful entry earlier

variable {target : Path} (mirrors : real.Mirrors shadow file stand own)
include mirrors

/-- Both closures have visited the same modules, but for their roots. -/
theorem hasVisited (notFile : file.alike target = false) (notStand : stand.alike target = false)
    (scope? : Option String) : real.hasVisited target scope? = shadow.hasVisited target scope? := by
  obtain ⟨later, realVisited, shadowVisited, _⟩ := mirrors.visited
  simp [Closure.hasVisited, realVisited, shadowVisited, notFile, notStand]

omit mirrors in
/-- The closure of the text has not visited the file. -/
theorem file_unvisited (standIn : StandIn ctx file stand own)
    (mirrors : real.Mirrors shadow file stand own) (scope? : Option String) :
    shadow.hasVisited file scope? = false := by
  obtain ⟨later, _, shadowVisited, others⟩ := mirrors.visited
  have laterUnvisited : ∀ pair ∈ later, ¬ (pair.1.alike file && pair.2 = scope?) = true := by
    intro pair member
    simp [others pair member]
  unfold Closure.hasVisited
  rw [shadowVisited, any_eq_false]
  intro pair member
  rcases mem_cons.mp member with rfl | among
  · simp [standIn.apart]
  · exact laterUnvisited pair among

/-- A module other than the file is remembered on both sides. -/
theorem remember (notFile : target ≠ file) (imported : List Declaration) :
    (real.remember target imported).Mirrors (shadow.remember target imported) file stand own := by
  have sameKnown : target ∈ real.modules ↔ target ∈ shadow.modules := by
    rw [mirrors.modules, mem_cons]
    exact or_iff_right notFile
  constructor
  case loaded =>
    unfold Closure.remember
    by_cases known : target ∈ shadow.modules
    · rw [if_pos known, if_pos (sameKnown.mpr known)]
      exact mirrors.loaded
    · rw [if_neg known, if_neg (mt sameKnown.mp known), mirrors.loaded]
      rfl
  case visited =>
    rw [remember_visited, remember_visited]
    exact mirrors.visited
  case declarations =>
    rw [remember_declarations, remember_declarations]
    exact mirrors.declarations

/-- Away from the file, both sides contribute the same. -/
theorem contribute (notFile : target.alike file = false) (scope? : Option String)
    (imported : List Declaration) :
    (real.contribute target scope? imported).Mirrors (shadow.contribute target scope? imported)
      file stand own := by
  obtain ⟨later, realVisited, shadowVisited, others⟩ := mirrors.visited
  constructor
  case loaded => exact mirrors.loaded
  case visited =>
    refine ⟨later ++ [(target, scope?)], ?_, ?_, fun pair member => ?_⟩
    · rw [contribute_visited, realVisited, cons_append]
    · rw [contribute_visited, shadowVisited, cons_append]
    · rcases mem_append.mp member with earlier | last
      · exact others pair earlier
      · rw [mem_singleton.mp last]
        exact notFile
  case declarations =>
    have sameUnit : real.visited.length = shadow.visited.length := by
      rw [realVisited, shadowVisited]
      rfl
    unfold Closure.contribute
    rw [map_append, map_append, mirrors.declarations, sameUnit]

end Closure.Mirrors

/-- Both walks end in closures that mirror each other, or in errors of the same kind. -/
inductive Closure.Agree (file stand : Path) (own : List Declaration) :
    Except Error Closure → Except Error Closure → Prop where
  | value {real shadow} (mirrors : Closure.Mirrors real shadow file stand own) :
      Agree file stand own (.ok real) (.ok shadow)
  | fault {one two : Error} (sameKind : one.kind = two.kind) :
      Agree file stand own (.error one) (.error two)

/-- Both walks locate the same module, or none. -/
inductive StandIn.LocatesAlike (stand : Path) : Except Error Path → Except Error Path → Prop where
  | missing {one two : Error} (sameKind : one.kind = two.kind) :
      LocatesAlike stand (.error one) (.error two)
  | found {target : Path} (isTrue : target.IsTrue) (elsewhere : target ≠ stand) :
      LocatesAlike stand (.ok target) (.ok target)

variable {target : Path} {one : Except Error Path}

/-- An import that is located is located at the same place. -/
theorem StandIn.LocatesAlike.located {stand : Path} (alike : LocatesAlike stand one (.ok target)) :
    one = .ok target := by
  cases alike
  rfl

/-- The steps of both walks, at the file or anywhere else. -/
inductive StandIn.StepsAlike (context : ImportContext) (file stand : Path)
    (own : List Declaration) : ImportStep → ImportStep → Prop where
  | stop {one two : Error} (sameKind : one.kind = two.kind) :
      StepsAlike context file stand own (.stop one) (.stop two)
  | back {cycle : List String} {shadow : Closure} (faithful : shadow.Faithful context) :
      StepsAlike context file stand own (.stop (.circularImport cycle)) (.enter file own shadow)
  | skip {real shadow : Closure} (mirrors : real.Mirrors shadow file stand own)
      (faithful : shadow.Faithful context) :
      StepsAlike context file stand own (.skip real) (.skip shadow)
  | enter {target : Path} {imported : List Declaration} {real shadow : Closure}
      (isTrue : target.IsTrue) (notFile : target.alike file = false)
      (mirrors : real.Mirrors shadow file stand own) (faithful : shadow.Faithful context) :
      StepsAlike context file stand own (.enter target imported real)
        (.enter target imported shadow)

variable {step : ImportStep} {rest : List Path} {importer path : Path} {item : Import}

namespace StandIn

/-- The walks stop together, perhaps with faults that name other files. -/
theorem StepsAlike.of_stop {fault : Error}
    (alike : StepsAlike ctx file stand own step (.stop fault)) :
    ∃ other, step = .stop other ∧ other.kind = fault.kind := by
  cases alike with
  | stop sameKind => exact ⟨_, rfl, sameKind⟩

variable {shadow : Closure}

/-- They skip an import together. -/
theorem StepsAlike.of_skip (alike : StepsAlike ctx file stand own step (.skip shadow)) :
    ∃ real, step = .skip real ∧ real.Mirrors shadow file stand own ∧ shadow.Faithful ctx := by
  cases alike with
  | skip mirrors faithful => exact ⟨_, rfl, mirrors, faithful⟩

/-- Whoever enters the file on a chain through a module ends in a cycle. -/
def ComesBack (context : ImportContext) (file : Path) (own : List Declaration) (first : Path) :
    Prop :=
  ∀ chain scope? closure outcome, first ∈ chain →
    context.Walk chain file scope? (importsOf own) closure outcome → closure.Faithful context →
    ∃ cycle, outcome = .error (.circularImport cycle)

variable {outcome : Except Error Closure} {first : Path}

/-- If the walk of the text enters a module, then either this is the file, where the walk of the
file stops, and both end in a cycle; or the walk of the file enters the module as well. -/
theorem StepsAlike.of_enter {imported : List Declaration} {chain : List Path}
    {scope? : Option String}
    (alike : StepsAlike ctx file stand own step (.enter target imported shadow))
    (back : ComesBack ctx file own first) (through : first ∈ chain)
    (inner : ctx.Walk chain target scope? (importsOf imported)
      (shadow.contribute target scope? imported) outcome) :
    (∃ cycle again, step = .stop (.circularImport cycle) ∧
      outcome = .error (.circularImport again)) ∨
    ∃ real, step = .enter target imported real ∧ target.IsTrue ∧ target.alike file = false ∧
      real.Mirrors shadow file stand own ∧ shadow.Faithful ctx := by
  cases alike with
  | back faithful =>
    obtain ⟨again, ends⟩ := back _ _ _ _ through inner faithful
    exact .inl ⟨_, again, rfl, ends⟩
  | enter isTrue notFile mirrors faithful =>
    exact .inr ⟨_, rfl, isTrue, notFile, mirrors, faithful⟩

variable {real : Closure}

section

variable (standIn : StandIn ctx file stand own)
include standIn

/-- What both walks locate they step to alike. -/
theorem stepTo_alike (restApart : ∀ other ∈ rest, other.alike file = false)
    (scope? : Option String) (mirrors : real.Mirrors shadow file stand own)
    (faithful : shadow.Faithful ctx) {two : Except Error Path}
    (located : LocatesAlike stand one two) :
    StepsAlike ctx file stand own (ctx.stepTo (file :: rest) scope? real one)
      (ctx.stepTo (stand :: rest) scope? shadow two) := by
  cases located with
  | missing sameKind => exact .stop sameKind
  | @found target isTrue elsewhere =>
    have notStand : stand.alike target = false := by
      rw [← Bool.not_eq_true, standIn.standTrue.alike_iff isTrue]
      exact Ne.symm elsewhere
    unfold stepTo
    dsimp only
    rw [any_cons, any_cons, notStand, Bool.false_or]
    by_cases isFile : target = file
    · subst isFile
      have unmet : rest.any (fun other => other.alike target) = false := by
        rw [any_eq_false]
        intro other member
        simp [restApart other member]
      rw [alike_refl, Bool.true_or, if_pos rfl, unmet, if_neg Bool.false_ne_true,
        load_eq faithful isTrue, standIn.readable]
      have entered : ImportStep.ofLoaded target scope?
          (.ok (own, shadow.remember target own)) =
            .enter target own (shadow.remember target own) := by
        rw [ImportStep.ofLoaded, remember_hasVisited, mirrors.file_unvisited standIn,
          if_neg Bool.false_ne_true]
      exact entered ▸ .back (faithful.remember isTrue standIn.readable)
    · have notFile : file.alike target = false := by
        rw [← Bool.not_eq_true, standIn.fileTrue.alike_iff isTrue]
        exact Ne.symm isFile
      rw [notFile, Bool.false_or]
      by_cases met : rest.any (fun other => other.alike target) = true
      · rw [if_pos met, if_pos met]
        exact .stop rfl
      · rw [if_neg met, if_neg met, load_eq faithful isTrue,
          load_eq (mirrors.faithful standIn faithful) isTrue]
        cases readable : ctx.readModule target with
        | error fault => exact .stop rfl
        | ok imported =>
          have remembered := mirrors.remember isFile imported
          have stillFaithful := faithful.remember isTrue readable
          have sameVisited := mirrors.hasVisited notFile notStand scope?
          show StepsAlike ctx file stand own (if _ then _ else _) (if _ then _ else _)
          rw [remember_hasVisited, remember_hasVisited, sameVisited]
          by_cases visited : shadow.hasVisited target scope? = true
          · rw [if_pos visited, if_pos visited]
            exact .skip remembered stillFaithful
          · rw [if_neg visited, if_neg visited]
            rw [alike_comm] at notFile
            exact .enter isTrue notFile remembered stillFaithful

/-- Below the roots both walks locate the same modules. -/
theorem locates_below (wellFormed : ctx.tree.WellFormed) (isTrue : importer.IsTrue)
    (item : Import) :
    LocatesAlike stand (ctx.locateImport importer item)
      (ctx.locateImport importer item) := by
  cases located : ctx.locateImport importer item with
  | error fault => exact .missing rfl
  | ok target =>
    refine .found (locateImport_isTrue wellFormed located) ?_
    rintro rfl
    exact standIn.nowhere importer item isTrue located

/-- Below the root both walks import from the same file, so only the chains differ. -/
theorem step_below (wellFormed : ctx.tree.WellFormed) (isTrue : path.IsTrue)
    (restApart : ∀ other ∈ rest, other.alike file = false) (scope? : Option String)
    (mirrors : real.Mirrors shadow file stand own) (faithful : shadow.Faithful ctx)
    (item : Import) :
    StepsAlike ctx file stand own (ctx.step (file :: rest) path scope? real item)
      (ctx.step (stand :: rest) path scope? shadow item) :=
  standIn.stepTo_alike restApart _ mirrors faithful (standIn.locates_below wellFormed isTrue item)

end

/-- The chain stays away from the file as it grows. -/
theorem apart_concat (restApart : ∀ other ∈ rest, other.alike file = false)
    (notFile : target.alike file = false) :
    ∀ other ∈ rest ++ [target], other.alike file = false := by
  intro other member
  rcases mem_append.mp member with earlier | last
  · exact restApart other earlier
  · rw [mem_singleton.mp last]
    exact notFile

variable {other : Import}

section

variable (standIn : StandIn ctx file stand own)
include standIn

variable (wellFormed : ctx.tree.WellFormed)
include wellFormed

variable (sameItem : item.relabel .unplaced = other.relabel .unplaced)
include sameItem

/-- The imports of the file and of the text are located alike. -/
theorem locates_at_root :
    LocatesAlike stand (ctx.locateImport file item) (ctx.locateImport stand other) := by
  have samePath : ctx.locateImport file other = ctx.locateImport stand other := by
    unfold locateImport
    rw [standIn.sameDirectory]
  rw [← samePath]
  rcases Relabelling.outcome_eq_iff.mp (ctx.locateImport_relabel file sameItem) with
    ⟨target, again, located, otherLocated, sameTarget⟩ | ⟨one, two, fails, otherFails, same⟩
  · obtain rfl : target = again := sameTarget
    rw [located, otherLocated, ← located]
    exact standIn.locates_below wellFormed standIn.fileTrue item
  · rw [fails, otherFails]
    exact .missing (Error.kind_eq_of_relabel same)

/-- At the root both walks locate the same targets, from different files. -/
theorem located_at_root (located : ctx.locateImport stand other = .ok target) :
    ctx.locateImport file item = .ok target := by
  have alike := standIn.locates_at_root wellFormed sameItem
  rw [located] at alike
  exact alike.located

/-- So the first steps are alike too. -/
theorem step_at_root (mirrors : real.Mirrors shadow file stand own)
    (faithful : shadow.Faithful ctx) :
    StepsAlike ctx file stand own (ctx.step [file] file none real item)
      (ctx.step [stand] stand none shadow other) := by
  unfold step
  rw [importScope_relabel sameItem]
  exact standIn.stepTo_alike (fun _ member => absurd member not_mem_nil) _ mirrors faithful
    (standIn.locates_at_root wellFormed sameItem)

end

/-- Below an import of the text both walks go on alike. If the walk of the text comes to the file,
it ends in a cycle, since its chain leads through the module of that import. -/
theorem walk_below (standIn : StandIn ctx file stand own) (wellFormed : ctx.tree.WellFormed)
    (back : ComesBack ctx file own first) {scope? : Option String} {items : List Import}
    (isTrue : path.IsTrue) (through : first ∈ rest)
    (restApart : ∀ other ∈ rest, other.alike file = false)
    (mirrors : real.Mirrors shadow file stand own) (faithful : shadow.Faithful ctx)
    (walk : ctx.Walk (stand :: rest) path scope? items shadow outcome) :
    ∃ realOutcome, ctx.Walk (file :: rest) path scope? items real realOutcome ∧
      Closure.Agree file stand own realOutcome outcome := by
  generalize isChain : stand :: rest = chain at walk
  induction walk generalizing rest real with
  | done => exact ⟨_, .done, .value mirrors⟩
  | @stopped chain path scope? item items shadow fault stop =>
    subst isChain
    have steps := standIn.step_below wellFormed isTrue restApart scope? mirrors faithful item
    rw [stop] at steps
    obtain ⟨other, realStep, sameKind⟩ := steps.of_stop
    exact ⟨_, .stopped realStep, .fault sameKind⟩
  | @skipped chain path scope? item items shadow loaded outcome skip later ih =>
    subst isChain
    have steps := standIn.step_below wellFormed isTrue restApart scope? mirrors faithful item
    rw [skip] at steps
    obtain ⟨realLoaded, realStep, nextMirrors, nextFaithful⟩ := steps.of_skip
    obtain ⟨realOutcome, realWalk, agree⟩ :=
      ih isTrue through restApart nextMirrors nextFaithful rfl
    exact ⟨realOutcome, .skipped realStep realWalk, agree⟩
  | @failed chain path scope? item items shadow target imported loaded fault enter inner
      ih =>
    subst isChain
    have steps := standIn.step_below wellFormed isTrue restApart scope? mirrors faithful item
    rw [enter] at steps
    obtain ⟨cycle, again, realStep, same⟩ |
        ⟨realLoaded, realStep, targetTrue, notFile, nextMirrors, nextFaithful⟩ :=
      steps.of_enter back (mem_append_left _ (mem_cons_of_mem _ through)) inner
    · cases same
      exact ⟨_, .stopped realStep, .fault rfl⟩
    · obtain ⟨realOutcome, realWalk, agree⟩ := ih targetTrue
        (mem_append_left _ through) (apart_concat restApart notFile)
        (nextMirrors.contribute notFile _ imported) nextFaithful rfl
      cases agree with
      | fault sameKind => exact ⟨_, .failed realStep realWalk, .fault sameKind⟩
  | @entered chain path scope? item items shadow target imported loaded inside outcome enter inner
      later innerHypothesis restHypothesis =>
    subst isChain
    have steps := standIn.step_below wellFormed isTrue restApart scope? mirrors faithful item
    rw [enter] at steps
    obtain ⟨_, _, _, impossible⟩ |
        ⟨realLoaded, realStep, targetTrue, notFile, nextMirrors, nextFaithful⟩ :=
      steps.of_enter back (mem_append_left _ (mem_cons_of_mem _ through)) inner
    · cases impossible
    · obtain ⟨realInside, realInner, insideAgrees⟩ := innerHypothesis targetTrue
        (mem_append_left _ through) (apart_concat restApart notFile)
        (nextMirrors.contribute notFile _ imported) nextFaithful rfl
      cases insideAgrees with
      | value insideMirrors =>
        obtain ⟨realOutcome, realWalk, agree⟩ := restHypothesis isTrue through restApart
          insideMirrors (inner.faithful wellFormed nextFaithful) rfl
        exact ⟨realOutcome, .entered realStep realInner realWalk, agree⟩

variable {spoken : List Declaration}

/-- Both walks have followed the first imports of their roots and come to the same next one. Those
imports lead safely, and the closure of the text accounts for what they lead to. -/
structure InStep (context : ImportContext) (file stand : Path) (own spoken : List Declaration)
    (before items : List Import) (real shadow : Closure) : Prop where
  split : importsOf own = before ++ items
  safe : ∀ item ∈ before, (ImportGraph.mk context stand spoken).LeadsSafely file item
  mirrors : real.Mirrors shadow file stand own
  accounts : shadow.Accounts ⟨context, stand, spoken⟩ []
  settledOff : shadow.SettledOff ⟨context, stand, spoken⟩ [stand]

namespace InStep

variable {before others : List Import} (standIn : StandIn ctx file stand own)
  (wellFormed : ctx.tree.WellFormed)
  (inStep : InStep ctx file stand own spoken before (item :: others) real shadow)
  (sameItem : item.relabel .unplaced = other.relabel .unplaced)
include standIn wellFormed inStep sameItem

/-- The file has the same imports as the text. Whoever enters it follows those before this one,
which lead safely, and then this one, which leads to a module on the chain. -/
theorem comesBack (located : ctx.locateImport stand other = .ok target) :
    ComesBack ctx file own target := by
  intro chain scope? closure outcome onChain again faithful
  rw [inStep.split] at again
  exact again.returns wellFormed inStep.safe
    (standIn.located_at_root wellFormed sameItem located) onChain faithful

/-- Once an import is followed, it is one of those that lead safely. -/
theorem next {realNext shadowNext : Closure}
    (done : ctx.Walk [stand] stand none [other] shadow (.ok shadowNext))
    (mirrors : realNext.Mirrors shadowNext file stand own) :
    InStep ctx file stand own spoken (before ++ [item]) others realNext shadowNext := by
  have advances := done.advances wellFormed mem_cons_self inStep.accounts inStep.settledOff
  constructor
  case split => exact inStep.split.trans (append_cons before item others)
  case mirrors => exact mirrors
  case accounts => exact .walk wellFormed done mem_cons_self inStep.accounts
  case settledOff => exact advances.settledOff
  case safe =>
    obtain ⟨target, there, away, settled⟩ := advances.imports other mem_cons_self
    intro earlier member
    rcases mem_append.mp member with old | new
    · exact inStep.safe earlier old
    · rw [mem_singleton.mp new]
      exact ⟨target, standIn.located_at_root wellFormed sameItem there, away, settled.resolvable⟩

end InStep

/-- The walks over the imports of the file and of the text go alike. The induction is on the
imports, and both walks are in step at each of them. -/
theorem walk_at_root (standIn : StandIn ctx file stand own) (wellFormed : ctx.tree.WellFormed)
    {before items shadowItems : List Import}
    (inStep : InStep ctx file stand own spoken before items real shadow)
    (sameItems : items.map (Import.relabel .unplaced) = shadowItems.map (Import.relabel .unplaced))
    (walk : ctx.Walk [stand] stand none shadowItems shadow outcome) :
    ∃ realOutcome, ctx.Walk [file] file none items real realOutcome ∧
      Closure.Agree file stand own realOutcome outcome := by
  induction shadowItems generalizing before items real shadow with
  | nil =>
    obtain rfl : items = [] := by simpa using sameItems
    cases walk
    exact ⟨_, .done, .value inStep.mirrors⟩
  | cons shadowItem shadowOthers ih =>
    obtain ⟨item, others, rfl, sameItem, sameOthers⟩ := map_eq_cons_iff.mp sameItems
    have sameScope := importScope_relabel sameItem none
    have faithful := inStep.accounts.faithful
    have steps := standIn.step_at_root wellFormed sameItem inStep.mirrors faithful
    cases walk with
    | stopped stop =>
      rw [stop] at steps
      obtain ⟨other, realStep, sameKind⟩ := steps.of_stop
      exact ⟨_, .stopped realStep, .fault sameKind⟩
    | skipped skip later =>
      rw [skip] at steps
      obtain ⟨realLoaded, realStep, mirrors, _⟩ := steps.of_skip
      obtain ⟨realOutcome, realWalk, agree⟩ :=
        ih (inStep.next standIn wellFormed sameItem (.skipped skip .done) mirrors) sameOthers later
      exact ⟨realOutcome, .skipped realStep realWalk, agree⟩
    | @failed _ _ _ _ _ _ target imported loaded fault enter inner =>
      have located := (step_enter wellFormed faithful enter).1.located
      have back := inStep.comesBack standIn wellFormed sameItem located
      rw [enter] at steps
      obtain ⟨cycle, again, realStep, same⟩ |
          ⟨realLoaded, realStep, targetTrue, notFile, mirrors, nextFaithful⟩ :=
        steps.of_enter back (by simp) inner
      · cases same
        exact ⟨_, .stopped realStep, .fault rfl⟩
      · obtain ⟨realOutcome, realWalk, agree⟩ := standIn.walk_below wellFormed back targetTrue
          mem_cons_self (by simpa using notFile) (mirrors.contribute notFile _ imported)
          nextFaithful inner
        rw [← sameScope] at realWalk
        cases agree with
        | fault sameKind => exact ⟨_, .failed realStep realWalk, .fault sameKind⟩
    | @entered _ _ _ _ _ _ target imported loaded inside _ enter inner later =>
      have located := (step_enter wellFormed faithful enter).1.located
      have back := inStep.comesBack standIn wellFormed sameItem located
      rw [enter] at steps
      obtain ⟨_, _, _, impossible⟩ |
          ⟨realLoaded, realStep, targetTrue, notFile, mirrors, nextFaithful⟩ :=
        steps.of_enter back (by simp) inner
      · cases impossible
      · obtain ⟨realInside, realInner, insideAgrees⟩ := standIn.walk_below wellFormed back
          targetTrue mem_cons_self (by simpa using notFile) (mirrors.contribute notFile _ imported)
          nextFaithful inner
        rw [← sameScope] at realInner
        cases insideAgrees with
        | value insideMirrors =>
          have nextInStep :=
            inStep.next standIn wellFormed sameItem (.entered enter inner .done) insideMirrors
          obtain ⟨realOutcome, realWalk, agree⟩ := ih nextInStep sameOthers later
          exact ⟨realOutcome, .entered realStep realInner realWalk, agree⟩

/-- The closures of a file and of its text agree. -/
theorem closures_agree (standIn : StandIn ctx file stand own)
    (wellFormed : ctx.tree.WellFormed)
    (located : ctx.locate path path.text none = .ok file) {text : String}
    (parsed : parse (ctx.label stand) text = .ok spoken)
    (same : own.map (Declaration.relabel .unplaced) = spoken.map (Declaration.relabel .unplaced)) :
    Closure.Agree file stand own (ctx.closureOf path) (ctx.closureOfText text stand) := by
  have sameImports : (importsOf own).map (Import.relabel .unplaced) =
      (importsOf spoken).map (Import.relabel .unplaced) := by
    rw [← importsOf_relabel, same, importsOf_relabel]
  have mirrors : Closure.Mirrors (contribute ⟨[(file, own)], [], []⟩ file none own)
      (contribute {} stand none spoken) file stand own := by
    constructor
    case loaded => rfl
    case visited => exact ⟨[], rfl, rfl, fun _ member => absurd member not_mem_nil⟩
    case declarations =>
      show ((contribute ⟨[(file, own)], [], []⟩ file none own).relabel
        .unplaced).declarations = ((contribute {} stand none spoken).relabel
          .unplaced).declarations
      rw [relabel_contribute, relabel_contribute, same]
      rfl
  have walk := (resolvesText_closureOfText wellFormed text stand).walk parsed
  have inStep : InStep ctx file stand own spoken [] (importsOf own) _ _ :=
    ⟨rfl, by simp, mirrors, text_accounts ctx stand spoken,
      @Closure.SettledOff.initial ⟨ctx, stand, spoken⟩ {} rfl⟩
  obtain ⟨outcome, realWalk, agree⟩ := standIn.walk_at_root wellFormed inStep sameImports walk
  have resolves : ctx.Resolves path outcome := .walked located standIn.readable realWalk
  rw [(resolves_closureOf wellFormed path).unique resolves]
  exact agree

end StandIn

/-! ## Files of one directory -/

namespace ImportContext

variable {place : Place}

/-- Imports of true paths are looked up at absolute paths. -/
theorem candidate_isAbsolute (rooted : ctx.root = .ofPlace place) (isTrue : importer.IsTrue)
    (path : String) : (ctx.candidate importer path).isAbsolute = true := by
  obtain ⟨lies, proper, rfl⟩ := isTrue
  unfold candidate
  split
  · rw [rooted]
    exact join_isAbsolute (ofPlace_isAbsolute place) _
  · rcases eq_nil_or_concat lies with rfl | ⟨above, name, rfl⟩
    · rw [rooted]
      exact join_isAbsolute (ofPlace_isAbsolute place) _
    · rw [concat_eq_append] at proper ⊢
      rw [parent?_concat (fun other member => proper other (mem_append_left _ member))
        (proper name (by simp))]
      exact join_isAbsolute (ofPlace_isAbsolute above) _

/-- Completing a candidate adds at most an ending or a file name. -/
theorem completed_isAbsolute (ctx : ImportContext) {candidate : Path}
    (absolute : candidate.isAbsolute = true) : (ctx.completed candidate).isAbsolute = true := by
  unfold completed
  split
  · exact join_isAbsolute absolute _
  split
  · exact withExtension_isAbsolute absolute _
  · exact absolute

/-- What an import is located at stands in the tree. -/
theorem locateImport_standing (wellFormed : ctx.tree.WellFormed)
    (rooted : ctx.root = .ofPlace place) (isTrue : importer.IsTrue) {found : Place}
    (proper : Place.Proper found)
    (located : ctx.locateImport importer item = .ok (.ofPlace found)) :
    ctx.tree.Standing found := by
  unfold locateImport locate at located
  split at located
  · rename_i path canonical
    cases located
    obtain ⟨reached, resolved, same⟩ := Outcome.map_ok_iff.mp canonical
    have reachedProper := FileTree.resolve_proper wellFormed resolved
    obtain rfl := eq_of_alike reachedProper proper (by rw [same, alike_refl])
    exact FileTree.resolve_standing
      (ctx.completed_isAbsolute (candidate_isAbsolute rooted isTrue item.path)) resolved
  · cases located

end ImportContext

/-- A text can stand in for any file of the project root, under a name that is not used there. -/
theorem StandIn.ofSibling (wellFormed : ctx.tree.WellFormed) {place : Place}
    (rooted : ctx.root = .ofPlace place) (proper : Place.Proper place) {name other : String}
    (isName : IsFileName name) (otherIsName : IsFileName other)
    (unused : ctx.tree.node? (place ++ [other]) = none) {text : String}
    (content : ctx.tree.read (.ofPlace (place ++ [name])) = .ok text)
    (readable : ctx.readModule (.ofPlace (place ++ [name])) = .ok own) :
    StandIn ctx (.ofPlace (place ++ [name])) (.ofPlace (place ++ [other])) own := by
  have nameProper := proper.concat isName
  have otherProper := proper.concat otherIsName
  constructor
  case fileTrue => exact ⟨_, nameProper, rfl⟩
  case standTrue => exact ⟨_, otherProper, rfl⟩
  case readable => exact readable
  case apart =>
    rw [← Bool.not_eq_true]
    intro alike
    rw [eq_of_alike otherProper nameProper alike,
      FileTree.node?_of_read nameProper content] at unused
    cases unused
  case nowhere =>
    intro importer item isTrue located
    have standing := locateImport_standing wellFormed rooted isTrue otherProper located
    exact standing _ (prefix_refl _) unused
  case sameDirectory =>
    intro path
    unfold candidate
    rw [parent?_concat proper isName, parent?_concat proper otherIsName]

namespace ImportContext

variable {place : Place} {name text : String}

/-- A path that leads to a file stands for itself. -/
theorem completed_file (found : ctx.tree.find? path = some (.file (.text text))) :
    ctx.completed path = path := by
  have notDirectory : ctx.tree.isDirectory path = false := by
    rw [FileTree.isDirectory, found]
    rfl
  have held : ctx.tree.holds path = true := by
    rw [FileTree.holds, found]
    rfl
  rw [completed, notDirectory, held]
  rfl

/-- A file that is reached by some path is located at its place. -/
theorem locate_file (proper : Place.Proper place) (reached : ctx.tree.resolve path = .ok place)
    (content : ctx.tree.read (.ofPlace place) = .ok text) (requested : String)
    (location? : Option Location) :
    ctx.locate path requested location? = .ok (.ofPlace place) := by
  have node := FileTree.node?_of_read proper content
  have found : ctx.tree.find? path = some (.file (.text text)) := by
    rw [FileTree.find?, reached]
    exact node
  have canonical : ctx.tree.canonical path = .ok (.ofPlace place) := by
    rw [FileTree.canonical, reached]
    rfl
  unfold locate
  rw [completed_file found, canonical]

/-- A file is read to the same declarations as its text, but for locations. -/
theorem readModule_text (content : ctx.tree.read path = .ok text) (label : String) :
    Relabelling.unplaced.outcome (map (Declaration.relabel .unplaced))
        (ctx.readModule path) =
      Relabelling.unplaced.outcome (map (Declaration.relabel .unplaced))
        (parse label text) := by
  rw [readModule, content]
  rw [parse_relabel, parse_relabel, tokenize_unplaced (ctx.label path) label]

/-- A file of the project root and its text, under a name that is not used there, have closures
with the same declarations, but for locations, and the file is one module more; or both have none,
for the same kind of reason. -/
theorem sibling_closures (wellFormed : ctx.tree.WellFormed)
    (rooted : ctx.root = .ofPlace place) (proper : Place.Proper place) {other : String}
    (isName : IsFileName name) (otherIsName : IsFileName other)
    (unused : ctx.tree.node? (place ++ [other]) = none)
    (reached : ctx.tree.resolve path = .ok (place ++ [name]))
    (content : ctx.tree.read (.ofPlace (place ++ [name])) = .ok text) :
    (∃ real shadow, ctx.closureOf path = .ok real ∧
      ctx.closureOfText text (.ofPlace (place ++ [other])) = .ok shadow ∧
      real.declarations.map (ScopedDeclaration.relabel .unplaced) =
        shadow.declarations.map (ScopedDeclaration.relabel .unplaced) ∧
      real.modules = .ofPlace (place ++ [name]) :: shadow.modules) ∨
    ∃ fault otherFault, ctx.closureOf path = .error fault ∧
      ctx.closureOfText text (.ofPlace (place ++ [other])) = .error otherFault ∧
      fault.kind = otherFault.kind := by
  have located := locate_file (proper.concat isName) reached content path.text none
  rcases Relabelling.outcome_eq_iff.mp
      (readModule_text content (ctx.label (.ofPlace (place ++ [other])))) with
    ⟨own, spoken, readable, parsed, same⟩ | ⟨fault, otherFault, unreadable, malformed, same⟩
  · have standIn := StandIn.ofSibling wellFormed rooted proper isName otherIsName unused content
      readable
    have agree := standIn.closures_agree wellFormed located parsed same
    generalize ctx.closureOf path = outcome,
      ctx.closureOfText text (.ofPlace (place ++ [other])) = textOutcome at agree
    cases agree with
    | value mirrors =>
      exact .inl ⟨_, _, rfl, rfl, mirrors.declarations, mirrors.modules⟩
    | fault sameKind => exact .inr ⟨_, _, rfl, rfl, sameKind⟩
  · have fileFails := (resolves_closureOf wellFormed path).unique (.unread located unreadable)
    have textFails := (resolvesText_closureOfText wellFormed text
      (.ofPlace (place ++ [other]))).unique (.unparsed malformed)
    exact .inr ⟨fault, otherFault, fileFails, textFails, Error.kind_eq_of_relabel same⟩

end ImportContext

end SchemaLang
