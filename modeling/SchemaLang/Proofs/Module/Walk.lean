import SchemaLang.Proofs.Module.ImportGraph

/-!
# Walks over imports

Visiting a module follows its imports one after the other. What one import asks for is
settled in one step: it stops with a fault, it is skipped since its module has contributed
to its scope before, or its module is entered and visited in turn. `Walk` is the recursion
over these steps without any bound on its depth: a derivation is a run that ends, whatever
its outcome, and there is at most one outcome.

The visit itself counts its depth down from the number of files. A chain of imports that
does not come back goes through different files, so the count never runs out: every visit
from a root is a walk that ends, with the same outcome.
-/

namespace SchemaLang

open List

/-- What following an import comes to, before any other module is visited. -/
inductive ImportStep where
  | stop (fault : Error)
  | skip (loaded : Closure)
  | enter (target : Path) (imported : List Declaration) (loaded : Closure)

/-- The step to a module that has been loaded, or not. -/
def ImportStep.ofLoaded (target : Path) (scope? : Option String) :
    Except Error (List Declaration × Closure) → ImportStep
  | .error fault => .stop fault
  | .ok (imported, loaded) =>
    if loaded.hasVisited target scope? then .skip loaded else .enter target imported loaded

variable {items : List Import} {closure : Closure}

namespace ImportContext

variable (context ctx : ImportContext)

/-- The step to a module that has been located, or not. -/
def stepTo (chain : List Path) (scope? : Option String) (closure : Closure) :
    Except Error Path → ImportStep
  | .error fault => .stop fault
  | .ok target =>
    if chain.any fun other => other.alike target then
      .stop (.circularImport (context.cycle chain target))
    else .ofLoaded target scope? (context.load closure target)

/-- The first step of following an import of the module at a path. -/
def step (chain : List Path) (path : Path) (scope? : Option String) (closure : Closure)
    (item : Import) : ImportStep :=
  context.stepTo chain (importScope scope? item) closure (context.locateImport path item)

/-- Follow one import of the module at a path, within a depth. -/
def follow (depth : Nat) (chain : List Path) (path : Path) (scope? : Option String)
    (closure : Closure) (item : Import) : Except Error Closure :=
  (context.locateImport path item).bind fun target =>
    if chain.any fun other => other.alike target then
      .error (.circularImport (context.cycle chain target))
    else
      (context.load closure target).bind fun found =>
        context.visit depth chain target (importScope scope? item) found.1 found.2

/-- A visit that is not a repeated one adds the contribution and follows the imports. -/
theorem visit_succ (depth : Nat) (chain : List Path) (path : Path) (scope? : Option String)
    (decls : List Declaration) (closure : Closure) :
    ctx.visit (depth + 1) chain path scope? decls closure =
      if closure.hasVisited path scope? then .ok closure
      else (importsOf decls).foldlM (ctx.follow depth (chain ++ [path]) path scope?)
        (closure.contribute path scope? decls) := by
  rw [visit]
  rfl

/-- Following an import within a depth does what its first step says. -/
theorem follow_succ (depth : Nat) (chain : List Path) (path : Path) (scope? : Option String)
    (closure : Closure) (item : Import) :
    ctx.follow (depth + 1) chain path scope? closure item =
      match ctx.step chain path scope? closure item with
      | .stop fault => .error fault
      | .skip loaded => .ok loaded
      | .enter target imported loaded =>
        (importsOf imported).foldlM
          (ctx.follow depth (chain ++ [target]) target (importScope scope? item))
          (loaded.contribute target (importScope scope? item) imported) := by
  rw [follow, step]
  cases ctx.locateImport path item with
  | error fault => rfl
  | ok target =>
    by_cases back : (chain.any fun other => other.alike target) = true
    · simp only [Except.bind, stepTo, back, if_true]
    · cases found : ctx.load closure target with
      | error fault => simp [Except.bind, stepTo, ImportStep.ofLoaded, back, found]
      | ok pair =>
        by_cases visited : pair.2.hasVisited target (importScope scope? item) = true
        · simp [Except.bind, stepTo, ImportStep.ofLoaded, visit_succ, back, found, visited]
        · simp [Except.bind, stepTo, ImportStep.ofLoaded, visit_succ, back, found, visited]

/-- Following imports of the module at `path` ends with an outcome. `chain` leads from the
root to that module, and `closure` is what has been visited before. -/
inductive Walk : List Path → Path → Option String → List Import → Closure →
    Except Error Closure → Prop where
  | done {chain path scope? closure} : Walk chain path scope? [] closure (.ok closure)
  | stopped {chain path scope? item items closure fault}
      (stop : context.step chain path scope? closure item = .stop fault) :
      Walk chain path scope? (item :: items) closure (.error fault)
  | skipped {chain path scope? item items closure loaded outcome}
      (skip : context.step chain path scope? closure item = .skip loaded)
      (rest : Walk chain path scope? items loaded outcome) :
      Walk chain path scope? (item :: items) closure outcome
  | failed {chain path scope? item items closure target imported loaded fault}
      (enter : context.step chain path scope? closure item = .enter target imported loaded)
      (inner : Walk (chain ++ [target]) target (importScope scope? item) (importsOf imported)
        (loaded.contribute target (importScope scope? item) imported) (.error fault)) :
      Walk chain path scope? (item :: items) closure (.error fault)
  | entered {chain path scope? item items closure target imported loaded inside outcome}
      (enter : context.step chain path scope? closure item = .enter target imported loaded)
      (inner : Walk (chain ++ [target]) target (importScope scope? item) (importsOf imported)
        (loaded.contribute target (importScope scope? item) imported) (.ok inside))
      (rest : Walk chain path scope? items inside outcome) :
      Walk chain path scope? (item :: items) closure outcome

variable {ctx} {scope? : Option String}

/-- A walk has one outcome. -/
theorem Walk.unique {chain : List Path} {path : Path} {first second : Except Error Closure}
    (walk : ctx.Walk chain path scope? items closure first)
    (other : ctx.Walk chain path scope? items closure second) : first = second := by
  induction walk generalizing second with
  | done =>
    cases other
    rfl
  | stopped stop => cases other <;> simp_all
  | skipped skip rest restUnique =>
    cases other with
    | skipped otherSkip otherRest =>
      obtain rfl := ImportStep.skip.inj (skip.symm.trans otherSkip)
      exact restUnique otherRest
    | _ => simp_all
  | failed enter inner innerUnique =>
    cases other with
    | failed otherEnter otherInner =>
      obtain ⟨rfl, rfl, rfl⟩ := ImportStep.enter.inj (enter.symm.trans otherEnter)
      exact innerUnique otherInner
    | entered otherEnter otherInner otherRest =>
      obtain ⟨rfl, rfl, rfl⟩ := ImportStep.enter.inj (enter.symm.trans otherEnter)
      cases innerUnique otherInner
    | _ => simp_all
  | entered enter inner rest innerUnique restUnique =>
    cases other with
    | failed otherEnter otherInner =>
      obtain ⟨rfl, rfl, rfl⟩ := ImportStep.enter.inj (enter.symm.trans otherEnter)
      cases innerUnique otherInner
    | entered otherEnter otherInner otherRest =>
      obtain ⟨rfl, rfl, rfl⟩ := ImportStep.enter.inj (enter.symm.trans otherEnter)
      obtain rfl := Except.ok.inj (innerUnique otherInner)
      exact restUnique otherRest
    | _ => simp_all

/-- A property of closures that every step keeps is kept by a walk that succeeds. All
chains on the way extend the first one. -/
theorem Walk.keeps (first : List Path) (kept : Closure → Prop)
    (skip : ∀ {chain path scope? item closure loaded}, first ⊆ chain → ctx.step chain path
      scope? closure item = .skip loaded → kept closure → kept loaded)
    (enter : ∀ {chain path scope? item closure target imported loaded}, first ⊆ chain →
      ctx.step chain path scope? closure item = .enter target imported loaded → kept closure
      → kept (loaded.contribute target (importScope scope? item) imported)) {chain : List Path}
    {path : Path} {final : Closure}
    (walk : ctx.Walk chain path scope? items closure (.ok final)) (longer : first ⊆ chain)
    (holds : kept closure) : kept final := by
  generalize reached : Except.ok final = outcome at walk
  induction walk generalizing final with
  | done =>
    cases reached
    exact holds
  | stopped | failed => cases reached
  | skipped skipStep _ ih =>
    exact ih longer (skip longer skipStep holds) reached
  | entered enterStep _ _ innerHypothesis restHypothesis =>
    have inside := innerHypothesis (subset_append_of_subset_left _ longer)
      (enter longer enterStep holds) rfl
    exact restHypothesis longer inside reached

end ImportContext

/-! ## Files that were read before -/

/-- The files that a closure holds are true paths with what stands there. -/
def Closure.Faithful (closure : Closure) (context : ImportContext) : Prop :=
  ∀ entry ∈ closure.loaded, entry.1.IsTrue ∧ context.readModule entry.1 = .ok entry.2

/-- Keep the declarations of a file, unless they are there already. -/
def Closure.remember (closure : Closure) (path : Path) (declarations : List Declaration) :
    Closure :=
  if path ∈ closure.modules then closure
  else { closure with loaded := closure.loaded ++ [(path, declarations)] }

@[simp] theorem Closure.remember_visited (closure : Closure) (path : Path)
    (decls : List Declaration) :
    (closure.remember path decls).visited = closure.visited := by
  unfold Closure.remember
  split <;> rfl

@[simp] theorem Closure.remember_hasVisited (closure : Closure) (path : Path)
    (decls : List Declaration) :
    (closure.remember path decls).hasVisited = closure.hasVisited := by
  funext other scope?
  simp [Closure.hasVisited]

variable {target : Path} {imported : List Declaration}

/-- A file at a true path can be remembered with what stands there. -/
theorem Closure.Faithful.remember {ctx : ImportContext} {closure : Closure}
    (faithful : closure.Faithful ctx) (isTrue : target.IsTrue)
    (readable : ctx.readModule target = .ok imported) :
    (closure.remember target imported).Faithful ctx := by
  unfold Closure.remember
  split
  · exact faithful
  · intro entry member
    rcases mem_append.mp member with old | new
    · exact faithful entry old
    · cases mem_singleton.mp new
      exact ⟨isTrue, readable⟩

namespace ImportContext

variable {context ctx : ImportContext} {path : Path} {closure : Closure}

/-- Loading a true path gives what stands there, whether it has been read before or not. -/
theorem load_eq (faithful : closure.Faithful ctx) (isTrue : path.IsTrue) :
    ctx.load closure path = (ctx.readModule path).map fun decls =>
        (decls, closure.remember path decls) := by
  unfold load
  split
  · rename_i other decls found
    have member := mem_of_find?_eq_some found
    have same : other = path :=
      (faithful _ member).1.eq_of_alike isTrue (by simpa using find?_some found)
    have known : path ∈ closure.modules := mem_map.mpr ⟨_, member, same⟩
    rw [same] at member
    rw [(faithful _ member).2]
    simp [Except.map, Closure.remember, known]
  · rename_i notFound
    have unknown : path ∉ closure.modules := by
      intro known
      obtain ⟨entry, member, rfl⟩ := mem_map.mp known
      exact (find?_eq_none.mp notFound) entry member (by simp)
    unfold readModule
    cases ctx.tree.read path with
    | error fault => rfl
    | ok text =>
      dsimp only
      cases parse (ctx.label path) text with
      | error fault => rfl
      | ok decls => simp [Except.map, Closure.remember, unknown, bind, Except.bind, pure,
          Except.pure]

/-- An import leads on: its module is located, is like none on the chain, and can be read. -/
structure Onward (context : ImportContext) (chain : List Path) (path : Path) (item : Import)
    (target : Path) (imported : List Declaration) : Prop where
  located : context.locateImport path item = .ok target
  fresh : ∀ other ∈ chain, other.alike target = false
  readable : context.readModule target = .ok imported

variable {chain : List Path} {item : Import}

/-- A module that an import leads on to is not on the chain. -/
theorem Onward.isNew (onward : ctx.Onward chain path item target imported) : target ∉ chain := by
  intro member
  have fresh := onward.fresh target member
  simp at fresh

variable {scope? : Option String}

section

variable (wellFormed : ctx.tree.WellFormed) (faithful : closure.Faithful ctx)
include wellFormed faithful

/-- The step of an import that leads on. -/
theorem Onward.step_eq (onward : ctx.Onward chain path item target imported) :
    ctx.step chain path scope? closure item =
      if closure.hasVisited target (importScope scope? item) then
        .skip (closure.remember target imported)
      else .enter target imported (closure.remember target imported) := by
  have fresh : chain.any (fun other => other.alike target) = false :=
    any_eq_false.mpr fun other member => by simp [onward.fresh other member]
  have loaded := load_eq faithful (locateImport_isTrue wellFormed onward.located)
  rw [onward.readable] at loaded
  simp only [step, onward.located, stepTo, fresh, loaded]
  simp [ImportStep.ofLoaded, Except.map]

/-- An import that does not lead on stops the walk. -/
theorem step_cases (chain : List Path) (path : Path) (scope? : Option String) (item : Import) :
    (∃ target imported, ctx.Onward chain path item target imported) ∨
      ∃ fault, ctx.step chain path scope? closure item = .stop fault := by
  unfold step
  cases located : ctx.locateImport path item with
  | error fault => exact .inr ⟨fault, rfl⟩
  | ok target =>
    by_cases back : chain.any (fun other => other.alike target) = true
    · exact .inr ⟨_, by rw [stepTo, if_pos back]⟩
    · have fresh : ∀ other ∈ chain, other.alike target = false := by simpa using back
      rw [stepTo, if_neg back, load_eq faithful (locateImport_isTrue wellFormed located)]
      cases readable : ctx.readModule target with
      | error fault => exact .inr ⟨fault, rfl⟩
      | ok imported => exact .inl ⟨target, imported, located, fresh, readable⟩

/-- A skipped import leads to a module that has contributed to its scope. -/
theorem step_skip {loaded : Closure}
    (skip : ctx.step chain path scope? closure item = .skip loaded) :
    ∃ target imported, ctx.Onward chain path item target imported ∧
      closure.hasVisited target (importScope scope? item) = true ∧
        loaded = closure.remember target imported := by
  rcases step_cases wellFormed faithful chain path scope? item with
    ⟨target, imported, onward⟩ | ⟨fault, stop⟩
  · rw [onward.step_eq wellFormed faithful] at skip
    split at skip
    · rename_i visited
      cases skip
      exact ⟨target, imported, onward, visited, rfl⟩
    · cases skip
  · cases stop.symm.trans skip

/-- An entered import leads to a module that has not contributed to its scope. -/
theorem step_enter {loaded : Closure}
    (enter : ctx.step chain path scope? closure item = .enter target imported loaded) :
    ctx.Onward chain path item target imported ∧
      closure.hasVisited target (importScope scope? item) = false ∧
        loaded = closure.remember target imported := by
  rcases step_cases wellFormed faithful chain path scope? item with
    ⟨found, decls, onward⟩ | ⟨fault, stop⟩
  · rw [onward.step_eq wellFormed faithful] at enter
    split at enter
    · cases enter
    · rename_i visited
      cases enter
      exact ⟨onward, by simpa using visited, rfl⟩
  · cases stop.symm.trans enter

/-- A module that leads on is a file that can be remembered. -/
theorem Onward.remember_faithful (onward : ctx.Onward chain path item target imported) :
    (closure.remember target imported).Faithful ctx :=
  faithful.remember (locateImport_isTrue wellFormed onward.located) onward.readable

end

/-- A walk that succeeds keeps the files it has read faithful. -/
theorem Walk.faithful (wellFormed : ctx.tree.WellFormed) {items : List Import}
    {final : Closure} (walk : ctx.Walk chain path scope? items closure (.ok final))
    (faithful : closure.Faithful ctx) : final.Faithful ctx := by
  refine walk.keeps [] (·.Faithful ctx) ?_ ?_ (by simp) faithful
  · intro _ _ _ _ _ _ _ skip holds
    obtain ⟨_, _, onward, _, rfl⟩ := step_skip wellFormed holds skip
    exact onward.remember_faithful wellFormed holds
  · intro _ _ _ _ _ _ _ _ _ enter holds
    obtain ⟨onward, _, rfl⟩ := step_enter wellFormed holds enter
    exact onward.remember_faithful wellFormed holds

/-! ## The depth is enough -/

/-- The modules of a chain after its first are different files. -/
structure Descent (context : ImportContext) (chain : List Path) : Prop where
  distinct : chain.tail.Nodup
  files : ∀ path ∈ chain.tail, path.IsTrue ∧ ∃ declarations,
    context.readModule path = .ok declarations

/-- A chain has at most one module more than there are files. -/
theorem Descent.length_le (descent : ctx.Descent chain) :
    chain.length ≤ ctx.tree.nodes.length + 1 := by
  have places : chain.tail ⊆ (ctx.tree.nodes.map Prod.fst).map Path.ofPlace := by
    intro path member
    obtain ⟨isTrue, decls, readable⟩ := descent.files path member
    obtain ⟨place, node, rfl⟩ := node_of_readModule isTrue readable
    exact mem_map_of_mem node
  have bounded := List.Nodup.length_le_of_subset descent.distinct places
  simp only [length_tail, length_map] at bounded
  omega

/-- An import that leads on makes a chain longer by a new file. -/
theorem Descent.extend (wellFormed : ctx.tree.WellFormed) (descent : ctx.Descent chain)
    (someModule : chain ≠ []) (onward : ctx.Onward chain path item target imported) :
    ctx.Descent (chain ++ [target]) := by
  constructor
  · rw [tail_append_of_ne_nil someModule]
    rw [nodup_append]
    refine ⟨descent.distinct, by simp, fun other member last isLast same => ?_⟩
    rw [same, mem_singleton.mp isLast] at member
    exact onward.isNew (mem_of_mem_tail member)
  · intro other member
    rw [tail_append_of_ne_nil someModule] at member
    rcases mem_append.mp member with old | new
    · exact descent.files other old
    · cases mem_singleton.mp new
      exact ⟨locateImport_isTrue wellFormed onward.located, imported, onward.readable⟩

/-- Following imports within a depth is a walk, if the depth is at least what the chain
leaves of the number of files. The induction is on the depth and, within it, on the
imports; a depth of zero is never met, since the chain would be too long. -/
theorem walk_of_depth (wellFormed : ctx.tree.WellFormed) (depth : Nat) {items : List Import}
    (faithful : closure.Faithful ctx) (someModule : chain ≠ [])
    (descent : ctx.Descent chain)
    (enough : ctx.tree.nodes.length + 2 ≤ depth + chain.length) :
    ctx.Walk chain path scope? items closure
      (items.foldlM (ctx.follow depth chain path scope?) closure) := by
  induction depth generalizing chain path scope? items closure with
  | zero =>
    have bounded := descent.length_le
    omega
  | succ depth depthHypothesis =>
    induction items generalizing closure with
    | nil => exact .done
    | cons item items itemsHypothesis =>
      rw [foldlM_cons, follow_succ]
      cases stepped : ctx.step chain path scope? closure item with
      | stop fault => exact .stopped stepped
      | skip loaded =>
        obtain ⟨_, _, onward, _, rfl⟩ := step_skip wellFormed faithful stepped
        exact .skipped stepped (itemsHypothesis (onward.remember_faithful wellFormed faithful))
      | enter target imported loaded =>
        obtain ⟨onward, _, rfl⟩ := step_enter wellFormed faithful stepped
        have remembered := onward.remember_faithful wellFormed faithful
        have inner : ctx.Walk (chain ++ [target]) target (importScope scope? item)
            (importsOf imported) ((closure.remember target imported).contribute target
              (importScope scope? item) imported) _ :=
          depthHypothesis remembered (by simp) (descent.extend wellFormed someModule onward)
            (by simp only [length_append, length_singleton]; omega)
        dsimp only
        cases inside : (importsOf imported).foldlM
            (ctx.follow depth (chain ++ [target]) target (importScope scope? item))
            ((closure.remember target imported).contribute target (importScope scope? item)
              imported) with
        | error fault => exact .failed stepped (inside ▸ inner)
        | ok final =>
          rw [inside] at inner
          exact .entered stepped inner (itemsHypothesis (inner.faithful wellFormed remembered))

/-- A first visit, within the limit, is a walk over the imports of the root. -/
theorem walk_of_visit (wellFormed : ctx.tree.WellFormed) {root : Path}
    {own : List Declaration} (faithful : closure.Faithful ctx)
    (unvisited : closure.visited = []) :
    ctx.Walk [root] root none (importsOf own) (closure.contribute root none own)
      (ctx.visit ctx.depthLimit [] root none own closure) := by
  have fresh : closure.hasVisited root none = false := by simp [Closure.hasVisited, unvisited]
  rw [depthLimit, visit_succ, fresh]
  exact walk_of_depth wellFormed _ faithful (by simp) ⟨by simp, by simp⟩ (by simp)

end ImportContext

end SchemaLang
