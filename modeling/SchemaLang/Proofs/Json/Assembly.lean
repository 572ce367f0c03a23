import SchemaLang.Proofs.Json.Lexemes
import SchemaLang.Proofs.Json.Parts

/-!
# Putting lexemes together

The lexemes of a value are put together to the value, wherever it stands: whatever containers are
open around it, they get the value as their next item or member. This holds as long as there is
room for the containers inside the value, and fails at the limit otherwise. Names are told apart
only when an object is closed, so it takes values without repeated names.
-/

namespace SchemaLang.Json

open Assembly List

/-- The run of the second pass over some lexemes. -/
def run (lexemes : List Lexeme) (state : Assembly) : Except Fault Assembly :=
  lexemes.foldlM (step .lastWins) state

theorem run_cons (lexeme : Lexeme) (lexemes : List Lexeme) (state : Assembly) :
    run (lexeme :: lexemes) state = step .lastWins state lexeme >>= run lexemes :=
  foldlM_cons

theorem run_append (first second : List Lexeme) (state : Assembly) :
    run (first ++ second) state = run first state >>= run second :=
  foldlM_append

/-! ## Room for containers -/

/-- A result for what there is room for. -/
def within {α : Type} (depth : Nat) (result : Except Fault α) : Except Fault α :=
  if depth < nestingLimit then result else .error .nestedTooDeep

section within

variable {α β : Type} {depth : Nat}

theorem within_of_lt (room : depth < nestingLimit) (result : Except Fault α) :
    within depth result = result := if_pos room

theorem within_congr {first second : Except Fault α}
    (same : depth < nestingLimit → first = second) : within depth first = within depth second := by
  unfold within
  split
  · rename_i room
    exact same room
  · rfl

theorem within_bind (result : Except Fault α) (next : α → Except Fault β) :
    within depth result >>= next = within depth (result >>= next) := by
  unfold within
  split <;> rfl

theorem within_within {inner : Nat} (result : Except Fault α) :
    within depth (within inner result) = within (max depth inner) result := by
  unfold within
  by_cases outerRoom : depth < nestingLimit
  · by_cases innerRoom : inner < nestingLimit
    · rw [if_pos outerRoom, if_pos innerRoom, if_pos (by omega)]
    · rw [if_pos outerRoom, if_neg innerRoom, if_neg (by omega)]
  · rw [if_neg outerRoom, if_neg (by omega)]

end within

variable {stack : List Frame}

theorem openContainers_array (items : List Json) :
    openContainers (.array items :: stack) = openContainers stack + 1 := countP_cons_of_pos rfl

theorem openContainers_object (members : List (String × Json)) :
    openContainers (.object members :: stack) = openContainers stack + 1 :=
  countP_cons_of_pos rfl

theorem openContainers_member (name : String) :
    openContainers (.member name :: stack) = openContainers stack :=
  countP_cons_of_neg Bool.false_ne_true

/-- A container is opened if there is room for it. -/
theorem openFrame_eq (frame : Frame) (focus : Focus) :
    openFrame stack frame focus =
      within (openContainers stack + 1) (.ok ⟨frame :: stack, focus⟩) := rfl

/-- The lexemes of a value hand it to the innermost container, if there is room for it. -/
def Assembles (value : Json) : Prop :=
  ∀ stack, openContainers stack < nestingLimit →
    run value.lexemes ⟨stack, .value⟩ =
      within (openContainers stack + value.depth) (complete stack value)

variable {value : Json}

/-- A value without containers needs no room. -/
theorem assembles_scalar (single : value.lexemes = [.scalar value])
    (flat : value.depth = 0) : Assembles value := by
  intro stack room
  rw [single, flat, Nat.add_zero, within_of_lt room]
  show complete stack value >>= pure = _
  exact bind_pure _

/-! ## Lists -/

/-- A value does not start with the mark that closes a list. -/
theorem run_firstItem (value : Json) (others : List Lexeme) (stack : List Frame) :
    run (value.lexemes ++ others) ⟨stack, .firstItem⟩ =
      run (value.lexemes ++ others) ⟨stack, .value⟩ := by
  cases value <;> rfl

/-- Items are added to their list one by one. -/
theorem run_items {items : List Json} (each : ∀ item ∈ items, Assembles item)
    (nonempty : items ≠ []) (room : openContainers stack + 1 < nestingLimit) (done : List Json) :
    run (itemLexemes items) ⟨.array done :: stack, .value⟩ =
      within (openContainers stack + 1 + itemsDepth items)
        (.ok ⟨.array (items.reverse ++ done) :: stack, .after⟩) := by
  induction items generalizing done with
  | nil => exact absurd rfl nonempty
  | cons item rest ih =>
    obtain ⟨ofItem, ofRest⟩ := forall_mem_cons.mp each
    have own := ofItem (.array done :: stack) (by rwa [openContainers_array])
    rw [openContainers_array, complete] at own
    cases rest with
    | nil =>
      rw [itemLexemes, own, itemsDepth, itemsDepth, Nat.max_zero]
      rfl
    | cons next rest =>
      have others := ih ofRest (by simp) (item :: done)
      have added : (item :: next :: rest).reverse ++ done =
          (next :: rest).reverse ++ item :: done := by simp
      rw [itemLexemes, run_append, own, within_bind]
      · show within _
          (run (itemLexemes (next :: rest)) ⟨.array (item :: done) :: stack, .value⟩) = _
        rw [others, within_within, Nat.add_max_add_left, added]
        rfl
      · simp

theorem run_closeArray (items : List Json) :
    run [.closeArray] ⟨.array items :: stack, .after⟩ = complete stack (.array items.reverse) := by
  show complete stack (.array items.reverse) >>= pure = _
  exact bind_pure _

/-- A list is handed on when it is closed. -/
theorem Assembles.array {items : List Json} (each : ∀ item ∈ items, Assembles item) :
    Assembles (.array items) := by
  intro stack _
  have opened : run (Json.array items).lexemes ⟨stack, .value⟩ = within (openContainers stack + 1)
      (run (itemLexemes items ++ [.closeArray]) ⟨.array [] :: stack, .firstItem⟩) := by
    rw [lexemes, run_cons]
    show openFrame stack (.array []) .firstItem >>= _ = _
    rw [openFrame_eq, within_bind]
    rfl
  have inside : openContainers stack + 1 < nestingLimit →
      run (itemLexemes items ++ [.closeArray]) ⟨.array [] :: stack, .firstItem⟩ =
        within (openContainers stack + 1 + itemsDepth items) (complete stack (.array items)) := by
    intro room
    cases items with
    | nil =>
      rw [itemsDepth, Nat.add_zero, within_of_lt room]
      exact run_closeArray []
    | cons item rest =>
      have started : run (itemLexemes (item :: rest) ++ [.closeArray])
          ⟨.array [] :: stack, .firstItem⟩ =
            run (itemLexemes (item :: rest) ++ [.closeArray]) ⟨.array [] :: stack, .value⟩ := by
        cases rest with
        | nil => exact run_firstItem item _ _
        | cons next rest =>
          rw [itemLexemes, append_assoc]
          · exact run_firstItem item _ _
          · simp
      rw [started, run_append, run_items each (by simp) room, within_bind]
      show within _ (run [.closeArray] _) = _
      rw [run_closeArray, append_nil, reverse_reverse]
  rw [opened, within_congr inside, within_within, depth]
  congr 1
  omega

/-! ## Objects -/

variable {members : List (String × Json)}

/-- Members are added to their object one by one. -/
theorem run_members (each : ∀ member ∈ members, Assembles member.2) (nonempty : members ≠ [])
    (room : openContainers stack + 1 < nestingLimit) (done : List (String × Json)) :
    run (memberLexemes members) ⟨.object done :: stack, .nextMember⟩ =
      within (openContainers stack + 1 + membersDepth members)
        (.ok ⟨.object (members.reverse ++ done) :: stack, .after⟩) := by
  induction members generalizing done with
  | nil => exact absurd rfl nonempty
  | cons member rest ih =>
    obtain ⟨name, value⟩ := member
    obtain ⟨ofValue, ofRest⟩ := forall_mem_cons.mp each
    have own := ofValue (.member name :: .object done :: stack)
      (by rwa [openContainers_member, openContainers_object])
    rw [openContainers_member, openContainers_object, complete] at own
    cases rest with
    | nil =>
      rw [memberLexemes, membersDepth, membersDepth, Nat.max_zero]
      exact own
    | cons next rest =>
      have others := ih ofRest (by simp) ((name, value) :: done)
      have added : ((name, value) :: next :: rest).reverse ++ done =
          (next :: rest).reverse ++ (name, value) :: done := by simp
      rw [memberLexemes]
      · show run (value.lexemes ++ _) ⟨.member name :: .object done :: stack, .value⟩ = _
        rw [run_append, own, within_bind]
        show within _ (run (memberLexemes (next :: rest))
          ⟨.object ((name, value) :: done) :: stack, .nextMember⟩) = _
        rw [others, within_within, Nat.add_max_add_left, added]
        rfl
      · simp

theorem run_closeObject (distinct : (members.map Prod.fst).Nodup) :
    run [.closeObject] ⟨.object members.reverse :: stack, .after⟩ =
      complete stack (.object members) := by
  show complete stack (.ofMembers members.reverse.reverse) >>= pure = _
  rw [reverse_reverse, ofMembers_of_nodup distinct]
  exact bind_pure _

/-- An object is handed on when it is closed, if its names differ. -/
theorem Assembles.object (distinct : (members.map Prod.fst).Nodup)
    (each : ∀ member ∈ members, Assembles member.2) : Assembles (.object members) := by
  intro stack _
  have opened : run (Json.object members).lexemes ⟨stack, .value⟩ =
      within (openContainers stack + 1)
        (run (memberLexemes members ++ [.closeObject]) ⟨.object [] :: stack, .firstMember⟩) := by
    rw [lexemes, run_cons]
    show openFrame stack (.object []) .firstMember >>= _ = _
    rw [openFrame_eq, within_bind]
    rfl
  have inside : openContainers stack + 1 < nestingLimit →
      run (memberLexemes members ++ [.closeObject]) ⟨.object [] :: stack, .firstMember⟩ =
        within (openContainers stack + 1 + membersDepth members)
          (complete stack (.object members)) := by
    intro room
    cases members with
    | nil =>
      rw [membersDepth, Nat.add_zero, within_of_lt room]
      exact run_closeObject distinct
    | cons member rest =>
      have started : run (memberLexemes (member :: rest) ++ [.closeObject])
          ⟨.object [] :: stack, .firstMember⟩ =
            run (memberLexemes (member :: rest) ++ [.closeObject])
              ⟨.object [] :: stack, .nextMember⟩ := by
        cases rest <;> rfl
      rw [started, run_append, run_members each (by simp) room, within_bind, append_nil]
      exact congrArg (within _) (run_closeObject distinct)
  rw [opened, within_congr inside, within_within, depth]
  congr 1
  omega

/-! ## Values -/

/-- Values without repeated names are put together. -/
theorem assembles_of_distinct (distinct : value.DistinctNames) : Assembles value := by
  induction value using Json.induction with
  | null | bool _ | number _ | string _ => exact assembles_scalar rfl rfl
  | array items ih =>
    exact .array fun item member => ih item member (distinct.of_item member)
  | object members ih =>
    refine .object (distinct members .whole) fun member isMember => ?_
    exact ih member isMember (Every.of_member distinct isMember)

/-- The lexemes of a value are the value, if it is not nested too deep. -/
theorem assemble_lexemes (distinct : value.DistinctNames) :
    assemble .lastWins value.lexemes = within value.depth (.ok value) := by
  show run value.lexemes ⟨[], .value⟩ >>= result = _
  rw [assembles_of_distinct distinct [] (by decide), within_bind,
    show openContainers [] = 0 from rfl, Nat.zero_add]
  rfl

end SchemaLang.Json
