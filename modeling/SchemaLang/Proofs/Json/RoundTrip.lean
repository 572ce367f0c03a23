import Mathlib.Data.List.TakeWhile
import SchemaLang.Proofs.Json.Assembly
import SchemaLang.Proofs.Outcome

/-!
# Reading what was written

A value without repeated names that is written and read back is the same value with its numbers
reread, unless it is nested too deep for the reader. Integers of 64 bits come back as they are. So
a value comes back unchanged exactly if it is not too deep and all its other numbers do.
-/

namespace SchemaLang.Json

open Outcome List

/-! ## Rereading -/

theorem rereadItems_eq_mapM (items : List Json) : rereadItems items = items.mapM reread := by
  induction items with
  | nil => rfl
  | cons item rest ih => rw [rereadItems, mapM_cons, ih]

theorem rereadMembers_eq_mapM (members : List (String × Json)) :
    rereadMembers members = members.mapM fun member => do
      return (member.1, ← reread member.2) := by
  induction members with
  | nil => rfl
  | cons member rest ih =>
    rw [rereadMembers, mapM_cons, ih]
    cases reread member.2 <;> rfl

variable {found : Json}

/-- The items of a list are reread one by one. -/
theorem reread_array_ok_iff {items : List Json} :
    reread (.array items) = .ok found ↔
      ∃ rest, Forall₂ (fun item other => reread item = .ok other) items rest ∧
        found = .array rest := by
  rw [reread, bind_ok_iff, rereadItems_eq_mapM]
  constructor
  · rintro ⟨rest, mapped, same⟩
    exact ⟨rest, mapM_ok_iff.mp mapped, (Except.ok.inj same).symm⟩
  · rintro ⟨rest, pairwise, rfl⟩
    exact ⟨rest, mapM_ok_iff.mpr pairwise, rfl⟩

/-- The members of an object are reread one by one and keep their names. -/
theorem reread_object_ok_iff {members : List (String × Json)} :
    reread (.object members) = .ok found ↔
      ∃ rest, Forall₂ (fun member other => member.1 = other.1 ∧ reread member.2 = .ok other.2)
        members rest ∧ found = .object rest := by
  have memberwise : ∀ member other : String × Json,
      (do return (member.1, ← reread member.2) : Except Fault (String × Json)) = .ok other ↔
        member.1 = other.1 ∧ reread member.2 = .ok other.2 := by
    intro member other
    cases reread member.2 with
    | error fault => simp [bind, Except.bind]
    | ok value => simp [bind, Except.bind, pure, Except.pure, Prod.ext_iff]
  rw [reread, bind_ok_iff, rereadMembers_eq_mapM]
  constructor
  · rintro ⟨rest, mapped, same⟩
    refine ⟨rest, forall₂_imp (mapM_ok_iff.mp mapped) ?_, (Except.ok.inj same).symm⟩
    exact fun member _ other done => (memberwise member other).mp done
  · rintro ⟨rest, pairwise, rfl⟩
    refine ⟨rest, mapM_ok_iff.mpr (forall₂_imp pairwise ?_), rfl⟩
    exact fun member _ other done => (memberwise member other).mpr done

theorem itemsDepth_eq_foldr (items : List Json) :
    itemsDepth items = (items.map depth).foldr max 0 := by
  induction items with
  | nil => rfl
  | cons item rest ih =>
    rw [itemsDepth, map_cons, foldr_cons, ih]

theorem membersDepth_eq_foldr (members : List (String × Json)) :
    membersDepth members = (members.map fun member => member.2.depth).foldr max 0 := by
  induction members with
  | nil => rfl
  | cons member rest ih =>
    rw [membersDepth, map_cons, foldr_cons, ih]

variable {value : Json}

/-- Rereading does not change how deep a value is nested. -/
theorem depth_reread (done : reread value = .ok found) : value.depth = found.depth := by
  induction value using Json.induction generalizing found with
  | null | bool _ | string _ => cases done; rfl
  | number value => rcases rereadNumber_ok done with rfl | ⟨number, rfl⟩ <;> rfl
  | array items ih =>
    obtain ⟨rest, pairwise, rfl⟩ := reread_array_ok_iff.mp done
    have depths : items.map depth = rest.map depth :=
      map_eq_of_forall₂ (forall₂_imp pairwise fun item member other same =>
        ih item member same) fun _ _ same => same
    rw [depth, depth, itemsDepth_eq_foldr, itemsDepth_eq_foldr, depths]
  | object members ih =>
    obtain ⟨rest, pairwise, rfl⟩ := reread_object_ok_iff.mp done
    have depths : (members.map fun member => member.2.depth) =
        rest.map fun member => member.2.depth :=
      map_eq_of_forall₂ (forall₂_imp pairwise fun member isMember other same =>
        ih member isMember same.2) fun _ _ same => same
    rw [depth, depth, membersDepth_eq_foldr, membersDepth_eq_foldr, depths]

/-- Rereading does not change names. -/
theorem DistinctNames.reread (distinct : value.DistinctNames) (done : value.reread = .ok found) :
    found.DistinctNames := by
  induction value using Json.induction generalizing found with
  | null | bool _ | string _ => cases done; exact distinct
  | number value =>
    rcases rereadNumber_ok done with rfl | ⟨number, rfl⟩ <;> rintro members ⟨⟩
  | array items ih =>
    obtain ⟨rest, pairwise, rfl⟩ := reread_array_ok_iff.mp done
    refine .array fun other isOther => ?_
    obtain ⟨item, member, same⟩ := exists_left pairwise isOther
    exact ih item member (distinct.of_item member) same
  | object members ih =>
    obtain ⟨rest, pairwise, rfl⟩ := reread_object_ok_iff.mp done
    have names : members.map Prod.fst = rest.map Prod.fst :=
      map_eq_of_forall₂ pairwise fun _ _ same => same.1
    refine .object (names ▸ distinct members .whole) fun other isOther => ?_
    obtain ⟨member, isMember, _, same⟩ := exists_left pairwise isOther
    exact ih member isMember (Every.of_member distinct isMember) same

/-- A value is reread as itself exactly if all numbers in it are. -/
theorem reread_eq_self_iff :
    reread value = .ok value ↔
      ∀ number, Part (.number number) value → rereadNumber number = .ok (.number number) := by
  induction value using Json.induction with
  | null | bool _ | string _ => exact ⟨fun _ _ part => (nomatch part), fun _ => rfl⟩
  | number value =>
    refine ⟨fun same number part => ?_, fun each => each value .whole⟩
    cases part
    exact same
  | array items ih =>
    have itemwise : reread (.array items) = .ok (.array items) ↔
        ∀ item ∈ items, reread item = .ok item := by
      rw [reread_array_ok_iff]
      simp [forall₂_same]
    rw [itemwise]
    constructor
    · intro each number part
      cases part with
      | item member inside => exact (ih _ member).mp (each _ member) number inside
    · intro each item member
      refine (ih item member).mpr fun number inside => ?_
      exact each number (.item member inside)
  | object members ih =>
    have memberwise : reread (.object members) = .ok (.object members) ↔
        ∀ member ∈ members, reread member.2 = .ok member.2 := by
      rw [reread_object_ok_iff]
      simp [forall₂_same]
    rw [memberwise]
    constructor
    · intro each number part
      cases part with
      | member isMember inside =>
        exact (ih _ isMember).mp (each _ isMember) number inside
    · intro each member isMember
      refine (ih member isMember).mpr fun number inside => ?_
      exact each number (.member isMember inside)

/-! ## Reading a written value -/

variable {value : Json}

/-- What reading a written value gives. -/
theorem read_indented (distinct : value.DistinctNames) :
    read value.indented = reread value >>= fun found => within value.depth (.ok found) := by
  show lexFrom .start value.indented.toList >>= assemble .lastWins = _
  rw [lexFrom_indented]
  cases done : reread value with
  | error fault => rfl
  | ok found =>
    show assemble .lastWins found.lexemes = within value.depth (.ok found)
    rw [assemble_lexemes (distinct.reread done), depth_reread done]

/-- A written value is read as itself exactly if it is not too deep and its numbers are. -/
theorem read_indented_eq_self_iff (distinct : value.DistinctNames) :
    read value.indented = .ok value ↔ value.depth < nestingLimit ∧
      ∀ number, Part (.number number) value → rereadNumber number = .ok (.number number) := by
  rw [read_indented distinct, bind_ok_iff, ← reread_eq_self_iff]
  constructor
  · rintro ⟨found, done, placed⟩
    unfold within at placed
    split at placed
    · rename_i room
      exact ⟨room, Except.ok.inj placed ▸ done⟩
    · cases placed
  · rintro ⟨room, done⟩
    exact ⟨value, done, within_of_lt room _⟩

/-- A value that is nested too deep is not read. -/
theorem read_indented_of_deep (distinct : value.DistinctNames)
    (deep : nestingLimit ≤ value.depth) : ∃ fault, read value.indented = .error fault := by
  rw [read_indented distinct]
  cases reread value with
  | error fault => exact ⟨fault, rfl⟩
  | ok found => exact ⟨.nestedTooDeep, if_neg (by omega)⟩

/-! ## Integers -/

/-- The digits of a positive number do not start with a zero. -/
theorem head_decimalDigits {value : Nat} (positive : 0 < value) :
    (decimalDigits value).head? ≠ some '0' := by
  induction value using Nat.strong_induction_on with
  | h value ih =>
    rw [decimalDigits, Nat.toDigits_eq_if (by decide)]
    split
    · rename_i small
      simp
      omega
    · rename_i large
      have shorter := ih (value / 10) (by omega) (by omega)
      have nonempty := decimalDigits_ne_nil (value / 10)
      unfold decimalDigits at shorter nonempty
      rwa [head?_append_of_ne_nil _ nonempty]

namespace Numeral

/-- Digits without a needless zero are a numeral. -/
theorem ofChars?_digits {digits : List Char} (areDigits : ∀ c ∈ digits, c.isDigit = true)
    (nonempty : digits ≠ []) (noZero : digits = ['0'] ∨ digits.head? ≠ some '0') (negative : Bool) :
    ofChars? (Double.signChars negative ++ digits) = some ⟨negative, digits, [], 0, true⟩ := by
  have noSign : ∀ rest, digits ≠ '-' :: rest := by
    rintro rest rfl
    exact absurd (areDigits '-' mem_cons_self) (by decide)
  have whole : digits.takeWhile Char.isDigit = digits := takeWhile_eq_self_iff.mpr areDigits
  unfold ofChars?
  split
  rename_i sign body parts
  obtain ⟨rfl, rfl⟩ : sign = negative ∧ body = digits := by
    cases negative with
    | true => exact ⟨(Prod.mk.inj parts).1.symm, (Prod.mk.inj parts).2.symm⟩
    | false =>
      split at parts
      · rename_i rest isSigned
        exact absurd isSigned (noSign rest)
      · exact ⟨(Prod.mk.inj parts).1.symm, (Prod.mk.inj parts).2.symm⟩
  dsimp only
  rw [whole, drop_length]
  split
  · exact absurd rfl nonempty
  · rfl
  · rename_i first others isOther
    have allowed : first ≠ '0' := by
      rintro rfl
      rcases noZero with isZero | noZero
      · exact isOther rfl (cons.inj isZero).2
      · exact noZero rfl
    rw [if_neg (by simp [allowed])]
    rfl

end Numeral

/-- An integer that 64 bits hold is reread as itself. -/
theorem rereadNumber_integer {value : Int} (least : -2 ^ 63 ≤ value) (greatest : value < 2 ^ 64) :
    rereadNumber (.integer value) = .ok (.number (.integer value)) := by
  have magnitude : Double.digitsValue (decimalDigits value.natAbs) = value.natAbs :=
    Nat.ofDigitChars_toDigits (by decide) (by decide)
  have integer : Numeral.integer? ⟨value < 0, decimalDigits value.natAbs, [], 0, true⟩ =
      some value := by
    unfold Numeral.integer?
    simp only [magnitude, Bool.not_true, Bool.false_eq_true, if_false, decide_eq_true_eq]
    split
    · rename_i isNegative
      rw [if_pos (by simp; omega)]
      congr 1
      omega
    · rename_i nonnegative
      rw [if_pos (by simp; omega)]
      congr 1
      omega
  have numeral : Numeral.ofChars? (numberChars (.integer value)) =
      some ⟨value < 0, decimalDigits value.natAbs, [], 0, true⟩ := by
    rw [numberChars, toString_integer]
    refine Numeral.ofChars?_digits (fun c => isDigit_decimalDigits) (decimalDigits_ne_nil _) ?_ _
    rcases Nat.eq_zero_or_pos value.natAbs with isZero | positive
    · exact .inl (by rw [isZero]; rfl)
    · exact .inr (head_decimalDigits positive)
  show numeralValue (numberChars (.integer value)) = _
  rw [numeralValue, numeral]
  dsimp only
  rw [Numeral.value?, integer]

end SchemaLang.Json
