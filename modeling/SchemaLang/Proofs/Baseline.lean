import Mathlib.Data.List.Perm.Subperm
import SchemaLang.Baseline
import SchemaLang.Proofs.Json.Parts
import SchemaLang.Proofs.Outcome
import SchemaLang.Proofs.Text.Bytes

/-!
# Comparison with a baseline

The report on two documents is the difference of their properties, looked at from both sides. What
it says is told here by an equality of values that does not mention how values are compared: objects
are the same if they have the same names, and the same values under each of them. The names are
reported in the order of their bytes. This is the order of their characters, since a character with
a greater code has greater bytes.
-/

namespace SchemaLang

open Outcome List

/-! ## Equality of values -/

theorem Double.same_comm (first second : Double) : first.same second = second.same first := by
  cases first <;> cases second <;> simp only [Double.same, Bool.beq_comm]

namespace Json

/-- Two values are the same: of one kind, with the same content. The order of members does not
count, at any depth. -/
inductive Same : Json → Json → Prop where
  | null : Same .null .null
  | bool {value : Bool} : Same (.bool value) (.bool value)
  | integer {value : Int} : Same (.number (.integer value)) (.number (.integer value))
  | double {value other : Double} (same : value.same other = true) :
      Same (.number (.double value)) (.number (.double other))
  | string {text : String} : Same (.string text) (.string text)
  | array {items others : List Json} (each : Forall₂ Same items others) :
      Same (.array items) (.array others)
  | object {members others : List (String × Json)}
      (names : ∀ name, name ∈ members.map Prod.fst ↔ name ∈ others.map Prod.fst)
      (values : ∀ name value other, (name, value) ∈ members → (name, other) ∈ others →
        Same value other) : Same (.object members) (.object others)

variable {numbers : JsonNumber → JsonNumber → Bool}

theorem itemsAgree_iff {items others : List Json} : itemsAgree numbers items others = true ↔
    Forall₂ (fun item other => agrees numbers item other = true) items others := by
  induction items generalizing others with
  | nil => cases others <;> simp [itemsAgree]
  | cons item items ih => cases others <;> simp [itemsAgree, ih]

theorem membersAgree_iff {members others : List (String × Json)} :
    membersAgree numbers members others = true ↔ ∀ name value, (name, value) ∈ members →
      ∃ other, others.lookup name = some other ∧ agrees numbers value other = true := by
  induction members with
  | nil => simp [membersAgree]
  | cons member members ih =>
    obtain ⟨name, value⟩ := member
    rw [membersAgree, Bool.and_eq_true, ih]
    simp only [mem_cons, Prod.mk.injEq, or_imp, forall_and, and_imp]
    refine and_congr_left fun _ => ?_
    rw [forall_comm]
    cases found : others.lookup name with
    | none | some _ => simp [found]

/-- The comparison of documents decides whether they are the same. -/
theorem identical_iff {value other : Json} (distinct : value.DistinctNames)
    (alsoDistinct : other.DistinctNames) : value.identical other = true ↔ Same value other := by
  unfold identical
  induction value using Json.induction generalizing other with
  | null =>
    cases other with
    | null => exact iff_of_true rfl .null
    | _ => exact iff_of_false (by simp [agrees]) (by rintro ⟨⟩)
  | bool value =>
    cases other with
    | bool other =>
      rw [agrees, beq_iff_eq]
      exact ⟨fun same => same ▸ .bool, by rintro ⟨⟩; rfl⟩
    | _ => exact iff_of_false (by simp [agrees]) (by rintro ⟨⟩)
  | number value =>
    cases other with
    | number other =>
      rw [agrees]
      cases value <;> cases other
      · rw [JsonNumber.identical, beq_iff_eq]
        exact ⟨fun same => same ▸ .integer, by rintro ⟨⟩; rfl⟩
      · exact iff_of_false (by simp [JsonNumber.identical]) (by rintro ⟨⟩)
      · exact iff_of_false (by simp [JsonNumber.identical]) (by rintro ⟨⟩)
      · refine ⟨.double, fun same => ?_⟩
        cases same with
        | double agreed => exact agreed
    | _ => exact iff_of_false (by simp [agrees]) (by rintro ⟨⟩)
  | string text =>
    cases other with
    | string other =>
      rw [agrees, beq_iff_eq]
      exact ⟨fun same => same ▸ .string, by rintro ⟨⟩; rfl⟩
    | _ => exact iff_of_false (by simp [agrees]) (by rintro ⟨⟩)
  | array items ih =>
    cases other with
    | array others =>
      have each : ∀ item ∈ items, ∀ other ∈ others,
          (agrees JsonNumber.identical item other = true ↔ Same item other) :=
        fun item member other alsoMember =>
          ih item member (distinct.of_item member) (alsoDistinct.of_item alsoMember)
      rw [agrees, itemsAgree_iff, forall₂_iff_of_mem each]
      refine ⟨.array, fun same => ?_⟩
      cases same with
      | array itemwise => exact itemwise
    | _ => exact iff_of_false (by simp [agrees]) (by rintro ⟨⟩)
  | object members ih =>
    cases other with
    | object others =>
      have ownNames := distinct members .whole
      have otherNames := alsoDistinct others .whole
      rw [agrees, Bool.and_eq_true, beq_iff_eq, membersAgree_iff]
      constructor
      · rintro ⟨long, found⟩
        have among : members.map Prod.fst ⊆ others.map Prod.fst := by
          intro name listed
          obtain ⟨member, inside, rfl⟩ := mem_map.mp listed
          obtain ⟨other, isOther, _⟩ := found member.1 member.2 inside
          exact mem_map.mpr ⟨_, mem_of_lookup isOther, rfl⟩
        have sameNames := (ownNames.subperm among).perm_of_length_le (by simp [long])
        refine .object (fun _ => sameNames.mem_iff) fun name value other own its => ?_
        obtain ⟨same, isSame, agreed⟩ := found name value own
        rw [lookup_of_mem otherNames its] at isSame
        obtain rfl := Option.some.inj isSame
        exact (ih (name, value) own (distinct.of_member own) (alsoDistinct.of_member its)).mp agreed
      · intro same
        cases same with
        | object names values =>
          have sameNames := (perm_ext_iff_of_nodup ownNames otherNames).mpr names
          refine ⟨by simpa using sameNames.length_eq, fun name value own => ?_⟩
          obtain ⟨member, its, rfl⟩ := mem_map.mp ((names name).mp (mem_map.mpr ⟨_, own, rfl⟩))
          refine ⟨member.2, lookup_of_mem otherNames its, ?_⟩
          exact (ih _ own (distinct.of_member own) (alsoDistinct.of_member its)).mpr
            (values _ _ _ own its)
    | _ => exact iff_of_false (by simp [agrees]) (by rintro ⟨⟩)

theorem Same.symm {value other : Json} (same : Same value other) : Same other value := by
  induction value using Json.induction generalizing other with
  | array items ih =>
    cases same with
    | array each =>
      exact .array (forall₂_imp each fun item member _ sameItem => ih item member sameItem).flip
  | object members ih =>
    cases same with
    | object names values =>
      exact .object (fun name => (names name).symm) fun name other value its own =>
        ih _ own (values name value other own its)
  | number value =>
    cases same with
    | integer => exact .integer
    | double agreed => exact .double (Double.same_comm _ _ ▸ agreed)
  | _ =>
    cases same
    constructor

end Json

namespace BaselineReport

open Json

variable {members others : List (String × Json)} {name : String}

/-! ## The lists of a report -/

theorem mem_sortedNames : name ∈ sortedNames members ↔ name ∈ members.map Prod.fst :=
  (mergeSort_perm _ _).mem_iff

/-- Different names are sorted without repetitions. -/
theorem sortedNames_increasing (distinct : (members.map Prod.fst).Nodup) :
    (sortedNames members).Pairwise (· < ·) := by
  have sorted : (sortedNames members).Pairwise fun first second =>
      decide (first ≤ second) = true := by
    refine pairwise_mergeSort (fun first second third below above => ?_) (fun first second => ?_) _
    · simp only [decide_eq_true_eq] at below above ⊢
      exact String.le_trans below above
    · simpa using String.le_total first second
  have apart : (sortedNames members).Nodup := (mergeSort_perm _ _).nodup_iff.mpr distinct
  refine (sorted.and apart).imp fun {first second} both => ?_
  have notAbove : ¬ second ≤ first := fun above =>
    both.2 (String.le_antisymm (of_decide_eq_true both.1) above)
  exact String.not_le.mp notAbove

/-- Increasing lists with the same members are the same. -/
theorem eq_of_increasing {first second : List String} (increasing : first.Pairwise (· < ·))
    (alsoIncreasing : second.Pairwise (· < ·)) (same : ∀ name, name ∈ first ↔ name ∈ second) :
    first = second := by
  have apart : ∀ {names : List String}, names.Pairwise (· < ·) → names.Nodup :=
    fun ordered => ordered.imp fun less => String.ne_of_lt less
  have perm := (perm_ext_iff_of_nodup (apart increasing) (apart alsoIncreasing)).mpr same
  refine perm.eq_of_pairwise (fun _ _ _ _ below above => ?_) increasing alsoIncreasing
  exact absurd below (String.lt_asymm above)

theorem mem_missing : name ∈ missing members others ↔
    name ∈ members.map Prod.fst ∧ name ∉ others.map Prod.fst := by
  rw [missing, mem_filter, mem_sortedNames, Option.isNone_iff_eq_none, lookup_eq_none_iff]

/-- A name has different values exactly if it is in both lists and these are not the same. -/
theorem differs_iff (distinct : (object members).DistinctNames)
    (alsoDistinct : (object others).DistinctNames) : differs members others name = true ↔
      ∃ value other, (name, value) ∈ members ∧ (name, other) ∈ others ∧ ¬ Same value other := by
  have own := distinct members .whole
  have its := alsoDistinct others .whole
  constructor
  · intro differ
    unfold differs at differ
    cases found : members.lookup name with
    | none => simp [found] at differ
    | some value =>
      cases alsoFound : others.lookup name with
      | none => simp [found, alsoFound] at differ
      | some other =>
        have member := mem_of_lookup found
        have alsoMember := mem_of_lookup alsoFound
        refine ⟨value, other, member, alsoMember, fun same => ?_⟩
        rw [← identical_iff (distinct.of_member member) (alsoDistinct.of_member alsoMember)] at same
        simp [found, alsoFound, same] at differ
  · rintro ⟨value, other, member, alsoMember, notSame⟩
    rw [← identical_iff (distinct.of_member member) (alsoDistinct.of_member alsoMember)] at notSame
    simp [differs, lookup_of_mem own member, lookup_of_mem its alsoMember, notSame]

theorem mem_changed (distinct : (object members).DistinctNames)
    (alsoDistinct : (object others).DistinctNames) :
    name ∈ (sortedNames members).filter (differs members others) ↔
      ∃ value other, (name, value) ∈ members ∧ (name, other) ∈ others ∧ ¬ Same value other := by
  rw [mem_filter, mem_sortedNames, differs_iff distinct alsoDistinct, and_iff_right_iff_imp]
  rintro ⟨value, _, member, _⟩
  exact mem_map.mpr ⟨_, member, rfl⟩

/-- The properties of a document have different names, and so have all objects inside them. -/
theorem properties_distinct {document : Json} (distinct : document.DistinctNames) :
    (object (properties document)).DistinctNames := by
  unfold properties
  split
  · rename_i inner found
    cases document with
    | object all => exact distinct.of_member (mem_of_lookup found)
    | _ => cases found
  · exact .object nodup_nil (by simp)

/-! ## The report -/

/-- The report on two documents is an exact difference of their properties. Its lists are
increasing in the order of bytes and have no name in common. A name is added if it is one of the
new properties only, removed if it is one of the old ones only, and changed if it is one of both
with values that are not the same. Exchanging the documents exchanges what is added and removed, and
the report is empty exactly if the properties are the same. -/
theorem compare_exact (document baseline : Json) (distinct : document.DistinctNames)
    (alsoDistinct : baseline.DistinctNames) :
    ∃ added removed changed, compare document baseline = ⟨added, removed, changed⟩ ∧
      compare baseline document = ⟨removed, added, changed⟩ ∧
      (∀ names ∈ [added, removed, changed],
        names.Pairwise fun first second => Text.bytes first < Text.bytes second) ∧
      added.Disjoint removed ∧ added.Disjoint changed ∧ removed.Disjoint changed ∧
      (∀ name, name ∈ added ↔ name ∈ (properties document).map Prod.fst ∧
        name ∉ (properties baseline).map Prod.fst) ∧
      (∀ name, name ∈ removed ↔ name ∈ (properties baseline).map Prod.fst ∧
        name ∉ (properties document).map Prod.fst) ∧
      (∀ name, name ∈ changed ↔ ∃ value other, (name, value) ∈ properties document ∧
        (name, other) ∈ properties baseline ∧ ¬ Same value other) ∧
      ((compare document baseline).isEmpty = true ↔
        Same (.object (properties document)) (.object (properties baseline))) := by
  have new := properties_distinct distinct
  have old := properties_distinct alsoDistinct
  have newOrder := sortedNames_increasing (new _ .whole)
  have oldOrder := sortedNames_increasing (old _ .whole)
  have bytewise : ∀ {names : List String}, names.Pairwise (· < ·) →
      names.Pairwise fun first second => Text.bytes first < Text.bytes second :=
    fun increasing => increasing.imp Text.bytes_lt
  have isAdded : ∀ name, name ∈ missing (properties document) (properties baseline) ↔ _ :=
    fun name => mem_missing
  have isRemoved : ∀ name, name ∈ missing (properties baseline) (properties document) ↔ _ :=
    fun name => mem_missing
  have isChanged : ∀ name, name ∈ (sortedNames (properties document)).filter _ ↔ _ :=
    fun name => mem_changed new old
  have nameOf : ∀ {members : List (String × Json)} {name value}, (name, value) ∈ members →
      name ∈ members.map Prod.fst := fun member => mem_map.mpr ⟨_, member, rfl⟩
  refine ⟨_, _, _, rfl, ?_, ?_, ?_, ?_, ?_, isAdded, isRemoved, isChanged, ?_⟩
  · refine congrArg (BaselineReport.mk _ _) ?_
    refine eq_of_increasing (oldOrder.filter _) (newOrder.filter _) fun name => ?_
    rw [mem_changed old new, mem_changed new old]
    constructor
    · rintro ⟨value, other, member, alsoMember, notSame⟩
      exact ⟨other, value, alsoMember, member, fun same => notSame same.symm⟩
    · rintro ⟨value, other, member, alsoMember, notSame⟩
      exact ⟨other, value, alsoMember, member, fun same => notSame same.symm⟩
  · simp only [forall_mem_cons, not_mem_nil]
    exact ⟨bytewise (newOrder.filter _), bytewise (oldOrder.filter _),
      bytewise (newOrder.filter _), by simp⟩
  · intro name added removed
    exact ((isAdded name).mp added).2 ((isRemoved name).mp removed).1
  · intro name added changed
    obtain ⟨_, _, _, member, _⟩ := (isChanged name).mp changed
    exact ((isAdded name).mp added).2 (nameOf member)
  · intro name removed changed
    obtain ⟨_, _, member, _⟩ := (isChanged name).mp changed
    exact ((isRemoved name).mp removed).2 (nameOf member)
  · rw [BaselineReport.isEmpty, isCompatible, Bool.and_eq_true, Bool.and_eq_true]
    simp only [List.isEmpty_iff, eq_nil_iff_forall_not_mem]
    constructor
    · rintro ⟨noneAdded, noneRemoved, noneChanged⟩
      refine .object (fun name => ⟨fun own => ?_, fun its => ?_⟩) fun name value other own its => ?_
      · by_contra absent
        exact noneAdded name ((isAdded name).mpr ⟨own, absent⟩)
      · by_contra absent
        exact noneRemoved name ((isRemoved name).mpr ⟨its, absent⟩)
      · by_contra notSame
        exact noneChanged name ((isChanged name).mpr ⟨value, other, own, its, notSame⟩)
    · intro same
      cases same with
      | object names values =>
        refine ⟨fun name added => ?_, fun name removed => ?_, fun name changed => ?_⟩
        · exact ((isAdded name).mp added).2 ((names name).mp ((isAdded name).mp added).1)
        · exact ((isRemoved name).mp removed).2 ((names name).mpr ((isRemoved name).mp removed).1)
        · obtain ⟨value, other, own, its, notSame⟩ := (isChanged name).mp changed
          exact notSame (values name value other own its)

/-- A document with the properties of the given names and values. -/
def documentOf (values : List (String × Bool)) : Json :=
  .object [("properties", .object (values.map fun named => (named.1, .bool named.2)))]

theorem documentOf_distinct {values : List (String × Bool)}
    (distinct : (values.map Prod.fst).Nodup) : (documentOf values).DistinctNames := by
  refine .object (by simp) (forall_mem_singleton.mpr (.object ?_ ?_))
  · rwa [map_map]
  · exact forall_mem_map.mpr fun named _ => .bool named.2

/-- A property of each kind, seen from both sides. -/
theorem documentOf_compared :
    ∃ added removed changed,
      compare (documentOf [("turned", true), ("é", true)])
        (documentOf [("gone", true), ("turned", false)]) = ⟨added, removed, changed⟩ ∧
      compare (documentOf [("gone", true), ("turned", false)])
        (documentOf [("turned", true), ("é", true)]) = ⟨removed, added, changed⟩ ∧
      "é" ∈ added ∧ "gone" ∈ removed ∧ "turned" ∈ changed := by
  obtain ⟨added, removed, changed, report, dual, _, _, _, _, isAdded, isRemoved, isChanged, _⟩ :=
    compare_exact (documentOf [("turned", true), ("é", true)])
      (documentOf [("gone", true), ("turned", false)])
      (documentOf_distinct (by decide)) (documentOf_distinct (by decide))
  refine ⟨added, removed, changed, report, dual, (isAdded "é").mpr (by decide),
    (isRemoved "gone").mpr (by decide), (isChanged "turned").mpr ?_⟩
  exact ⟨.bool true, .bool false, mem_cons_self, mem_cons_of_mem _ mem_cons_self, by rintro ⟨⟩⟩

end BaselineReport

end SchemaLang
