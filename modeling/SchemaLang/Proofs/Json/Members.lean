import Mathlib.Data.List.Induction
import SchemaLang.Proofs.Json.Numbers

/-!
# Members of objects

Objects are made by setting members one after the other. Setting a new name adds a member
at the end, and setting a member to the value it has changes nothing; so an object made of
members with different names is the list of these members.

The measures of values follow their parts: a part is less deep than the whole, and a whole
has at least as many values as its parts together.
-/

namespace SchemaLang.Json

open List

variable {name : String}

/-- What is found under a name is a member. -/
theorem mem_of_lookup {α : Type} {members : List (String × α)} {value : α}
    (found : members.lookup name = some value) : (name, value) ∈ members := by
  obtain ⟨before, after, rfl, _⟩ := lookup_eq_some_iff.mp found
  simp

/-- Where names are different, a member is what is found under its name. -/
theorem lookup_of_mem {α : Type} {members : List (String × α)}
    (distinct : (members.map Prod.fst).Nodup) {value : α}
    (member : (name, value) ∈ members) : members.lookup name = some value := by
  induction members with
  | nil => cases member
  | cons first rest ih =>
    rw [map_cons, nodup_cons] at distinct
    rcases mem_cons.mp member with rfl | later
    · simp
    · have differs : name ≠ first.1 := by
        rintro rfl
        exact distinct.1 (mem_map.mpr ⟨_, later, rfl⟩)
      rw [lookup_cons, beq_false_of_ne differs]
      exact ih distinct.2 later

/-- Nothing is found under a name exactly when no member has it. -/
theorem lookup_eq_none_iff {α : Type} {members : List (String × α)} {name : String} :
    members.lookup name = none ↔ name ∉ members.map Prod.fst := by
  rw [List.lookup_eq_none_iff]
  constructor
  · intro differs member
    obtain ⟨pair, found, rfl⟩ := mem_map.mp member
    simpa using differs pair found
  · intro absent pair member
    have differs : name ≠ pair.1 := fun same => absent (same ▸ mem_map_of_mem member)
    simpa using differs

/-- Setting a member to the value it has changes nothing. -/
theorem insertMember_same {members : List (String × Json)} {value : Json}
    (found : members.lookup name = some value) : insertMember name value members = members := by
  induction members with
  | nil => cases found
  | cons first rest ih =>
    unfold insertMember
    by_cases same : first.1 = name
    · rw [if_pos same]
      rw [lookup_cons, same, BEq.rfl] at found
      rw [← Option.some.inj found, ← same]
    · rw [if_neg same]
      rw [lookup_cons, beq_false_of_ne (Ne.symm same)] at found
      rw [ih found]

/-- Setting a name that is not there adds a member at the end. -/
theorem insertMember_new {members : List (String × Json)} {value : Json}
    (absent : members.lookup name = none) :
    insertMember name value members = members ++ [(name, value)] := by
  induction members with
  | nil => rfl
  | cons first rest ih =>
    have differs : first.1 ≠ name := by
      rintro rfl
      simp at absent
    rw [lookup_cons, beq_false_of_ne (Ne.symm differs)] at absent
    rw [insertMember, if_neg differs, ih absent, cons_append]

/-- An object of members with different names has these members. -/
theorem ofMembers_of_nodup {members : List (String × Json)}
    (distinct : (members.map Prod.fst).Nodup) : ofMembers members = object members := by
  unfold ofMembers
  congr 1
  induction members using reverseRecOn with
  | nil => rfl
  | append_singleton members last ih =>
    rw [map_append, nodup_append] at distinct
    obtain ⟨before, _, apart⟩ := distinct
    rw [foldl_append, ih before]
    refine insertMember_new (lookup_eq_none_iff.mpr fun member => ?_)
    exact apart _ member _ (by simp) rfl

/-! ## Values that are identical only to themselves -/

/-- No other value is identical to this one. -/
def Rigid (value : Json) : Prop := ∀ other : Json, other.identical value = true → other = value

theorem rigid_string (text : String) : Rigid (.string text) := by
  intro other same
  cases other with
  | string written => simpa [identical, agrees] using same
  | _ => simp [identical, agrees] at same

theorem rigid_integer (value : Int) : Rigid (.number (.integer value)) := by
  intro other same
  cases other with
  | number written =>
    cases written with
    | integer number => simpa [identical, agrees, JsonNumber.identical] using same
    | double number => simp [identical, agrees, JsonNumber.identical] at same
  | _ => simp [identical, agrees] at same

theorem rigid_ofDouble (value : Double) : Rigid (.ofDouble value) := by
  intro other same
  unfold ofDouble at same ⊢
  split at same
  · rename_i isFinite
    cases other with
    | number written =>
      have inner : written.identical (.ofDouble value) = true := by
        simpa [identical, agrees] using same
      rw [if_pos isFinite, JsonNumber.identical_ofDouble inner]
    | _ => simp [identical, agrees] at same
  · rename_i isInfinite
    rw [if_neg isInfinite]
    cases other with
    | null => rfl
    | _ => simp [identical, agrees] at same

theorem rigid_array {items : List Json} (rigid : ∀ item ∈ items, Rigid item) :
    Rigid (.array items) := by
  have itemwise : ∀ others, itemsAgree JsonNumber.identical others items = true →
      others = items := by
    induction items with
    | nil =>
      intro others same
      cases others with
      | nil => rfl
      | cons other rest => simp [itemsAgree] at same
    | cons item items ih =>
      intro others same
      cases others with
      | nil => simp [itemsAgree] at same
      | cons other rest =>
        simp only [itemsAgree, Bool.and_eq_true] at same
        rw [rigid item mem_cons_self other same.1,
          ih (fun other member => rigid other (mem_cons_of_mem _ member))
            rest same.2]
  intro other same
  cases other with
  | array written => rw [itemwise written (by simpa [identical, agrees] using same)]
  | _ => simp [identical, agrees] at same

/-! ## Measures -/

/-- A member is less deep than its object. -/
theorem depth_lt_of_mem_members {members : List (String × Json)} {value : Json}
    (member : (name, value) ∈ members) : value.depth < (object members).depth := by
  have bounded : value.depth ≤ membersDepth members := by
    induction members with
    | nil => cases member
    | cons first rest ih =>
      obtain ⟨firstName, firstValue⟩ := first
      simp only [membersDepth]
      rcases mem_cons.mp member with same | later
      · rw [(Prod.mk.inj same).2]
        exact le_max_left _ _
      · exact (ih later).trans (le_max_right _ _)
  simp only [depth]
  omega

/-- An item is less deep than its list. -/
theorem depth_lt_of_mem_items {items : List Json} {item : Json} (member : item ∈ items) :
    item.depth < (array items).depth := by
  have bounded : item.depth ≤ itemsDepth items := by
    induction items with
    | nil => cases member
    | cons first rest ih =>
      simp only [itemsDepth]
      rcases mem_cons.mp member with rfl | later
      · exact le_max_left _ _
      · exact (ih later).trans (le_max_right _ _)
  simp only [depth]
  omega

theorem membersSize_append (first second : List (String × Json)) :
    membersSize (first ++ second) = membersSize first + membersSize second := by
  induction first with
  | nil => simp [membersSize]
  | cons member rest ih =>
    obtain ⟨name, value⟩ := member
    simp only [cons_append, membersSize, ih]
    omega

/-- Every value counts itself. -/
theorem size_pos (value : Json) : 0 < value.size := by
  cases value <;> simp [size]

/-- The members together are at least as large as one of them. -/
theorem size_le_membersSize {members : List (String × Json)} {value : Json}
    (member : (name, value) ∈ members) : value.size ≤ membersSize members := by
  induction members with
  | nil => cases member
  | cons first rest ih =>
    obtain ⟨firstName, firstValue⟩ := first
    simp only [membersSize]
    rcases mem_cons.mp member with same | later
    · rw [(Prod.mk.inj same).2]
      omega
    · have bounded := ih later
      omega

/-- There are at least as many values in members as there are members. -/
theorem length_le_membersSize (members : List (String × Json)) :
    members.length ≤ membersSize members := by
  induction members with
  | nil => simp
  | cons first rest ih =>
    obtain ⟨name, value⟩ := first
    have positive := size_pos value
    simp only [length_cons, membersSize]
    omega

end SchemaLang.Json
