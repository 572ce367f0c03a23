import SchemaLang.Proofs.Json.Members

/-!
# Parts of values

Values hold values, at any depth. What holds of every object inside a value is shown for the
value itself and for its items and members.
-/

namespace SchemaLang.Json

open List

/-- Induction on a value, with the hypothesis for all its items or members. -/
@[elab_as_elim]
theorem induction {motive : Json → Prop} (null : motive .null)
    (bool : ∀ value, motive (.bool value)) (number : ∀ value, motive (.number value))
    (string : ∀ text, motive (.string text))
    (array : ∀ items, (∀ item ∈ items, motive item) → motive (.array items))
    (object : ∀ members, (∀ member ∈ members, motive member.2) → motive (.object members))
    (value : Json) : motive value := by
  refine @Json.rec motive (fun items => ∀ item ∈ items, motive item)
    (fun members => ∀ member ∈ members, motive member.2) (fun member => motive member.2)
    null bool number string array object ?_ ?_ ?_ ?_ ?_ value
  · simp
  · exact fun _ _ first rest => forall_mem_cons.mpr ⟨first, rest⟩
  · simp
  · exact fun _ _ first rest => forall_mem_cons.mpr ⟨first, rest⟩
  · exact fun _ _ inside => inside

/-- A value stands somewhere inside another one, or is that one. -/
inductive Part : Json → Json → Prop where
  | whole {value : Json} : Part value value
  | item {part item : Json} {items : List Json} (member : item ∈ items) (inside : Part part item) :
      Part part (.array items)
  | member {part value : Json} {name : String} {members : List (String × Json)}
      (member : (name, value) ∈ members) (inside : Part part value) : Part part (.object members)

/-- Every object inside a value, its own one included, has a property. -/
def Every (property : List (String × Json) → Prop) (value : Json) : Prop :=
  ∀ members, Part (.object members) value → property members

variable {property : List (String × Json) → Prop}

theorem Every.bool (value : Bool) : Every property (.bool value) := by
  rintro members ⟨⟩

theorem Every.array {items : List Json} (each : ∀ item ∈ items, Every property item) :
    Every property (.array items) := by
  intro members part
  cases part with
  | item member inside => exact each _ member members inside

variable {members : List (String × Json)}

/-- An object has the property with all objects inside it if it does, and those inside its
members do. -/
theorem Every.object (own : property members)
    (each : ∀ member ∈ members, Every property member.2) : Every property (.object members) := by
  intro inner part
  cases part with
  | whole => exact own
  | member isMember inside => exact each _ isMember inner inside

theorem Every.of_item {items : List Json} (every : Every property (.array items)) {item : Json}
    (member : item ∈ items) : Every property item :=
  fun members part => every members (.item member part)

variable {member : String × Json}

theorem Every.of_member (every : Every property (.object members)) (isMember : member ∈ members) :
    Every property member.2 :=
  fun inner part => every inner (.member isMember part)

theorem mem_insertMember {name : String} {value : Json}
    (inserted : member ∈ insertMember name value members) :
    member = (name, value) ∨ member ∈ members := by
  induction members with
  | nil => exact .inl (mem_singleton.mp inserted)
  | cons first rest ih =>
    rw [insertMember] at inserted
    split at inserted
    · exact (mem_cons.mp inserted).imp_right (mem_cons_of_mem first)
    · rcases mem_cons.mp inserted with rfl | later
      · exact .inr mem_cons_self
      · exact (ih later).imp_right (mem_cons_of_mem first)

/-- Setting a member keeps names apart. -/
theorem insertMember_distinct {name : String} {value : Json}
    (distinct : (members.map Prod.fst).Nodup) :
    ((insertMember name value members).map Prod.fst).Nodup := by
  induction members with
  | nil => simp [insertMember]
  | cons first rest ih =>
    rw [map_cons, nodup_cons] at distinct
    unfold insertMember
    split
    · rename_i same
      rw [map_cons, nodup_cons]
      exact same ▸ distinct
    · rename_i differs
      rw [map_cons, nodup_cons]
      refine ⟨fun member => ?_, ih distinct.2⟩
      obtain ⟨pair, inserted, same⟩ := mem_map.mp member
      rcases mem_insertMember inserted with rfl | old
      · exact differs same.symm
      · exact distinct.1 (same ▸ mem_map_of_mem old)

/-- No object inside a value has two members of one name. -/
def DistinctNames (value : Json) : Prop :=
  value.Every fun members => (members.map Prod.fst).Nodup

end SchemaLang.Json
