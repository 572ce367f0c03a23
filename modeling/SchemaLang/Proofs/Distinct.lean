import Mathlib.Data.List.Induction
import Mathlib.Data.List.Nodup

/-!
# Lists without repetitions

Keeping the first of each item is how contributions, files and names are collected. The laws
here build the result up from its front: one item more at the end is kept unless it is there
already, and what is known already changes nothing. In the same way a check that keys are
different goes through its items from the front.
-/

namespace SchemaLang.Distinct

open List

variable {α : Type} [BEq α] [LawfulBEq α]

/-- One item more at the end is kept unless it is there already. -/
theorem eraseDups_concat (items : List α) (item : α) :
    (items ++ [item]).eraseDups =
      if item ∈ items.eraseDups then items.eraseDups else items.eraseDups ++ [item] := by
  simp only [eraseDups_append, mem_eraseDups]
  by_cases member : item ∈ items
  · simp [member, removeAll]
  · simp [member, removeAll, eraseDups_cons]

/-- What is left has no repetitions. -/
theorem nodup_eraseDups (items : List α) : items.eraseDups.Nodup := by
  induction items using reverseRecOn with
  | nil => simp
  | append_singleton items item ih =>
    rw [eraseDups_concat]
    split
    · exact ih
    · rename_i isNew
      rw [nodup_append]
      refine ⟨ih, by simp, fun other member last isLast same => isNew ?_⟩
      rw [← mem_singleton.mp isLast, ← same]
      exact member

/-- A list without repetitions stays as it is. -/
theorem eraseDups_of_nodup {items : List α} (distinct : items.Nodup) : items.eraseDups = items := by
  induction items using reverseRecOn with
  | nil => rfl
  | append_singleton items item ih =>
    obtain ⟨before, _, apart⟩ := nodup_append.mp distinct
    have isNew : item ∉ items := fun member => apart item member item (by simp) rfl
    rw [eraseDups_concat, ih before, if_neg isNew]

/-- What is known already can be left out. -/
theorem eraseDups_append_of_subset {first known : List α} (rest : List α)
    (subset : known ⊆ first) :
    (first ++ (known ++ rest)).eraseDups = (first ++ rest).eraseDups := by
  have gone : known.removeAll first = [] := by
    simpa [removeAll] using fun item member => subset member
  have same : (known ++ rest).removeAll first = rest.removeAll first := by
    rw [removeAll, filter_append, ← removeAll, gone, nil_append, ← removeAll]
  rw [eraseDups_append, eraseDups_append, same]

/-- Leaving out the repetitions of a first part early makes no difference. -/
theorem eraseDups_eraseDups_append (first rest : List α) :
    (first.eraseDups ++ rest).eraseDups = (first ++ rest).eraseDups := by
  have sameMembers : rest.removeAll first.eraseDups = rest.removeAll first := by
    simp [removeAll]
  rw [eraseDups_append, eraseDups_append, sameMembers, eraseDups_of_nodup (nodup_eraseDups first)]

/-! ## Keys that are used once

Names and identifiers are checked one after the other, each against those before it. -/

section Keys

variable {α β : Type} {key : α → β} {items rest : List α} {item previous : α}

/-- Keys stay different when an item with a new one is put behind the others. -/
theorem nodup_map_concat (distinct : (items.map key).Nodup) (isNew : key item ∉ items.map key) :
    ((items ++ [item]).map key).Nodup := by
  rw [map_append, map_singleton, ← concat_eq_append]
  exact distinct.concat isNew

/-- If an item before has the key of an item, then keys are not different, whatever follows. -/
theorem not_nodup_of_found [DecidableEq β]
    (found : items.find? (fun other => key other = key item) = some previous) :
    ¬ ((items ++ item :: rest).map key).Nodup := by
  intro nodup
  rw [map_append, map_cons] at nodup
  have apart := (nodup_append.mp nodup).2.2
  have same : key previous = key item := by simpa using find?_some found
  exact apart _ (mem_map_of_mem (mem_of_find?_eq_some found)) _ mem_cons_self same

/-- An item and one found before it stand in this order. -/
theorem sublist_of_found {isIt : α → Bool} (found : items.find? isIt = some previous) :
    [previous, item] <+ items ++ item :: rest :=
  (singleton_sublist.mpr (mem_of_find?_eq_some found)).append
    (singleton_sublist.mpr mem_cons_self)

end Keys

end SchemaLang.Distinct
