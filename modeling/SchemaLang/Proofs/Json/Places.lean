import SchemaLang.Json.Pointer
import SchemaLang.Proofs.Json.Members

/-!
# Places in a value

A pointer names a place in a value: a member of an object by its name, an item of a list by the
plain decimal numeral of its position. Its text can be read back whatever the names are, also
when they are empty or hold the characters that have a meaning of their own in pointers, since
these are escaped one by one.
-/

namespace SchemaLang

open List

namespace Pointer

/-- Reading an escaped step back, one character after the other. -/
theorem unescape_flatMap_escapeChar (step : List Char) :
    unescape (step.flatMap escapeChar) = step := by
  induction step with
  | nil => rfl
  | cons c rest ih =>
    rw [flatMap_cons]
    by_cases isTilde : c = '~'
    · subst isTilde
      show '~' :: unescape (rest.flatMap escapeChar) = _
      rw [ih]
    · by_cases isSlash : c = '/'
      · subst isSlash
        show '/' :: unescape (rest.flatMap escapeChar) = _
        rw [ih]
      · rw [escapeChar, if_neg isTilde, if_neg isSlash, singleton_append, unescape, ih]
        · exact fun _ same => absurd same isTilde
        · exact fun _ same => absurd same isTilde

/-- An escaped step has no slash. -/
theorem slash_not_mem_escape (step : List Char) : '/' ∉ step.flatMap escapeChar := by
  intro member
  obtain ⟨c, _, inside⟩ := mem_flatMap.mp member
  unfold escapeChar at inside
  split at inside
  · revert inside
    decide
  · split at inside
    · revert inside
      decide
    · rename_i notSlash
      exact notSlash (mem_singleton.mp inside).symm

/-- The steps of a text, cut at its slashes. -/
theorem splitOn_steps (first : String) (steps : Pointer) :
    (first.toList.flatMap escapeChar ++
        steps.flatMap fun step => '/' :: step.toList.flatMap escapeChar).splitOn '/' =
      (first :: steps).map fun step => step.toList.flatMap escapeChar := by
  induction steps generalizing first with
  | nil =>
    rw [flatMap_nil, append_nil, splitOn_eq_singleton (slash_not_mem_escape first.toList)]
    rfl
  | cons second steps ih =>
    rw [flatMap_cons, cons_append,
      splitOn_append_cons_self_of_not_mem (slash_not_mem_escape first.toList), ih second]
    rfl

/-- The characters of the text of a pointer. -/
theorem toList_text (pointer : Pointer) :
    pointer.text.toList = pointer.flatMap fun step => '/' :: step.toList.flatMap escapeChar := by
  simp [text, escape, String.toList_join, flatMap_map]

/-- The text of a pointer, cut at its slashes: nothing stands before the first. -/
theorem splitOn_text (pointer : Pointer) :
    pointer.text.toList.splitOn '/' =
      [] :: pointer.map fun step => step.toList.flatMap escapeChar := by
  rw [toList_text]
  cases pointer with
  | nil => rfl
  | cons first steps =>
    have cut := splitOn_append_cons_self_of_not_mem (not_mem_nil (a := '/'))
      (first.toList.flatMap escapeChar ++
        steps.flatMap fun step => '/' :: step.toList.flatMap escapeChar)
    rw [splitOn_steps] at cut
    exact cut

/-- The text of a pointer reads back as the pointer. -/
theorem ofText?_text (pointer : Pointer) : ofText? pointer.text = some pointer := by
  unfold ofText?
  rw [toList_text]
  cases pointer with
  | nil => rfl
  | cons first steps =>
    rw [flatMap_cons, cons_append]
    simp only [splitOn_steps, map_map, Option.some.injEq]
    conv => rhs; rw [← map_id (first :: steps)]
    refine map_congr_left fun step _ => ?_
    simp only [Function.comp_apply, unescape_flatMap_escapeChar, String.ofList_toList, id]

end Pointer

namespace Json

/-- A part of a value is at a place: each step is the name of a member, or the plain numeral of
a position in a list. -/
inductive At : Json → Pointer → Json → Prop where
  | whole {value : Json} : At value [] value
  | member {members : List (String × Json)} {name : String} {steps : Pointer} {inner part : Json}
      (found : members.lookup name = some inner) (inside : At inner steps part) :
      At (.object members) (name :: steps) part
  | item {items : List Json} {position : Nat} {steps : Pointer} {inner part : Json}
      (found : items[position]? = some inner) (inside : At inner steps part) :
      At (.array items) (toString position :: steps) part

/-- A place inside a part is a place inside the whole. -/
theorem At.trans {value middle part : Json} {first second : Pointer}
    (outside : At value first middle) (inside : At middle second part) :
    At value (first ++ second) part := by
  induction outside with
  | whole => exact inside
  | member found _ ih => exact .member found (ih inside)
  | item found _ ih => exact .item found (ih inside)

end Json

end SchemaLang
