import SchemaLang.Proofs.Bindings.RustNames
import SchemaLang.Proofs.Text.Titles

/-!
# Names that generated files rely on

A generated file uses types that it does not declare, and derives two traits. A declared type of the
same name takes the place of such a type in the whole file. The names in small letters are never
declared, since no identifier starts with a small letter. The others are titles, and nothing refuses
them: each is declared exactly if the name of a definition spells it, or if a definition without an
identifier, whose name is all separators, has a choice on a field that spells it.
-/

namespace SchemaLang.RustBindings

open Outcome List Text

open Listing

variable {registry reg : Registry}

/-- The types in small letters that generated files use. -/
def smallNames : List String := ["i64", "f64", "bool", "serde_json::Value"]

/-- The types and traits with a capital letter that generated files use. -/
def capitalNames : List String := ["String", "Vec", "Option", "Box", "Serialize", "Deserialize"]

theorem smallNames_small :
    smallNames.all (fun name => name.toList.head?.any Char.isLower) = true := by decide

theorem capitalNames_titles :
    capitalNames.all (fun name => isTitle name.toList) = true := by decide

/-- The names that a definition declares: its identifier, and that of every choice on a field. -/
theorem mem_names_iff {name : String} : name ∈ (allItems reg).map Item.name ↔
    ∃ defn ∈ reg.definitions, defn.identifier = name ∨
      ∃ field ∈ defn.fields, isChoice field = true ∧
        defn.identifier ++ pascalCase field.name = name := by
  have names : (allItems reg).map Item.name =
      (reg.definitions.flatMap declaredBy).map Prod.snd := by
    rw [← allItems_declared, map_map]
    rfl
  simp only [names, map_flatMap, mem_flatMap, declaredBy, map_cons, map_map,
    mem_cons, mem_map, mem_filter, Function.comp_apply, and_assoc, eq_comm]

/-- No declared name starts with a small letter. -/
theorem names_head (proper : reg.Proper) {name : String}
    (declared : name ∈ (allItems reg).map Item.name) {c : Char}
    (isHead : name.toList.head? = some c) : c.isLower = false := by
  obtain ⟨defn, member, rfl | ⟨field, isField, _, rfl⟩⟩ := mem_names_iff.mp declared
  · exact pascalCase_head (proper.plain defn member) isHead
  · rw [String.toList_append, head?_append] at isHead
    rcases Option.or_eq_some_iff.mp isHead with own | ⟨_, ofField⟩
    · exact pascalCase_head (proper.plain defn member) own
    · exact pascalCase_head (proper.plainFields defn member field isField) ofField

/-- The definitions and choices that a title is declared by. A choice behind an identifier that is
there adds nothing to it, since the name of the field would start inside the title. -/
theorem title_declared_iff (proper : reg.Proper) {title : String}
    (isTitled : isTitle title.toList = true) :
    title ∈ (allItems reg).map Item.name ↔ ∃ defn ∈ reg.definitions, Text.Spells defn.name title ∨
        defn.identifier = "" ∧ ∃ field ∈ defn.fields, isChoice field = true ∧
          Text.Spells field.name title := by
  rw [mem_names_iff]
  refine exists_congr fun defn => and_congr_right fun member => ?_
  have own := pascalCase_eq_iff (proper.plain defn member) isTitled
  have ofField := fun field isField =>
    pascalCase_eq_iff (proper.plainFields defn member field isField) isTitled
  constructor
  · rintro (isOwn | ⟨field, isField, choice, joined⟩)
    · exact .inl (own.mp isOwn)
    · by_cases nameless : defn.identifier = ""
      · rw [nameless, String.empty_append] at joined
        exact .inr ⟨nameless, field, isField, choice, (ofField field isField).mp joined⟩
      · have titled : isTitle
            (defn.identifier.toList ++ (pascalCase field.name).toList) = true := by
          rw [← String.toList_append, joined, isTitled]
        have nothing := nil_of_isTitle_append titled (by simpa using nameless) fun c =>
          pascalCase_head (proper.plainFields defn member field isField)
        rw [String.toList_eq_nil_iff.mp nothing, String.append_empty] at joined
        exact .inl (own.mp joined)
  · rintro (spelled | ⟨nameless, field, isField, choice, spelled⟩)
    · exact .inl (own.mpr spelled)
    · refine .inr ⟨field, isField, choice, ?_⟩
      rw [nameless, String.empty_append, (ofField field isField).mpr spelled]

/-- Which of the names that a generated file relies on it declares itself: none of those in small
letters, and of the others exactly those that a definition spells, or a choice on a field of a
definition that has no identifier. -/
theorem rust_redefines_iff_spelled {context : ImportContext} {path : Path} {closure : Closure}
    (collected : context.closureOf path = .ok closure ∨
      ∃ text, context.closureOfText text path = .ok closure)
    (built : Registry.build closure.declarations = .ok registry) {text : String}
    (generated : Target.rust.generate registry = .ok text) :
    ∃ items, language.items? text = some items ∧
      (∀ name ∈ smallNames, name ∉ items.map Item.name) ∧
      ∀ name ∈ capitalNames, name ∈ items.map Item.name ↔
        ∃ definition ∈ registry.definitions, Text.Spells definition.name name ∨
          definition.identifier = "" ∧ ∃ field ∈ definition.fields, isChoice field = true ∧
            Text.Spells field.name name := by
  obtain ⟨proper, shaped⟩ := Registry.sound_of_closure collected built
  refine ⟨allItems registry, generate_items proper shaped generated, ?_, ?_⟩
  · intro name isSmall declared
    obtain ⟨c, isHead, small⟩ :=
      (Option.any_eq_true _ _).mp (List.all_eq_true.mp smallNames_small name isSmall)
    rw [names_head proper declared isHead] at small
    cases small
  · intro name isCapital
    exact title_declared_iff proper (List.all_eq_true.mp capitalNames_titles name isCapital)

/-- A title in capitals, and one that a choice of a definition without an identifier spells. -/
def spelledTitles : ImportContext where
  tree := ⟨[(["a.sdl"], .file (.text
    ("type OPTION \x7b value: string? \x7d\ntype _ \x7b _vec: string | integer[] \x7d\n" ++
      "type Vec_String \x7b box: string | OPTION \x7d")))], []⟩
  root := ⟨"/"⟩
  entryFileName := "index.sdl"

/-- The file declares `Option` and `Vec`, and neither `Box` nor `bool`. -/
theorem spelledTitles_redefine :
    ∃ closure registry text items, spelledTitles.closureOf ⟨"/a.sdl"⟩ = .ok closure ∧
      Registry.build closure.declarations = .ok registry ∧
      Target.rust.generate registry = .ok text ∧ language.items? text = some items ∧
      "Option" ∈ items.map Item.name ∧ "Vec" ∈ items.map Item.name ∧
      "Box" ∉ items.map Item.name ∧ "bool" ∉ items.map Item.name := by
  obtain ⟨closure, collected, made⟩ := Outcome.ok_of_view
    (show (spelledTitles.closureOf ⟨"/a.sdl"⟩).toOption.map (fun closure =>
        (Registry.build closure.declarations).toOption.map fun registry =>
          ((Target.rust.generate registry).toOption.isSome,
            ["Option", "Vec", "Box"].map fun title =>
              decide (∃ definition ∈ registry.definitions, Text.Spells definition.name title ∨
                definition.identifier = "" ∧ ∃ field ∈ definition.fields, isChoice field = true ∧
                  Text.Spells field.name title))) =
      some (some (true, [true, true, false])) by decide +kernel)
  obtain ⟨registry, built, view⟩ := Outcome.ok_of_view made
  obtain ⟨isGenerated, spelled⟩ := Prod.mk.inj view
  obtain ⟨text, generated⟩ := Outcome.ok_of_isSome isGenerated
  obtain ⟨items, read, small, capital⟩ :=
    rust_redefines_iff_spelled (.inl collected) built generated
  simp only [List.map_cons, List.map_nil, List.cons.injEq, decide_eq_true_eq,
    decide_eq_false_iff_not, and_true] at spelled
  obtain ⟨option, vector, box⟩ := spelled
  exact ⟨closure, registry, text, items, collected, built, generated, read,
    (capital "Option" (by decide)).mpr option, (capital "Vec" (by decide)).mpr vector,
    fun declared => box ((capital "Box" (by decide)).mp declared), small "bool" (by decide)⟩

/-- A definition named like the type of texts is not refused, and then the type of its own field is
read as the definition. -/
theorem definition_named_String_redefines :
    ∃ closure registry text items,
      (ImportContext.mk ⟨[], []⟩ ⟨"/"⟩ "index.sdl").closureOfText
        "type String \x7b name: string \x7d" ⟨"/a.sdl"⟩ = .ok closure ∧
      Registry.build closure.declarations = .ok registry ∧
      Target.rust.generate registry = .ok text ∧ language.items? text = some items ∧
      items.map (fun item => (item.name, item.entries.map Entry.type?)) =
        [("String", [some (ofPrimitive .string)])] := by
  obtain ⟨closure, collected, made⟩ := Outcome.ok_of_view
    (show ((ImportContext.mk ⟨[], []⟩ ⟨"/"⟩ "index.sdl").closureOfText
        "type String \x7b name: string \x7d" ⟨"/a.sdl"⟩).toOption.map (fun closure =>
        (Registry.build closure.declarations).toOption.map fun registry =>
          ((Target.rust.generate registry).toOption.isSome,
            (allItems registry).map (fun item => (item.name, item.entries.map Entry.type?)))) =
      some (some (true, [("String", [some (ofPrimitive .string)])])) by decide +kernel)
  obtain ⟨registry, built, view⟩ := Outcome.ok_of_view made
  obtain ⟨isGenerated, listed⟩ := Prod.mk.inj view
  obtain ⟨text, generated⟩ := Outcome.ok_of_isSome isGenerated
  obtain ⟨proper, shaped⟩ := Registry.sound_of_closure (.inr ⟨_, collected⟩) built
  exact ⟨closure, registry, text, allItems registry, collected, built, generated,
    generate_items proper shaped generated, listed⟩

end SchemaLang.RustBindings
