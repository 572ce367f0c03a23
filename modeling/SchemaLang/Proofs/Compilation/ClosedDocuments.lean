import SchemaLang.Proofs.Compilation.Validation
import SchemaLang.Proofs.JsonSchema.Parts
import SchemaLang.Proofs.Registry.Invariant

/-!
# Closed documents

The document of a compilation can be used on its own. Every declaration that is not the entry
has its place in it, under its full name; every reference leads to the root or to one of these
places, and there to a schema that says itself what it asks for; and what must be present is
declared. So checking a value against the document never fails for the sake of the document,
unless a pattern is one that schemas do not know.
-/

namespace SchemaLang

open Outcome List Registry ScopedDeclaration Pattern.SchemaPattern

/-- The name under which a declaration stands among the definitions of a document. An entry
stands at the root. -/
def ScopedDeclaration.definitionName? (statement : ScopedDeclaration) : Option String :=
  match statement.declaration with
  | .entry _ => none
  | _ => statement.qualifiedName?

variable {stmt : ScopedDeclaration} {definition defn : Definition}

/-- A definition is that of an entry exactly when its declaration is one. -/
theorem Definition.Renders.isEntry_iff (renders : defn.Renders stmt) :
    defn.isEntry = true ↔ ∃ content, stmt.declaration = .entry content := by
  obtain ⟨_, _, _, body⟩ := renders
  unfold Definition.isEntry
  generalize defn.body = rendered at body
  generalize stmt.declaration = decl at body
  cases body with
  | enumeration => simp
  | record _ plain | entry _ plain => simp [plain]

/-- A definition that is not the entry stands under its name. -/
theorem Definition.Renders.definitionName? (renders : defn.Renders stmt) :
    stmt.definitionName? = if defn.isEntry then none else some defn.name := by
  unfold ScopedDeclaration.definitionName?
  split
  · rename_i content declared
    rw [if_pos (renders.isEntry_iff.mpr ⟨content, declared⟩)]
  · rename_i notEntry
    have isOther : ¬ defn.isEntry = true := by
      rw [renders.isEntry_iff]
      rintro ⟨content, declared⟩
      exact notEntry content declared
    rw [if_neg isOther, renders.named]

namespace Registry

variable {decls : List ScopedDeclaration} {reg : Registry}

/-- The entry of a built registry is its one definition of an entry. -/
theorem entry?_iff_isEntry (built : build decls = .ok reg) {id : Nat}
    (found : reg.get? id = some defn) :
    reg.entry? = some id ↔ defn.isEntry = true := by
  have invariant := build_invariant built
  obtain ⟨stmt, declared, renders⟩ := getElem?_right invariant.rendered.flip found
  rw [invariant.entry, Definition.Renders.isEntry_iff renders]
  constructor
  · rintro ⟨⟨other, content, isOther, isEntry⟩, _⟩
    obtain rfl : stmt = other := Option.some.inj (declared.symm.trans isOther)
    exact ⟨content, isEntry⟩
  · rintro ⟨content, isEntry⟩
    have isId : EntryAt decls id := ⟨stmt, content, declared, isEntry⟩
    exact ⟨isId, fun other isOther => isOther.unique (build_singleEntry built) isId⟩

/-- Without the entry, the definitions are those of the other declarations, in their order. -/
theorem others_named (built : build decls = .ok reg) :
    (reg.definitions.filter fun defn => !defn.isEntry).map Definition.name =
      decls.filterMap definitionName? := by
  have unnamed : decls.filterMap definitionName? =
      (decls.filter introducesName).filterMap
        definitionName? := by
    rw [filterMap_filter]
    refine filterMap_congr fun stmt _ => ?_
    split
    · rfl
    · rename_i nameless
      unfold introducesName at nameless
      unfold definitionName? qualifiedName?
      split
      · rfl
      · simpa using nameless
  have rendered := (build_invariant built).rendered
  rw [unnamed]
  generalize decls.filter introducesName = statements at rendered ⊢
  generalize reg.definitions = defns at rendered ⊢
  induction rendered with
  | nil => rfl
  | @cons stmt defn _ _ renders _ ih =>
    rw [filterMap_cons, renders.definitionName?, filter_cons]
    cases defn.isEntry with
    | true | false => simpa using ih

end Registry

namespace JsonSchema

open Json (Throughout)

variable {reg : Registry}

/-- The definitions of a document are named for the declarations other than the entry. -/
theorem otherMembers_names {decls : List ScopedDeclaration}
    (built : build decls = .ok reg) :
    (otherMembers reg).map Prod.fst = decls.filterMap definitionName? := by
  have sameChoice : reg.numbered.filter (fun entry => reg.entry? ≠ some entry.1) =
      reg.numbered.filter fun entry => !entry.2.isEntry := by
    refine filter_congr ?_
    rintro ⟨id, defn⟩ numbered
    have isEntry := entry?_iff_isEntry built (mem_numbered.mp numbered)
    cases entry : defn.isEntry with
    | true => simp [isEntry.mpr entry]
    | false => simpa [entry] using isEntry
  rw [← others_named built, ← numbered_definitions, filter_map, map_map,
    otherMembers, sameChoice, map_map]
  rfl

/-! ## Documents with and without an entry -/

/-- The keywords at the top of a document. -/
def documentKeywords : List String := "$schema" :: "title" :: "definitions" :: definitionKeywords

/-- The lengths that a registry asks for are of some kind. -/
def Lengths (registry : Registry) (lengths : Nat → Prop) : Prop :=
  ∀ definition ∈ registry.definitions, ∀ field ∈ definition.fields,
    ∀ constraint ∈ field.constraints, constraint.Lengths lengths

/-- The members of a document of a registry, which may have an entry or not. -/
structure Drawn (registry : Registry) (members : Members) : Prop where
  proper : registry.Proper
  emitted : ∀ definition ∈ registry.definitions,
    ofDefinition registry definition = .ok (definitionMembers registry definition)
  definitions : members.lookup "definitions" = some (.object (otherMembers registry))
  throughout : ∀ lengths, Lengths registry lengths →
    Throughout (Sound registry) lengths (.object members)
  keywords : ∀ keyword ∈ members.map Prod.fst, keyword ∈ documentKeywords

/-- All objects among the definitions are sound. -/
theorem otherMembers_throughout (proper : reg.Proper)
    (emitted : ∀ defn ∈ reg.definitions,
      ofDefinition reg defn = .ok (definitionMembers reg defn))
    {lengths : Nat → Prop} (bounded : Lengths reg lengths) :
    Throughout (Sound reg) lengths (.object (otherMembers reg)) := by
  refine .object (sound_of_objects (otherMembers_distinct proper) ?_ ?_) ?_
  · intro name member
    obtain ⟨other, isOther, rfl⟩ := mem_map.mp member
    obtain ⟨id, defn, found, _, rfl⟩ := mem_otherMembers.mp isOther
    exact proper.plain defn (mem_of_getElem? found)
  · intro member isOther
    obtain ⟨id, defn, _, _, rfl⟩ := mem_otherMembers.mp isOther
    exact ⟨_, rfl⟩
  · intro member isOther
    obtain ⟨id, defn, found, _, rfl⟩ := mem_otherMembers.mp isOther
    have isDefinition := mem_of_getElem? found
    exact ofDefinition_throughout proper isDefinition (bounded defn isDefinition)
      (emitted defn isDefinition)

/-- What stands around the members of the entry keeps them sound. -/
theorem Sound.documentMembers {entry : Definition}
    (sound : Sound reg (definitionMembers reg entry))
    (keywords : ∀ keyword ∈ (definitionMembers reg entry).map Prod.fst,
      keyword ∈ definitionKeywords) : Sound reg (documentMembers reg entry) := by
  have apart : ∀ keyword, keyword ∉ definitionKeywords →
      keyword ∉ (definitionMembers reg entry).map Prod.fst :=
    fun keyword isOther member => isOther (keywords keyword member)
  have inside : ∀ {name value}, (name, value) ∈ JsonSchema.documentMembers reg entry →
      name = "$ref" ∨ name = "required" → (name, value) ∈ definitionMembers reg entry := by
    intro name value member isKeyword
    simp only [JsonSchema.documentMembers, mem_cons, mem_append, not_mem_nil, or_false,
      Prod.mk.injEq] at member
    rcases member with ⟨rfl, _⟩ | ⟨rfl, _⟩ | own | ⟨rfl, _⟩
    · simp at isKeyword
    · simp at isKeyword
    · exact own
    · simp at isKeyword
  constructor
  case distinct =>
    have names : (JsonSchema.documentMembers reg entry).map Prod.fst = "$schema" :: "title" ::
        ((definitionMembers reg entry).map Prod.fst ++ ["definitions"]) := by
      simp [JsonSchema.documentMembers]
    rw [names, nodup_cons, nodup_cons, mem_cons, mem_append, mem_append, nodup_append]
    refine ⟨?_, ?_, sound.distinct, nodup_singleton _, ?_⟩
    · exact not_or.mpr ⟨by decide, not_or.mpr ⟨apart "$schema" (by decide), by decide⟩⟩
    · exact not_or.mpr ⟨apart "title" (by decide), by decide⟩
    · intro keyword member other isLast same
      rw [mem_singleton.mp isLast] at same
      exact apart "definitions" (by decide) (same ▸ member)
  case reference =>
    intro value member
    exact absurd (mem_map_of_mem (inside member (.inl rfl))) (apart "$ref" (by decide))
  case required =>
    intro names member
    obtain ⟨nonempty, distinct, properties, found, named⟩ :=
      sound.required names (inside member (.inr rfl))
    refine ⟨nonempty, distinct, properties, ?_, named⟩
    rw [JsonSchema.documentMembers, lookup_cons, lookup_cons, lookup_append, found]
    rfl

theorem Entered.drawn {id : Nat} {entry : Definition} (entered : Entered reg id entry) :
    Drawn reg (documentMembers reg entry) := by
  have emitted := entered.emitted entry entered.entry_mem
  have keywords := ofDefinition_keywords entered.proper entered.entry_mem emitted
  constructor
  case proper => exact entered.proper
  case emitted => exact entered.emitted
  case definitions => exact entered.lookup_definitions
  case throughout =>
    intro lengths bounded
    have own := ofDefinition_throughout entered.proper entered.entry_mem
      (bounded entry entered.entry_mem) emitted
    refine .object ((own.objects _ .whole).documentMembers keywords) ?_
    rw [documentMembers, forall_mem_cons, forall_mem_cons, forall_mem_append, forall_mem_singleton]
    exact ⟨.string _, .string _, fun member => own.of_member,
      otherMembers_throughout entered.proper entered.emitted bounded⟩
  case keywords =>
    intro keyword member
    simp only [documentMembers, map_cons, map_append, map_nil, mem_cons,
      mem_append, not_mem_nil, or_false] at member
    rcases member with rfl | rfl | own | rfl
    · decide
    · decide
    · exact mem_cons_of_mem _ (mem_cons_of_mem _ (mem_cons_of_mem _ (keywords keyword own)))
    · decide

/-- The members of a document without an entry. -/
def headlessMembers (registry : Registry) : Members :=
  [("$schema", .string dialect), ("definitions", .object (otherMembers registry))]

/-- A document without an entry is written from the definitions only. -/
theorem ofRegistry_headless (proper : reg.Proper) (noEntry : reg.entry? = none)
    {document : Json} (emitted : ofRegistry reg = .ok document) :
    Drawn reg (headlessMembers reg) ∧ document = .object (headlessMembers reg) := by
  obtain ⟨root, rootOk, rest⟩ := bind_ok_iff.mp emitted
  obtain ⟨defns, mapped, same⟩ := bind_ok_iff.mp rest
  obtain ⟨rfl, othersOk⟩ := otherMembers_of_mapM mapped
  have allEmitted : ∀ defn ∈ reg.definitions,
      ofDefinition reg defn = .ok (definitionMembers reg defn) := by
    intro defn member
    obtain ⟨place, placed⟩ := getElem?_of_mem member
    exact othersOk place defn placed (by simp [noEntry])
  constructor
  · constructor
    case proper => exact proper
    case emitted => exact allEmitted
    case definitions => rfl
    case throughout =>
      intro lengths bounded
      refine .object (Unremarkable.sound (by simp [Unremarkable, headlessMembers])) ?_
      rw [headlessMembers, forall_mem_cons, forall_mem_singleton]
      exact ⟨.string _, otherMembers_throughout proper allEmitted bounded⟩
    case keywords => simp [headlessMembers, documentKeywords]
  · unfold rootMembers at rootOk
    rw [noEntry] at rootOk
    cases rootOk
    cases same
    rw [Json.ofMembers_of_nodup (otherMembers_distinct proper)]
    rfl

/-- A document without an entry can be used if its patterns are spelled as schemas ask for. It
asks for nothing itself. -/
theorem Drawn.headless_usable (drawn : Drawn reg (headlessMembers reg))
    (spelled : ∀ defn ∈ reg.definitions, ∀ text, Registry.Stated defn text →
      ∃ chars, Pattern.schemaText text.toList = .ok chars) :
    ∃ schema, SchemaDocument.ofJson (.object (headlessMembers reg)) = .ok schema := by
  have shaped : checkShape .draft7 (.object (headlessMembers reg)) = .ok () := by
    have defns : checkMember .draft7 "definitions" (.object (otherMembers reg)) =
        checkNamed .draft7 (otherMembers reg) := rfl
    rw [checkShape, checkMembers_ok_iff, headlessMembers, forall_mem_cons,
      forall_mem_singleton, defns, checkNamed_ok_iff]
    refine ⟨rfl, fun member isOther => ?_⟩
    obtain ⟨id, defn, found, _, rfl⟩ := mem_otherMembers.mp isOther
    have isDefinition := mem_of_getElem? found
    have written := ofDefinition_written drawn.proper isDefinition
      (drawn.emitted defn isDefinition)
    exact written.shaped.mpr (spelled defn isDefinition)
  have read : Schema.ofJson .draft7 (.object (headlessMembers reg)) = .ok (.keywords []) := rfl
  exact ⟨_, bind_ok_iff.mpr ⟨.draft7, ofDocument_dialect _,
    bind_ok_iff.mpr ⟨(), shaped, bind_ok_iff.mpr ⟨_, read, rfl⟩⟩⟩⟩

/-! ## References that lead somewhere -/

/-- The references that a document may hold, with the pointers they are read as. -/
inductive LeadsTo (definitions : Members) (hasEntry : Prop) : String → Pointer → Prop where
  | root (isEntered : hasEntry) : LeadsTo definitions hasEntry "#" []
  | definition {name : String} (member : name ∈ definitions.map Prod.fst) :
      LeadsTo definitions hasEntry ("#/definitions/" ++ name) ["definitions", name]

/-- What holds of every object in a closed document. -/
structure ClosedAt (document : Json) (definitions : Members) (hasEntry : Prop)
    (members : Members) : Prop where
  /-- A reference stands alone and leads to an object that is not a reference again. -/
  reference : ∀ value, ("$ref", value) ∈ members → members = [("$ref", value)] ∧
    ∃ text pointer target, value = .string text ∧ LeadsTo definitions hasEntry text pointer ∧
      referencePointer? text = some pointer ∧ document.at? pointer = some (.object target) ∧
      ∀ keyword ∈ ["$ref", "allOf", "anyOf"], target.lookup keyword = none
  /-- What must be present is declared beside it. -/
  required : ∀ names, ("required", .array names) ∈ members → names ≠ [] ∧ names.Nodup ∧
    ∃ properties, members.lookup "properties" = some (.object properties) ∧
      ∀ name ∈ names, ∃ text ∈ properties.map Prod.fst, name = .string text

/-- At the top of a document, and of a definition, nothing refers elsewhere. -/
theorem lookup_eq_none_of_keywords {members : Members} {keywords : List String}
    (among : ∀ keyword ∈ members.map Prod.fst, keyword ∈ keywords)
    (known : ∀ keyword ∈ ["$ref", "allOf", "anyOf"], keyword ∉ keywords) :
    ∀ keyword ∈ ["$ref", "allOf", "anyOf"], members.lookup keyword = none := by
  intro keyword isKeyword
  rw [Json.lookup_eq_none_iff]
  exact fun member => known keyword isKeyword (among keyword member)

/-- Every object inside a document of a registry is closed. -/
theorem Drawn.closedAt {members : Members} (drawn : Drawn reg members) {inner : Members}
    (part : Json.Part (.object inner) (.object members)) :
    ClosedAt (.object members) (otherMembers reg) (reg.entry? ≠ none) inner := by
  have sound := (drawn.throughout (fun _ => True) fun _ _ _ _ constraint _ =>
    constraint.lengths_true).objects inner part
  refine ⟨fun value member => ?_, sound.required⟩
  obtain ⟨alone, id, defn, found, rfl⟩ := sound.reference value member
  have isDefinition := mem_of_getElem? found
  have read : referencePointer? (pointer reg id defn) =
      some (if reg.entry? = some id then [] else ["definitions", defn.name]) :=
    referencePointer?_pointer (drawn.proper.plain defn isDefinition)
  refine ⟨alone, pointer reg id defn, ?_⟩
  by_cases isEntry : reg.entry? = some id
  · rw [if_pos isEntry] at read
    have text : pointer reg id defn = "#" := by rw [pointer, if_pos isEntry]
    refine ⟨[], members, rfl, text ▸ .root (by simp [isEntry]), read, rfl, ?_⟩
    exact lookup_eq_none_of_keywords drawn.keywords (by decide)
  · rw [if_neg isEntry] at read
    have text : pointer reg id defn = "#/definitions/" ++ defn.name := by
      rw [pointer, if_neg isEntry]
    have stands : defn.name ∈ (otherMembers reg).map Prod.fst :=
      mem_map_of_mem (mem_otherMembers.mpr ⟨id, defn, found, isEntry, rfl⟩)
    refine ⟨["definitions", defn.name], definitionMembers reg defn, rfl,
      text ▸ .definition stands, read,
      at?_definition drawn.proper drawn.definitions found isEntry, ?_⟩
    have keywords := ofDefinition_keywords drawn.proper isDefinition
      (drawn.emitted defn isDefinition)
    exact lookup_eq_none_of_keywords keywords (by decide)

/-- The document of a registry is drawn, and it is used for every check unless a pattern is not
one of schemas. -/
theorem ofRegistry_drawn (proper : reg.Proper) {document : Json}
    (emitted : ofRegistry reg = .ok document) :
    ∃ members, document = .object members ∧ Drawn reg members ∧
      ((∀ defn ∈ reg.definitions, ∀ text, Registry.Stated defn text →
          ∃ pattern, read text = .ok pattern) →
        ∀ value, ∃ violations, validate document value = .ok violations) := by
  have spelled_of_read : ∀ {text : String} {pattern : Pattern.SchemaPattern},
      read text = .ok pattern →
      ∃ chars, Pattern.schemaText text.toList = .ok chars := by
    intro text pattern read
    obtain ⟨_, spelled, _⟩ := bind_ok_iff.mp read
    exact ⟨_, spelled⟩
  cases entry : reg.entry? with
  | none =>
    obtain ⟨drawn, rfl⟩ := ofRegistry_headless proper entry emitted
    refine ⟨_, rfl, drawn, fun readable value => ?_⟩
    obtain ⟨schema, used⟩ := drawn.headless_usable fun defn member text stated =>
      (readable defn member text stated).elim fun _ => spelled_of_read
    exact ⟨_, validate_ok_iff.mpr ⟨schema, used, rfl⟩⟩
  | some id =>
    obtain ⟨defn, entered, rfl⟩ := ofRegistry_ok proper entry emitted
    refine ⟨_, rfl, entered.drawn, fun readable value => ?_⟩
    obtain ⟨schema, used⟩ := entered.usable
      ⟨fun defn member text stated =>
          (readable defn member text stated).elim fun _ => spelled_of_read,
        fun _ defn _ found => readable defn (mem_of_getElem? found)⟩
    exact ⟨_, validate_ok_iff.mpr ⟨schema, used, rfl⟩⟩

end JsonSchema

namespace Compilation

/-- The document of an import closure that compiles is closed. Its definitions are those of the
declarations other than the entry, under their full names and in their order. Every object in
it is closed. And checking a value gives an answer if all patterns are ones of schemas. -/
theorem document_is_closed {context : ImportContext} {path : Path} {closure : Closure}
    (collected : context.closureOf path = .ok closure ∨
      ∃ text, context.closureOfText text path = .ok closure)
    {settings : Settings} {compilation : Compilation}
    (compiled : ofClosure settings closure = .ok compilation) :
    ∃ members definitions, compilation.schema = .object members ∧
      members.lookup "definitions" = some (.object definitions) ∧
      definitions.map Prod.fst =
        closure.declarations.filterMap ScopedDeclaration.definitionName? ∧
      (definitions.map Prod.fst).Nodup ∧
      (∀ inner, Json.Part (.object inner) compilation.schema →
        JsonSchema.ClosedAt compilation.schema definitions
          (compilation.registry.entry? ≠ none) inner) ∧
      ((∀ definition ∈ compilation.registry.definitions, ∀ text,
          Registry.Stated definition text →
          ∃ pattern, Pattern.SchemaPattern.read text = .ok pattern) →
        ∀ value, ∃ violations, JsonSchema.validate compilation.schema value = .ok violations) := by
  have clean : closure.Clean := by
    rcases collected with ofFile | ⟨text, ofText⟩
    · exact ImportContext.closureOf_clean ofFile
    · exact ImportContext.closureOfText_clean ofText
  obtain ⟨built, emitted⟩ := ofClosure_ok compiled
  have proper := build_proper clean.declared built
  obtain ⟨members, isObject, drawn, usable⟩ := JsonSchema.ofRegistry_drawn proper emitted
  refine ⟨members, JsonSchema.otherMembers compilation.registry, isObject, drawn.definitions,
    JsonSchema.otherMembers_names built, JsonSchema.otherMembers_distinct proper, ?_, usable⟩
  intro inner part
  rw [isObject] at part ⊢
  exact drawn.closedAt part

/-- An entry that refers to itself and to a declaration of a module under an alias. -/
def aliasedLevels : ImportContext where
  tree := ⟨[
    (["a.sdl"], .file (.text
      ("import \"./b\" as m\nentry A \x7b level: m.Level again: A? name: string \x7d\n" ++
        "validate A \x7b self: required(again) name: pattern(\"^x\") \x7d"))),
    (["b.sdl"], .file (.text "enum Level \x7b low high \x7d"))], []⟩
  root := ⟨"/"⟩
  entryFileName := "index.sdl"

/-- Its document has one definition, under the name with the alias; all its objects are closed,
and every value can be checked against it. -/
theorem aliasedLevels_closed :
    ∃ closure compilation definitions, aliasedLevels.closureOf ⟨"/a.sdl"⟩ = .ok closure ∧
      ofClosure {} closure = .ok compilation ∧ definitions.map Prod.fst = ["m.Level"] ∧
      (∀ inner, Json.Part (.object inner) compilation.schema →
        JsonSchema.ClosedAt compilation.schema definitions
          (compilation.registry.entry? ≠ none) inner) ∧
      ∀ value, ∃ violations, JsonSchema.validate compilation.schema value = .ok violations := by
  obtain ⟨closure, collected, view⟩ := Outcome.ok_of_view
    (show (aliasedLevels.closureOf ⟨"/a.sdl"⟩).toOption.map (fun closure =>
        (closure.declarations.filterMap definitionName?,
          (ofClosure {} closure).toOption.map fun compilation =>
            compilation.registry.definitions.all fun definition =>
              definition.fields.all fun field => field.constraints.all fun
                | .pattern text => (read text).toOption.isSome
                | _ => true)) =
      some (["m.Level"], some true) by decide +kernel)
  obtain ⟨names, made⟩ := Prod.mk.inj view
  obtain ⟨compilation, compiled, patterns⟩ := Outcome.ok_of_view made
  obtain ⟨members, definitions, _, _, keys, _, closed, usable⟩ :=
    document_is_closed (.inl collected) compiled
  refine ⟨closure, compilation, definitions, collected, compiled, keys.trans names, closed,
    usable ?_⟩
  rintro definition isDefinition text ⟨field, isField, stated⟩
  simp only [List.all_eq_true] at patterns
  exact Outcome.ok_of_isSome (patterns definition isDefinition field isField _ stated)

end Compilation

end SchemaLang
