import SchemaLang.Proofs.Bindings.RustNames
import SchemaLang.Proofs.Bindings.TypeScriptListing
import SchemaLang.Proofs.Compilation.ClosedDocuments

/-!
# One description in three forms

The schema document, the Rust bindings and the TypeScript bindings of a registry are written by
three walks of their own. Read back, they describe the same members: every record has the same
keys in the same order, and what one form of bindings lets be absent the other does as well; what
neither does is required by the schema. Every enum has the same texts in the same order.
-/

namespace SchemaLang

open Outcome List JsonSchema

/-! ## Schemas of definitions -/

namespace JsonSchema

variable {registry reg : Registry} {document : Json} {id : Nat} {definition defn : Definition}

/-- The place of the schema of a definition. -/
def placeOf (registry : Registry) (id : Nat) (definition : Definition) : Pointer :=
  if registry.entry? = some id then [] else ["definitions", definition.name]

/-- At the place of a definition the document has what is written for it, apart from the members
that only documents have. -/
theorem at?_placeOf (proper : reg.Proper) (emitted : ofRegistry reg = .ok document)
    (found : reg.get? id = some defn) :
    ofDefinition reg defn = .ok (definitionMembers reg defn) ∧
      ∃ schema, document.at? (placeOf reg id defn) = some schema ∧
        ∀ keyword ∉ ["$schema", "title", "definitions"],
          schema.get? keyword = (definitionMembers reg defn).lookup keyword := by
  obtain ⟨members, rfl, drawn, _⟩ := ofRegistry_drawn proper emitted
  refine ⟨drawn.emitted defn (mem_of_getElem? found), ?_⟩
  unfold placeOf
  split
  · rename_i isEntry
    obtain ⟨entry, entered, same⟩ := ofRegistry_ok proper isEntry emitted
    obtain rfl : entry = defn := Option.some.inj (entered.found.symm.trans found)
    refine ⟨_, rfl, fun keyword apart => ?_⟩
    rw [same]
    simp only [mem_cons, not_mem_nil, or_false, not_or] at apart
    simp [Json.get?, Json.members, documentMembers, lookup_append, lookup_cons,
      beq_false_of_ne apart.1, beq_false_of_ne apart.2.1, beq_false_of_ne apart.2.2]
  · rename_i isOther
    exact ⟨_, at?_definition proper drawn.definitions found isOther, fun _ _ => rfl⟩

/-- The schema of a record names its fields in their order, and requires those that are not
optional. -/
theorem ofRecord_names (proper : reg.Proper) (member : defn ∈ reg.definitions)
    {content : RecordBody} (body : defn.body = .record content)
    (emitted : ofDefinition reg defn = .ok (definitionMembers reg defn)) :
    (∃ properties, (definitionMembers reg defn).lookup "properties" =
        some (.object properties) ∧
      properties.map Prod.fst = content.fields.map DefinedField.name) ∧
    ∀ field ∈ content.fields, field.isOptional = false →
      ∃ names, (definitionMembers reg defn).lookup "required" = some (.array names) ∧
        .string field.name ∈ names := by
  have ofContent : ofRecord reg defn content =
      .ok (definitionMembers reg defn) := by
    rw [← emitted, ofDefinition, body]
  obtain ⟨properties, written, same⟩ := ofRecord_members proper member body ofContent
  rw [same]
  refine ⟨⟨properties, rfl, ?_⟩, fun field isField isMandatory => ?_⟩
  · refine (map_eq_of_forall₂ written ?_).symm
    rintro field _ ⟨members, _, rfl⟩
    rfl
  · have isNamed : field.name ∈ requiredNames content := by
      refine mem_map_of_mem (mem_filter.mpr ⟨isField, ?_⟩)
      rw [isRequired, isMandatory]
      rfl
    have nonempty : (requiredNames content).isEmpty = false := by
      cases isList : requiredNames content with
      | nil => simp [isList] at isNamed
      | cons first rest => rfl
    refine ⟨(requiredNames content).map .string, ?_, mem_map_of_mem isNamed⟩
    rw [recordMembers, requiredMembers, nonempty]
    rfl

end JsonSchema

/-! ## Keys of entries -/

namespace RustBindings

open Listing

/-- The name in data is the declared one, whatever the identifier is. -/
theorem renamed?_getD (name identifier : String) :
    (renamed? name identifier).getD identifier = name := by
  unfold renamed?
  split
  · rename_i same
    exact same.symm
  · rfl

@[simp] theorem fieldEntry_key (ctx : FieldContext) : (fieldEntry ctx).key = ctx.field.name := by
  simp only [Entry.key, fieldEntry, entryOf, renamed?_getD]

@[simp] theorem memberEntry_key (member : String) : (memberEntry member).key = member := by
  simp only [Entry.key, memberEntry, entryOf, renamed?_getD]

/-- A type whose values may be absent starts with its word and has a bracket. -/
theorem spelled_of_isOption {type : String} (isOption : isOption type = true) :
    type.toList.head? = some 'O' ∧ '<' ∈ type.toList := by
  obtain ⟨rest, spelled⟩ := isPrefixOf_iff_prefix.mp isOption
  rw [← spelled]
  simp

variable {ctx : FieldContext}

/-- The values of what is in a choice cannot be absent. -/
theorem isOption_of_isArm (plain : PlainContext ctx) {arm : FieldType Nat} (isArm : arm.IsArm) :
    isOption ((RustType.ofFieldType ctx false arm).text ctx) = false := by
  rw [Bool.eq_false_iff]
  intro isOption
  obtain ⟨starts, bracketed⟩ := spelled_of_isOption isOption
  cases arm with
  | primitive kind => exact (ofPrimitive_builtIn kind).1 bracketed
  | range kind least greatest => exact (ofPrimitive_builtIn kind.primitive).1 bracketed
  | reference id =>
    rw [RustType.ofFieldType] at starts bracketed
    split at starts
    · simp [RustType.text] at starts
    · rename_i leadsAway
      rw [if_neg leadsAway] at bracketed
      exact (noBrackets (plain.identifier id)).1 bracketed
  | array item => simp [RustType.ofFieldType, RustType.text] at starts
  | optional _ | union _ => cases isArm

/-- A field is written with a type whose values may be absent exactly if it is optional. -/
theorem fieldEntry_isOptional (plain : PlainContext ctx)
    (isOfField : ctx.field.type.IsOfField) :
    (fieldEntry ctx).isOptional = ctx.field.isOptional := by
  show isOption ((RustType.ofField ctx).text ctx) = ctx.field.type.isOptional
  rw [fieldType_text]
  cases ctx.field.type.isOptional with
  | true =>
    refine isPrefixOf_iff_prefix.mpr ⟨((RustType.ofFieldType ctx false
      ctx.field.type.required).text ctx).toList ++ ['>'], ?_⟩
    simp
  | false =>
    rw [if_neg Bool.false_ne_true]
    rcases isOfField.required with ⟨arms, isUnion, _⟩ | isArm
    · rw [isUnion, Bool.eq_false_iff]
      intro isOption
      exact (noBrackets plain.unionName).1 (spelled_of_isOption isOption).2
    · exact isOption_of_isArm plain isArm

end RustBindings

/-! ## The three forms -/

open Listing

/-- A schema and two items describe records with the same members. -/
structure SameMembers (names : List String) (schema : Json) (struct interface : Item) : Prop where
  kinds : struct.kind = .product ∧ interface.kind = .product
  properties : ∃ properties, schema.get? "properties" = some (.object properties) ∧
    properties.map Prod.fst = names
  structKeys : struct.entries.map Entry.key = names
  interfaceKeys : interface.entries.map Entry.key = names
  optional : struct.entries.map Entry.isOptional = interface.entries.map Entry.isOptional
  required : ∀ entry ∈ struct.entries, entry.isOptional = false →
    ∃ listed, schema.get? "required" = some (.array listed) ∧ .string entry.key ∈ listed

/-- A schema and two items describe enums with the same texts. -/
structure SameTexts (texts : List String) (schema : Json) (enum choice : Item) : Prop where
  kinds : enum.kind = .choice ∧ choice.kind = .choice
  values : schema.get? "enum" = some (.array (texts.map .string))
  enumKeys : enum.entries.map Entry.key = texts
  choiceKeys : choice.entries.map Entry.key = texts

/-- Among items with different names an item is the only one of its name. -/
theorem filter_name_eq {items : List Item} (distinct : (items.map Item.name).Nodup) {item : Item}
    (member : item ∈ items) : items.filter (fun other => other.name = item.name) = [item] := by
  induction items with
  | nil => cases member
  | cons first rest ih =>
    obtain ⟨isNew, restDistinct⟩ := nodup_cons.mp distinct
    rcases mem_cons.mp member with rfl | later
    · rw [filter_cons_of_pos (by simp)]
      refine congrArg _ (filter_eq_nil_iff.mpr fun other listed same => ?_)
      exact isNew (of_decide_eq_true same ▸ mem_map_of_mem listed)
    · have differs : first.name ≠ item.name := fun same =>
        isNew (same ▸ mem_map_of_mem later)
      rw [filter_cons_of_neg (by simpa using differs), ih restDistinct later]

variable {registry reg : Registry} {document : Json} {id : Nat} {definition defn : Definition}

/-- The three forms of a record have the same members. -/
theorem sameMembers_of_record (proper : reg.Proper) (shaped : reg.Shaped)
    (member : defn ∈ reg.definitions) {content : RecordBody}
    (body : defn.body = .record content) {schema : Json}
    (emitted : ofDefinition reg defn = .ok (definitionMembers reg defn))
    (same : ∀ keyword ∉ ["$schema", "title", "definitions"], schema.get? keyword =
      (definitionMembers reg defn).lookup keyword) :
    SameMembers (content.fields.map DefinedField.name) schema
      (RustBindings.ownItem reg id defn)
      (TypeScriptBindings.itemOf reg defn) := by
  obtain ⟨named, required⟩ := ofRecord_names proper member body emitted
  have isField : ∀ field ∈ content.fields, field ∈ defn.fields := by
    intro field listed
    rwa [Definition.fields, body]
  have isOptional : ∀ field ∈ content.fields,
      (RustBindings.fieldEntry ⟨reg, id, defn, field⟩).isOptional =
        field.isOptional := fun field listed =>
    RustBindings.fieldEntry_isOptional
      (RustBindings.plainContext_of_proper proper member (isField field listed))
      (shaped.types defn member field (isField field listed))
  have struct : RustBindings.ownItem reg id defn =
      ⟨.product, defn.identifier, content.fields.map fun field =>
        RustBindings.fieldEntry ⟨reg, id, defn, field⟩⟩ := by
    rw [RustBindings.ownItem, body]
  have interface : TypeScriptBindings.itemOf reg defn =
      ⟨.product, defn.identifier,
        content.fields.map (TypeScriptBindings.fieldEntry reg)⟩ := by
    rw [TypeScriptBindings.itemOf, body]
  rw [struct, interface]
  constructor
  case kinds => exact ⟨rfl, rfl⟩
  case properties =>
    rw [same "properties" (by decide)]
    exact named
  case structKeys =>
    simp only [map_map, Function.comp_def, RustBindings.fieldEntry_key]
  case interfaceKeys =>
    rw [map_map]
    rfl
  case optional =>
    rw [map_map, map_map]
    exact map_congr_left isOptional
  case required =>
    intro entry listed isMandatory
    obtain ⟨field, isListed, rfl⟩ := mem_map.mp listed
    rw [isOptional field isListed] at isMandatory
    rw [same "required" (by decide), RustBindings.fieldEntry_key]
    exact required field isListed isMandatory

/-- The three forms of an enum have the same texts. -/
theorem sameTexts_of_enumeration {members : List String}
    (body : defn.body = .enumeration members) {schema : Json}
    (emitted : ofDefinition reg defn = .ok (definitionMembers reg defn))
    (same : ∀ keyword ∉ ["$schema", "title", "definitions"], schema.get? keyword =
      (definitionMembers reg defn).lookup keyword) :
    SameTexts members schema (RustBindings.ownItem reg id defn)
      (TypeScriptBindings.itemOf reg defn) := by
  have written : definitionMembers reg defn =
      [("type", .string "string"), ("enum", .array (members.map .string))] := by
    rw [ofDefinition, body] at emitted
    exact (Except.ok.inj emitted).symm
  rw [RustBindings.ownItem, TypeScriptBindings.itemOf, body]
  constructor
  case kinds => exact ⟨rfl, rfl⟩
  case values =>
    rw [same "enum" (by decide), written]
    rfl
  case enumKeys =>
    simp only [map_map, Function.comp_def, RustBindings.memberEntry_key, map_id']
  case choiceKeys =>
    rw [map_map]
    exact map_id members

/-- The own type of a definition has the name of no other item in the Rust bindings. -/
theorem filter_rustItems (linked : reg.Linked) (shaped : reg.Shaped) {text : String}
    (generated : Target.rust.generate reg = .ok text)
    (found : reg.get? id = some defn) :
    (RustBindings.allItems reg).filter (fun item => item.name = defn.identifier) =
      [RustBindings.ownItem reg id defn] := by
  have distinct := RustBindings.allItems_distinct
    (RustBindings.collisionFree_of_generate linked shaped generated)
  have listed : RustBindings.ownItem reg id defn ∈ RustBindings.allItems reg := by
    refine mem_flatMap.mpr ⟨(id, defn), ?_, mem_cons_self⟩
    exact Registry.mem_numbered.mpr found
  rw [← (RustBindings.ownItem_declared reg id defn).2]
  exact filter_name_eq distinct listed

/-- The type of a definition has the name of no other item in the TypeScript bindings. -/
theorem filter_typeScriptItems {text : String}
    (generated : Target.typeScript.generate reg = .ok text)
    (member : defn ∈ reg.definitions) :
    (reg.definitions.map (TypeScriptBindings.itemOf reg)).filter
        (fun item => item.name = defn.identifier) =
      [TypeScriptBindings.itemOf reg defn] := by
  have named : ∀ other, (TypeScriptBindings.itemOf reg other).name = other.identifier := by
    intro other
    unfold TypeScriptBindings.itemOf
    split <;> rfl
  obtain ⟨⟨⟩, checked, _⟩ := bind_ok_iff.mp generated
  obtain ⟨distinct, _⟩ := (Target.typeScript.checkIdentifiers_decides reg).ok_iff.mp ⟨(), checked⟩
  rw [← named defn]
  refine filter_name_eq ?_ (mem_map_of_mem member)
  rw [map_map]
  rwa [← map_congr_left (fun other _ => named other)] at distinct

/-- The schema document and both bindings of an import closure describe the same members. Every
definition has one schema in the document and one item of its name in each of the generated files;
those of a record agree in their keys, in their order and in what may be absent, and those of an
enum in their texts. -/
theorem artifacts_describe_same_members {context : ImportContext} {path : Path} {closure : Closure}
    (collected : context.closureOf path = .ok closure ∨
      ∃ text, context.closureOfText text path = .ok closure)
    (built : Registry.build closure.declarations = .ok registry)
    (emitted : JsonSchema.ofRegistry registry = .ok document) {rust typeScript : String}
    (rustGenerated : Target.rust.generate registry = .ok rust)
    (typeScriptGenerated : Target.typeScript.generate registry = .ok typeScript) :
    ∃ rustItems typeScriptItems, RustBindings.language.items? rust = some rustItems ∧
      TypeScriptBindings.language.items? typeScript = some typeScriptItems ∧
      ∀ id definition, registry.get? id = some definition → ∃ schema struct interface,
        document.at? (JsonSchema.placeOf registry id definition) = some schema ∧
        rustItems.filter (fun item => item.name = definition.identifier) = [struct] ∧
        typeScriptItems.filter (fun item => item.name = definition.identifier) = [interface] ∧
        match definition.body with
        | .record content =>
          SameMembers (content.fields.map DefinedField.name) schema struct interface
        | .enumeration members => SameTexts members schema struct interface := by
  obtain ⟨proper, shaped⟩ := Registry.sound_of_closure collected built
  refine ⟨_, _, RustBindings.generate_items proper shaped rustGenerated,
    TypeScriptBindings.generate_items proper shaped typeScriptGenerated, ?_⟩
  intro id definition found
  have member := List.mem_of_getElem? found
  obtain ⟨written, schema, placed, same⟩ := at?_placeOf proper emitted found
  refine ⟨schema, _, _, placed, filter_rustItems proper.linked shaped rustGenerated found,
    filter_typeScriptItems typeScriptGenerated member, ?_⟩
  split
  · rename_i content body
    exact sameMembers_of_record proper shaped member body written same
  · rename_i members body
    exact sameTexts_of_enumeration body written same

/-- An entry whose fields are a keyword, a name that is quoted, an optional choice and a reference
to an enum of another module. -/
def comparedForms : ImportContext where
  tree := ⟨[
    (["a.sdl"], .file (.text
      ("import \"./b\" as m\nentry car \x7b fn: string car-part: m.Level[] " ++
        "Kind: string | m.Level ? \x7d"))),
    (["b.sdl"], .file (.text "enum Level \x7b low HIGH_end \x7d"))], []⟩
  root := ⟨"/"⟩
  entryFileName := "index.sdl"

/-- The document at its root and both generated types of the entry have its three keys. -/
theorem comparedForms_same_members :
    ∃ closure registry document rust typeScript rustItems typeScriptItems,
      comparedForms.closureOf ⟨"/a.sdl"⟩ = .ok closure ∧
      Registry.build closure.declarations = .ok registry ∧
      JsonSchema.ofRegistry registry = .ok document ∧
      Target.rust.generate registry = .ok rust ∧
      Target.typeScript.generate registry = .ok typeScript ∧
      RustBindings.language.items? rust = some rustItems ∧
      TypeScriptBindings.language.items? typeScript = some typeScriptItems ∧
      ∃ struct interface, rustItems.filter (fun item => item.name = "Car") = [struct] ∧
        typeScriptItems.filter (fun item => item.name = "Car") = [interface] ∧
        SameMembers ["fn", "car-part", "Kind"] document struct interface := by
  obtain ⟨closure, collected, made⟩ := Outcome.ok_of_view
    (show (comparedForms.closureOf ⟨"/a.sdl"⟩).toOption.map (fun closure =>
        (Registry.build closure.declarations).toOption.map fun registry =>
          ((ofRegistry registry).toOption.isSome &&
            (Target.rust.generate registry).toOption.isSome &&
            (Target.typeScript.generate registry).toOption.isSome && registry.entry? = some 0,
            registry.definitions.map fun definition =>
              (definition.identifier, definition.fields.map DefinedField.name))) =
      some (some (true, [("Car", ["fn", "car-part", "Kind"]), ("MLevel", [])])) by
    decide +kernel)
  obtain ⟨registry, built, view⟩ := Outcome.ok_of_view made
  simp only [Prod.mk.injEq, Bool.and_eq_true, decide_eq_true_eq] at view
  obtain ⟨⟨⟨⟨isEmitted, isRust⟩, isTypeScript⟩, isEntry⟩, listed⟩ := view
  obtain ⟨document, emitted⟩ := Outcome.ok_of_isSome isEmitted
  obtain ⟨rust, rustGenerated⟩ := Outcome.ok_of_isSome isRust
  obtain ⟨typeScript, typeScriptGenerated⟩ := Outcome.ok_of_isSome isTypeScript
  obtain ⟨definition, others, found, seen, _⟩ := List.map_eq_cons_iff.mp listed
  obtain ⟨named, fields⟩ := Prod.mk.inj seen
  obtain ⟨rustItems, typeScriptItems, rustRead, typeScriptRead, each⟩ :=
    artifacts_describe_same_members (.inl collected) built emitted rustGenerated
      typeScriptGenerated
  obtain ⟨schema, struct, interface, placed, ofRust, ofTypeScript, same⟩ :=
    each 0 definition (by rw [Registry.get?, found]; rfl)
  rw [placeOf, if_pos isEntry] at placed
  obtain rfl : document = schema := Option.some.inj placed
  rw [named] at ofRust ofTypeScript
  rw [Definition.fields] at fields
  split at same
  · rename_i content body
    rw [body] at fields
    exact ⟨closure, registry, document, rust, typeScript, rustItems, typeScriptItems, collected,
      built, emitted, rustGenerated, typeScriptGenerated, rustRead, typeScriptRead, struct,
      interface, ofRust, ofTypeScript, fields ▸ same⟩
  · rename_i members body
    rw [body] at fields
    cases fields

end SchemaLang
