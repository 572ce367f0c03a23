import Mathlib.Data.List.Perm.Basic
import Mathlib.Data.List.Perm.Lattice
import SchemaLang.Proofs.Bindings.RustCollisions

/-!
# The names in generated Rust

A generated file declares one type for every definition, in their order, and behind the struct of
a record one for every choice on its fields. All these names differ, and so do the names inside
every type. Whatever a type mentions is declared in the file or built in.

That the names differ is what bindings need to be there at all.
-/

namespace SchemaLang

open Outcome List Registry

variable {arms : List (FieldType Nat)} {closing : List Char} {registry reg : Registry}
  {ctx : FieldContext}

namespace RustBindings

open Listing Emission

/-! ## Mentioned names -/

/-- The names that a type mentions. -/
def typeNames (type : List Char) : List String :=
  (type.splitOn '<').map fun piece => .ofList (piece.takeWhile (· != '>'))

/-- The names that are built in. -/
def builtInNames : List String :=
  ["String", "i64", "f64", "bool", "serde_json::Value", "Box", "Vec", "Option"]

variable {name : String}

/-- A name alone, before closing brackets. -/
theorem typeNames_single (noOpening : '<' ∉ name.toList) (noClosing : '>' ∉ name.toList)
    (closes : ∀ c ∈ closing, c = '>') : typeNames (name.toList ++ closing) = [name] := by
  have whole : '<' ∉ name.toList ++ closing := by
    rw [mem_append, not_or]
    exact ⟨noOpening, fun member => absurd (closes _ member) (by decide)⟩
  have kept : ∀ c ∈ name.toList, (c != '>') = true := fun c member =>
    bne_iff_ne.mpr fun same => noClosing (same ▸ member)
  have dropped : closing.takeWhile (· != '>') = [] := by
    cases closing with
    | nil => rfl
    | cons first rest =>
      rw [closes first mem_cons_self]
      exact takeWhile_cons_of_neg (by simp)
  rw [typeNames, splitOn_eq_singleton whole, map_singleton,
    takeWhile_append_of_pos kept, dropped, append_nil, String.ofList_toList]

/-- A name with a type in brackets behind it. -/
theorem typeNames_inside {type : List Char} (noOpening : '<' ∉ name.toList)
    (noClosing : '>' ∉ name.toList) :
    typeNames (name.toList ++ '<' :: type ++ closing) = name :: typeNames (type ++ closing) := by
  have kept : ∀ c ∈ name.toList, (c != '>') = true := fun c member =>
    bne_iff_ne.mpr fun same => noClosing (same ▸ member)
  rw [typeNames, append_assoc, cons_append, splitOn_append_cons_self_of_not_mem noOpening, map_cons,
    takeWhile_eq_self_iff.mpr kept, String.ofList_toList]
  rfl

theorem ofPrimitive_builtIn (kind : Primitive) :
    '<' ∉ (ofPrimitive kind).toList ∧ '>' ∉ (ofPrimitive kind).toList ∧
      ofPrimitive kind ∈ builtInNames := by
  cases kind <;> decide

/-- A plain name has no brackets. -/
theorem noBrackets (plain : PlainName name) : '<' ∉ name.toList ∧ '>' ∉ name.toList :=
  ⟨fun member => absurd (plain _ member) (by decide),
    fun member => absurd (plain _ member) (by decide)⟩

/-- What a type in the brackets of a built-in name mentions. -/
theorem mem_typeNames_wrapped {wrapper name : String} {inner : List Char}
    (plain : PlainName wrapper) (builtIn : wrapper ∈ builtInNames)
    (mentioned : name ∈ typeNames (wrapper.toList ++ '<' :: inner ++ '>' :: closing)) :
    name ∈ builtInNames ∨ name ∈ typeNames (inner ++ '>' :: closing) := by
  rw [typeNames_inside (noBrackets plain).1 (noBrackets plain).2] at mentioned
  rcases mem_cons.mp mentioned with rfl | inside
  · exact .inl builtIn
  · exact .inr inside

/-- What an arm mentions is built in or refers to a definition. -/
theorem typeNames_of_isArm (plain : PlainContext ctx) {insideVector : Bool}
    {arm : FieldType Nat} (isArm : arm.IsArm) {closing : List Char}
    (closes : ∀ c ∈ closing, c = '>') {name : String} :
    name ∈ typeNames
        (((RustType.ofFieldType ctx insideVector arm).text ctx).toList ++ closing) →
      name ∈ builtInNames ∨ ∃ id ∈ arm.references, name = RustType.identifier ctx id := by
  have closesMore : ∀ c ∈ '>' :: closing, c = '>' := forall_mem_cons.mpr ⟨rfl, closes⟩
  have ofBuiltIn : ∀ kind, name ∈ typeNames ((ofPrimitive kind).toList ++ closing) →
      name ∈ builtInNames := by
    intro kind mentioned
    obtain ⟨noOpening, noClosing, builtIn⟩ := ofPrimitive_builtIn kind
    rw [typeNames_single noOpening noClosing closes, mem_singleton] at mentioned
    rwa [mentioned]
  match arm with
  | .primitive kind => exact fun mentioned => .inl (ofBuiltIn kind mentioned)
  | .range kind _ _ => exact fun mentioned => .inl (ofBuiltIn kind.primitive mentioned)
  | .reference id =>
    intro mentioned
    have isReference : id ∈ (FieldType.reference id).references := mem_singleton.mpr rfl
    obtain ⟨noOpening, noClosing⟩ := noBrackets (plain.identifier id)
    rw [RustType.ofFieldType] at mentioned
    split at mentioned
    · have spelled : ("Box<" ++ RustType.identifier ctx id ++ ">").toList ++ closing =
          "Box".toList ++ '<' :: (RustType.identifier ctx id).toList ++ '>' :: closing := by simp
      rw [RustType.text, spelled] at mentioned
      refine (mem_typeNames_wrapped ?_ ?_ mentioned).imp_right fun inside => ?_
      · decide
      · decide
      · rw [typeNames_single noOpening noClosing closesMore, mem_singleton] at inside
        exact ⟨id, isReference, inside⟩
    · rw [RustType.text, typeNames_single noOpening noClosing closes, mem_singleton]
        at mentioned
      exact .inr ⟨id, isReference, mentioned⟩
  | .array item =>
    intro mentioned
    have spelled : ("Vec<" ++ (RustType.ofFieldType ctx true item).text ctx ++ ">").toList ++
        closing = "Vec".toList ++ '<' ::
          ((RustType.ofFieldType ctx true item).text ctx).toList ++ '>' :: closing := by simp
    rw [RustType.ofFieldType, RustType.text, spelled] at mentioned
    rw [FieldType.IsArm] at isArm
    rcases mem_typeNames_wrapped (by decide) (by decide) mentioned with
      builtIn | inside
    · exact .inl builtIn
    · exact typeNames_of_isArm plain isArm closesMore inside
  | .optional _ | .union _ => cases isArm

/-- What a type mentions when its values are present. -/
theorem typeNames_of_required (plain : PlainContext ctx)
    (isOfField : ctx.field.type.IsOfField) (closes : ∀ c ∈ closing, c = '>') {name : String}
    (mentioned : name ∈ typeNames (((RustType.ofFieldType ctx false
      ctx.field.type.required).text ctx).toList ++ closing)) :
    name ∈ builtInNames ∨ (∃ id ∈ ctx.field.type.references,
      name = RustType.identifier ctx id) ∨ ∃ item ∈ unionItems ctx, name = item.name := by
  have sameReferences : ctx.field.type.required.references =
      ctx.field.type.references := by
    cases ctx.field.type <;> rfl
  rcases isOfField.required with ⟨arms, isUnion, _⟩ | isArm
  · obtain ⟨noOpening, noClosing⟩ := noBrackets plain.unionName
    rw [isUnion, RustType.ofFieldType, RustType.text,
      typeNames_single noOpening noClosing closes, mem_singleton] at mentioned
    refine .inr (.inr ?_)
    rw [unionItems, isUnion]
    exact ⟨_, mem_singleton.mpr rfl, mentioned⟩
  · rw [← sameReferences]
    exact (typeNames_of_isArm plain isArm closes mentioned).imp_right .inl

/-- The text for the type of a field, by whether it is optional. -/
theorem fieldType_text (ctx : FieldContext) : (RustType.ofField ctx).text ctx =
    if ctx.field.type.isOptional then
      "Option<" ++ (RustType.ofFieldType ctx false ctx.field.type.required).text ctx ++
        ">"
    else (RustType.ofFieldType ctx false ctx.field.type.required).text ctx := by
  unfold RustType.ofField
  cases ctx.field.type with
  | optional inner => rw [RustType.ofFieldType, RustType.text, FieldType.required,
      FieldType.isOptional, if_pos rfl]
  | _ => rfl

/-- What the type of a field mentions is built in, refers to a definition, or is the choice on the
field. -/
theorem typeNames_of_field (plain : PlainContext ctx)
    (isOfField : ctx.field.type.IsOfField)
    (mentioned : name ∈ typeNames ((RustType.ofField ctx).text ctx).toList) :
    name ∈ builtInNames ∨ (∃ id ∈ ctx.field.type.references,
      name = RustType.identifier ctx id) ∨ ∃ item ∈ unionItems ctx, name = item.name := by
  rw [fieldType_text] at mentioned
  split at mentioned
  · have spelled : ("Option<" ++ (RustType.ofFieldType ctx false
        ctx.field.type.required).text ctx ++ ">").toList = "Option".toList ++ '<' ::
          ((RustType.ofFieldType ctx false ctx.field.type.required).text ctx).toList ++
            '>' :: [] := by simp
    rw [spelled] at mentioned
    rcases mem_typeNames_wrapped (by decide) (by decide) mentioned with
      builtIn | inside
    · exact .inl builtIn
    · exact typeNames_of_required plain isOfField (by simp) inside
  · rw [← append_nil (String.toList _)] at mentioned
    exact typeNames_of_required plain isOfField (by simp) mentioned

/-! ## The whole file -/

/-- The choice on a field. -/
def isChoice (field : DefinedField) : Bool :=
  match field.type.required with
  | .union _ => true
  | _ => false

/-- The kind of the type for a definition. -/
def kindOf (definition : Definition) : ItemKind :=
  match definition.body with
  | .enumeration _ => .choice
  | .record _ => .product

/-- The types that a definition declares: its own, and behind it one for every choice on a field. -/
def declaredBy (definition : Definition) : List (ItemKind × String) :=
  (kindOf definition, definition.identifier) :: (definition.fields.filter isChoice).map fun field =>
    (.choice, definition.identifier ++ Text.pascalCase field.name)

section

variable (registry reg : Registry)

theorem ownItem_declared (id : Nat) (defn : Definition) :
    (ownItem reg id defn).kind = kindOf defn ∧
      (ownItem reg id defn).name = defn.identifier := by
  unfold ownItem kindOf
  cases defn.body <;> exact ⟨rfl, rfl⟩

theorem unionsOf_declared (id : Nat) (defn : Definition) :
    (unionsOf reg id defn).map (fun item => (item.kind, item.name)) =
      (defn.fields.filter isChoice).map fun field =>
        (.choice, defn.identifier ++ Text.pascalCase field.name) := by
  unfold unionsOf
  induction defn.fields with
  | nil => rfl
  | cons field fields ih =>
    rw [flatMap_cons, map_append, ih, filter_cons, unionItems, isChoice]
    cases field.type.required <;> rfl

theorem unionsOf_names (id : Nat) (defn : Definition) :
    (unionsOf reg id defn).map Item.name = choiceNames defn := by
  rw [unionsOf, choiceNames, map_flatMap]
  refine flatMap_congr fun field _ => ?_
  unfold unionItems choiceName
  cases field.type.required <;> rfl

theorem itemsOf_declared (id : Nat) (defn : Definition) :
    (itemsOf reg id defn).map (fun item => (item.kind, item.name)) = declaredBy defn := by
  obtain ⟨sameKind, sameName⟩ := ownItem_declared reg id defn
  rw [itemsOf, declaredBy, map_cons, unionsOf_declared, sameKind, sameName]

end

/-- The items of all definitions, in their order. -/
def allItems (registry : Registry) : List Item :=
  registry.numbered.flatMap fun numbered => itemsOf registry numbered.1 numbered.2

theorem allItems_declared (reg : Registry) :
    (allItems reg).map (fun item => (item.kind, item.name)) =
      reg.definitions.flatMap declaredBy := by
  rw [allItems, map_flatMap, ← numbered_definitions reg, flatMap_map]
  simp only [itemsOf_declared]

variable {item : Item}

/-- An item is the own type of a definition or the choice on one of its fields. -/
theorem mem_allItems (member : item ∈ allItems reg) :
    ∃ id, ∃ defn ∈ reg.definitions,
      (id, defn) ∈ reg.numbered ∧ (item = ownItem reg id defn ∨
        ∃ field ∈ defn.fields, item ∈ unionItems ⟨reg, id, defn, field⟩) := by
  obtain ⟨⟨id, defn⟩, numbered, inside⟩ := mem_flatMap.mp member
  refine ⟨id, defn, mem_of_numbered numbered, numbered, ?_⟩
  rcases mem_cons.mp inside with own | union
  · exact .inl own
  · exact .inr (mem_flatMap.mp union)

/-- The names of all items differ. -/
theorem allItems_distinct (free : CollisionFree reg) : ((allItems reg).map Item.name).Nodup := by
  have named : (allItems reg).map Item.name =
      reg.definitions.flatMap fun defn =>
        [defn.identifier] ++ choiceNames defn := by
    rw [allItems, map_flatMap, ← numbered_definitions reg, flatMap_map]
    simp only [itemsOf, map_cons, (ownItem_declared reg _ _).2, unionsOf_names, singleton_append]
  have apart : (reg.definitions.flatMap fun defn =>
      [defn.identifier] ++ choiceNames defn).Perm
        (reg.definitions.map Definition.identifier ++
          reg.definitions.flatMap choiceNames) := by
    rw [map_eq_flatMap]
    exact (flatMap_append_perm _ _ _).symm
  rw [named, apart.nodup_iff, nodup_append]
  refine ⟨free.definitions, free.choices, fun own isOwn name isChoice same => ?_⟩
  exact free.undeclared name isChoice (same ▸ isOwn)

/-- The entries of an item differ in their names, and those of a choice also in what they hold. -/
structure DistinctEntries (item : Item) : Prop where
  names : (item.entries.map Entry.name).Nodup
  types : item.kind = .choice → (item.entries.filterMap Entry.type?).Nodup

/-- The entries of the own type of a definition differ. -/
theorem ownItem_distinct (free : CollisionFree reg) {id : Nat} {defn : Definition}
    (isDefined : defn ∈ reg.definitions) :
    DistinctEntries (ownItem reg id defn) := by
  have members := free.members defn isDefined
  have fields := free.fields defn isDefined
  unfold ownItem
  unfold Definition.members at members
  unfold Definition.fields at fields
  cases body : defn.body with
  | enumeration listed =>
    rw [body] at members
    have sameNames : Entry.name ∘ memberEntry = memberIdentifier := funext memberEntry_name
    have nothing : Entry.type? ∘ memberEntry = fun _ => none := rfl
    refine ⟨?_, fun _ => ?_⟩
    · rw [map_map, sameNames]
      exact members
    · rw [filterMap_map, nothing, filterMap_none]
      exact nodup_nil
  | record content =>
    rw [body] at fields
    have sameNames : (Entry.name ∘ fun field => fieldEntry ⟨reg, id, defn, field⟩) =
        fun field => Target.rust.fieldIdentifier field.name := funext fun _ => fieldEntry_name _
    refine ⟨?_, by simp⟩
    rw [map_map, sameNames]
    exact fields

/-- The variants of the choice on a field differ, in their names and in what they hold. -/
theorem unionItems_distinct
    (variants : DistinctVariants (variantsOf ctx (armsOf ctx.field)))
    (isUnion : item ∈ unionItems ctx) : DistinctEntries item := by
  unfold armsOf at variants
  unfold unionItems at isUnion
  split at isUnion
  · rename_i arms isChoice
    rw [isChoice] at variants
    obtain rfl := mem_singleton.mp isUnion
    obtain ⟨names, types⟩ := variants
    rw [variantsOf, map_map] at names types
    refine ⟨?_, fun _ => ?_⟩
    · rwa [map_map]
    · rw [filterMap_map]
      exact congrFun filterMap_eq_map arms ▸ types
  · cases isUnion

/-- The identifier of a number of the registry is declared. -/
theorem identifier_declared (ctx : FieldContext) {id : Nat}
    (inside : id < ctx.registry.size) :
    RustType.identifier ctx id ∈ (allItems ctx.registry).map Item.name := by
  have found : ctx.registry.get? id = some (ctx.registry.definitions.get ⟨id, inside⟩) :=
    getElem?_eq_getElem inside
  have numbered : (id, ctx.registry.definitions.get ⟨id, inside⟩) ∈ ctx.registry.numbered :=
    mem_mapIdx.mpr ⟨id, inside, rfl⟩
  rw [RustType.identifier, found, Option.map_some, Option.getD_some,
    ← (ownItem_declared ctx.registry id _).2]
  exact mem_map_of_mem (mem_flatMap.mpr ⟨_, numbered, mem_cons_self⟩)

variable {id : Nat} {definition defn : Definition} {field : DefinedField} {name : String}

/-- What the type of a field mentions is built in or declared. -/
theorem fieldType_declared (proper : reg.Proper) (shaped : reg.Shaped)
    (numbered : (id, defn) ∈ reg.numbered) (isField : field ∈ defn.fields)
    (mentioned : name ∈ typeNames ((RustType.ofField ⟨reg, id, defn, field⟩).text
      ⟨reg, id, defn, field⟩).toList) :
    name ∈ builtInNames ∨ name ∈ (allItems reg).map Item.name := by
  have member := mem_of_numbered numbered
  have plain : PlainContext ⟨reg, id, defn, field⟩ := plainContext_of_proper proper member isField
  rcases typeNames_of_field plain (shaped.types defn member field isField) mentioned with
    builtIn | ⟨target, refers, rfl⟩ | ⟨item, isUnion, rfl⟩
  · exact .inl builtIn
  · have inside := proper.linked defn member field isField target refers
    exact .inr (identifier_declared ⟨reg, id, defn, field⟩ inside)
  · refine .inr (mem_map_of_mem (mem_flatMap.mpr ⟨_, numbered, ?_⟩))
    exact mem_cons_of_mem _ (mem_flatMap.mpr ⟨field, isField, isUnion⟩)

/-- What an arm of a choice mentions is built in or declared. -/
theorem armType_declared (proper : reg.Proper) (member : defn ∈ reg.definitions)
    (isField : field ∈ defn.fields) (isUnion : field.type.required = .union arms)
    {arm : FieldType Nat} (listed : arm ∈ arms) (isArm : arm.IsArm)
    (mentioned : name ∈ typeNames ((RustType.ofFieldType ⟨reg, id, defn, field⟩ false
      arm).text ⟨reg, id, defn, field⟩).toList) :
    name ∈ builtInNames ∨ name ∈ (allItems reg).map Item.name := by
  have plain : PlainContext ⟨reg, id, defn, field⟩ := plainContext_of_proper proper member isField
  have sameReferences : field.type.required.references = field.type.references := by
    cases field.type <;> rfl
  rw [← append_nil (String.toList _)] at mentioned
  rcases typeNames_of_isArm plain isArm (by simp) mentioned with builtIn | ⟨target, refers, rfl⟩
  · exact .inl builtIn
  · have refersToo : target ∈ field.type.references := by
      rw [← sameReferences, isUnion]
      exact FieldType.mem_referencesOfAll.mpr ⟨arm, listed, refers⟩
    have inside := proper.linked defn member field isField target refersToo
    exact .inr (identifier_declared ⟨reg, id, defn, field⟩ inside)

/-- What the entry of an item mentions is built in or declared. -/
theorem mentions_declared (proper : reg.Proper) (shaped : reg.Shaped)
    (member : item ∈ allItems reg) {entry : Entry} (listed : entry ∈ item.entries)
    {type : String} (typed : entry.type? = some type) (mentioned : name ∈ typeNames type.toList) :
    name ∈ builtInNames ∨ name ∈ (allItems reg).map Item.name := by
  obtain ⟨id, defn, isDefined, numbered, rfl | ⟨field, isField, isUnion⟩⟩ := mem_allItems member
  · unfold ownItem at listed
    split at listed
    · obtain ⟨member, _, rfl⟩ := mem_map.mp listed
      cases typed
    · rename_i content body
      obtain ⟨field, isField, rfl⟩ := mem_map.mp listed
      cases typed
      refine fieldType_declared proper shaped numbered ?_ mentioned
      rwa [Definition.fields, body]
  · have isOfField := shaped.types defn isDefined field isField
    rcases isOfField.required with ⟨arms, isChoice, areArms⟩ | isArm
    · rw [unionItems, isChoice, mem_singleton] at isUnion
      subst isUnion
      obtain ⟨arm, isListed, rfl⟩ := mem_map.mp listed
      cases typed
      exact armType_declared proper isDefined isField isChoice isListed (areArms arm isListed)
        mentioned
    · rw [unionItems_of_isArm isArm] at isUnion
      cases isUnion

/-- A generated file is closed and its names are unique. It declares one type for every definition,
in their order, and behind the struct of a record one for every choice on its fields. All these
names differ; inside each of them the names of the entries differ, and in an enum also the types
that the variants hold; and every name in a type is built in or declared in the file. -/
theorem rust_names_closed_and_distinct {context : ImportContext} {path : Path} {closure : Closure}
    (collected : context.closureOf path = .ok closure ∨
      ∃ text, context.closureOfText text path = .ok closure)
    (built : Registry.build closure.declarations = .ok registry) {text : String}
    (generated : Target.rust.generate registry = .ok text) :
    ∃ items, language.items? text = some items ∧
      items.map (fun item => (item.kind, item.name)) = registry.definitions.flatMap declaredBy ∧
      (items.map Item.name).Nodup ∧ (∀ item ∈ items, DistinctEntries item) ∧
      ∀ item ∈ items, ∀ entry ∈ item.entries, ∀ type, entry.type? = some type →
        ∀ name ∈ typeNames type.toList, name ∈ builtInNames ∨ name ∈ items.map Item.name := by
  obtain ⟨proper, shaped⟩ := sound_of_closure collected built
  have free := collisionFree_of_generate proper.linked shaped generated
  refine ⟨allItems registry, generate_items proper shaped generated, allItems_declared registry,
    allItems_distinct free, ?_, ?_⟩
  · intro item member
    obtain ⟨id, definition, isDefined, numbered, rfl | ⟨field, isField, isUnion⟩⟩ :=
      mem_allItems member
    · exact ownItem_distinct free isDefined
    · exact unionItems_distinct (free.arms _ numbered field isField) isUnion
  · intro item member entry listed type typed name mentioned
    exact mentions_declared proper shaped member listed typed mentioned

/-- Names in several cases, one of them a keyword, with a choice on an optional field. -/
def casedNames : ImportContext where
  tree := ⟨[
    (["a.sdl"], .file (.text
      ("import \"./b\" as m\ntype car-part \x7b fn: m.Level | car-part[] | string ? " ++
        "subParts: car-part[] model: m.Level? \x7d"))),
    (["b.sdl"], .file (.text "enum Level \x7b low HIGH_end \x7d"))], []⟩
  root := ⟨"/"⟩
  entryFileName := "index.sdl"

/-- The file declares the struct, the enum for the choice behind it, and the imported enum. -/
theorem casedNames_declared :
    ∃ closure registry text items, casedNames.closureOf ⟨"/a.sdl"⟩ = .ok closure ∧
      Registry.build closure.declarations = .ok registry ∧
      Target.rust.generate registry = .ok text ∧ language.items? text = some items ∧
      items.map (fun item => (item.kind, item.name)) =
        [(.product, "CarPart"), (.choice, "CarPartFn"), (.choice, "MLevel")] ∧
      (∀ item ∈ items, DistinctEntries item) ∧
      ∀ item ∈ items, ∀ entry ∈ item.entries, ∀ type, entry.type? = some type →
        ∀ name ∈ typeNames type.toList, name ∈ builtInNames ∨ name ∈ items.map Item.name := by
  obtain ⟨closure, collected, made⟩ := Outcome.ok_of_view
    (show (casedNames.closureOf ⟨"/a.sdl"⟩).toOption.map (fun closure =>
        (build closure.declarations).toOption.map fun registry =>
          ((Target.rust.generate registry).toOption.isSome,
            registry.definitions.flatMap declaredBy)) =
      some (some (true, [(.product, "CarPart"), (.choice, "CarPartFn"), (.choice, "MLevel")])) by
    decide +kernel)
  obtain ⟨registry, built, view⟩ := Outcome.ok_of_view made
  obtain ⟨isGenerated, declared⟩ := Prod.mk.inj view
  obtain ⟨text, generated⟩ := Outcome.ok_of_isSome isGenerated
  obtain ⟨items, read, names, _, distinct, closed⟩ :=
    rust_names_closed_and_distinct (.inl collected) built generated
  exact ⟨closure, registry, text, items, collected, built, generated, read, names.trans declared,
    distinct, closed⟩

end RustBindings

end SchemaLang
