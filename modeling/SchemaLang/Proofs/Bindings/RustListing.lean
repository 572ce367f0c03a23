import Mathlib.Data.List.Nodup
import SchemaLang.Proofs.Bindings.Listing
import SchemaLang.Proofs.Bindings.RustTypes
import SchemaLang.Proofs.Registry.Shapes
import SchemaLang.Proofs.Text.Names

/-!
# Generated Rust as a listing

A file of Rust bindings is a listing of structs and enums. Reading it back gives, for every
definition in turn, the struct or enum for the definition, and behind a struct the enums for the
choices on its fields.
-/

namespace SchemaLang.RustBindings

open Outcome List Text

open Listing

/-! ## Lines -/

/-- Whether a type is written as one whose values may be absent. -/
def isOption (type : String) : Bool := "Option<".toList.isPrefixOf type.toList

/-- An entry under its own name, and its type if it has one. -/
def entryOf (name : String) (type? : Option String) : Entry :=
  ⟨none, name, type?.any isOption, type?⟩

/-- The field of a line after its first word. -/
def fieldLine? (line : List Char) : Option Line :=
  (between? "" "," line).bind fun content =>
    match cutAt ':' content with
    | (name, ':' :: ' ' :: type) =>
      some (.adds .product (entryOf (.ofList name) (some (.ofList type))))
    | _ => none

/-- The variant of a line, with the type it holds in brackets. -/
def variantLine? (line : List Char) : Option Line :=
  (between? "" "," line).bind fun content =>
    match cutAt '(' content with
    | (name, []) => some (.adds .choice (entryOf (.ofList name) none))
    | (name, _ :: held) => (between? "" ")" held).map fun type =>
      .adds .choice (entryOf (.ofList name) (some (.ofList type)))

/-- An indented line. -/
def entryLine? : List Char → Option Line
  | '#' :: mark =>
    (between? "[serde(rename = \"" "\")]" mark).map fun name => .renames (.ofList name)
  | 'p' :: 'u' :: 'b' :: ' ' :: field => fieldLine? field
  | variant => variantLine? variant

/-- The first line of a struct or an enum. -/
def openingLine? (line : List Char) : Option Line :=
  match between? "pub struct " " \x7b" line with
  | some name => some (.opens .product (.ofList name))
  | none => (between? "pub enum " " \x7b" line).map fun name => .opens .choice (.ofList name)

/-- How a line is read. Comments, imports and attributes of items say nothing. -/
def language : Language
  | [] => some .silent
  | ['\x7d'] => some .closes
  | '/' :: '/' :: _ => some .silent
  | '#' :: _ => some .silent
  | 'u' :: 's' :: 'e' :: ' ' :: _ => some .silent
  | ' ' :: ' ' :: ' ' :: ' ' :: entry => entryLine? entry
  | line => openingLine? line

/-! ## What a registry lists -/

/-- The name that an attribute restores. -/
def renamed? (name identifier : String) : Option String :=
  if name = identifier then none else some name

/-- The entry for a field. -/
def fieldEntry (context : FieldContext) : Entry :=
  let identifier := Target.rust.fieldIdentifier context.field.name
  { entryOf identifier (some ((RustType.ofField context).text context)) with
    rename? := renamed? context.field.name identifier }

@[simp] theorem fieldEntry_name (ctx : FieldContext) :
    (fieldEntry ctx).name = Target.rust.fieldIdentifier ctx.field.name := by
  simp only [fieldEntry, entryOf]

/-- The identifier of a member of an enum. -/
def memberIdentifier (member : String) : String := avoidKeyword (pascalCase member)

/-- The entry for a member of an enum. -/
def memberEntry (member : String) : Entry :=
  { entryOf (memberIdentifier member) none with
    rename? := renamed? member (memberIdentifier member) }

@[simp] theorem memberEntry_name (member : String) :
    (memberEntry member).name = memberIdentifier member := by
  simp only [memberEntry, entryOf]

/-- The entry for an arm of a choice. -/
def armEntry (context : FieldContext) (arm : FieldType Nat) : Entry :=
  entryOf (RustType.variant context arm)
    (some ((RustType.ofFieldType context false arm).text context))

/-- The enum for the choice on a field, if there is one. -/
def unionItems (context : FieldContext) : List Item :=
  match context.field.type.required with
  | .union arms => [⟨.choice, unionName context, arms.map (armEntry context)⟩]
  | _ => []

/-- The struct or enum for a definition. -/
def ownItem (registry : Registry) (id : Nat) (definition : Definition) : Item :=
  match definition.body with
  | .enumeration members => ⟨.choice, definition.identifier, members.map memberEntry⟩
  | .record content => ⟨.product, definition.identifier,
      content.fields.map fun field => fieldEntry ⟨registry, id, definition, field⟩⟩

/-- The enums for the choices on the fields of a definition. -/
def unionsOf (registry : Registry) (id : Nat) (definition : Definition) : List Item :=
  definition.fields.flatMap fun field => unionItems ⟨registry, id, definition, field⟩

/-- The items for a definition. -/
def itemsOf (registry : Registry) (id : Nat) (definition : Definition) : List Item :=
  ownItem registry id definition :: unionsOf registry id definition

/-! ## Reading lines back -/

/-- The characters of generated types. -/
def IsTypeChar (c : Char) : Prop := IsNameChar c ∨ c = '<' ∨ c = '>' ∨ c = ':'

instance (c : Char) : Decidable (IsTypeChar c) := inferInstanceAs (Decidable (_ ∨ _))

/-- A type of such characters. -/
def PlainType (type : String) : Prop := ∀ c ∈ type.toList, IsTypeChar c

instance (type : String) : Decidable (PlainType type) :=
  List.decidableBAll IsTypeChar type.toList

variable {name : String}

theorem plainType_of_name (plain : PlainName name) : PlainType name :=
  fun c member => .inl (plain c member)

theorem PlainType.not_mem {type : String} (plain : PlainType type) {c : Char}
    (other : ¬ IsTypeChar c) : c ∉ type.toList := fun member => other (plain c member)

section Lines

variable {name identifier type : String}

theorem blank_read : language [] = some .silent := rfl

/-- An indented line without blanks and attributes is a variant. -/
theorem entryLine?_of_variant {line : List Char} (noBlank : ' ' ∉ line) (noMark : '#' ∉ line) :
    entryLine? line = variantLine? line := by
  unfold entryLine?
  split
  · simp at noMark
  · simp at noBlank
  · rfl

theorem renameLine_read (name : String) :
    language ("    #[serde(rename = \"" ++ name ++ "\")]").toList = some (.renames name) := by
  have spelled : ("    #[serde(rename = \"" ++ name ++ "\")]").toList =
      ' ' :: ' ' :: ' ' :: ' ' :: '#' ::
        ("[serde(rename = \"".toList ++ (name.toList ++ "\")]".toList)) := by simp
  rw [spelled, language, entryLine?, between?_eq, Option.map_some, String.ofList_toList]

theorem fieldLine_read (named : PlainName identifier) (type : String) :
    language ("    pub " ++ identifier ++ ": " ++ type ++ ",").toList =
      some (.adds .product (entryOf identifier (some type))) := by
  have spelled : ("    pub " ++ identifier ++ ": " ++ type ++ ",").toList =
      ' ' :: ' ' :: ' ' :: ' ' :: 'p' :: 'u' :: 'b' :: ' ' ::
        ("".toList ++ ((identifier.toList ++ ':' :: ' ' :: type.toList) ++ ",".toList)) := by simp
  have noColon : ':' ∉ identifier.toList := fun member => absurd (named _ member) (by decide)
  rw [spelled, language, entryLine?, fieldLine?, between?_eq, Option.bind_some,
    cutAt_append noColon]
  simp

theorem memberLine_read (named : PlainName identifier) :
    language ("    " ++ identifier ++ ",").toList =
      some (.adds .choice (entryOf identifier none)) := by
  have spelled : ("    " ++ identifier ++ ",").toList =
      ' ' :: ' ' :: ' ' :: ' ' :: ("".toList ++ (identifier.toList ++ ",".toList)) := by simp
  have plain := plainType_of_name named
  rw [spelled, language, entryLine?_of_variant, variantLine?, between?_eq, Option.bind_some,
    cutAt_whole (plain.not_mem (by decide))]
  · simp
  · simpa using plain.not_mem (by decide)
  · simpa using plain.not_mem (by decide)

theorem armLine_read (named : PlainName identifier) (typed : PlainType type) :
    language ("    " ++ identifier ++ "(" ++ type ++ "),").toList =
      some (.adds .choice (entryOf identifier (some type))) := by
  have spelled : ("    " ++ identifier ++ "(" ++ type ++ "),").toList =
      ' ' :: ' ' :: ' ' :: ' ' :: ("".toList ++
        ((identifier.toList ++ '(' :: ("".toList ++ (type.toList ++ ")".toList))) ++
          ",".toList)) := by simp
  have plain := plainType_of_name named
  rw [spelled, language, entryLine?_of_variant, variantLine?, between?_eq, Option.bind_some,
    cutAt_append (plain.not_mem (by decide))]
  · simp only [between?_eq, Option.map_some, String.ofList_toList]
  · simpa using ⟨plain.not_mem (by decide), typed.not_mem (by decide)⟩
  · simpa using ⟨plain.not_mem (by decide), typed.not_mem (by decide)⟩

/-- A line that starts with a small p opens an item. -/
theorem language_of_opening {line : List Char} (starts : line.head? = some 'p') :
    language line = openingLine? line := by
  cases line with
  | nil => cases starts
  | cons first rest =>
    obtain rfl := Option.some.inj starts
    rfl

theorem structLine_read (identifier : String) :
    language ("pub struct " ++ identifier ++ " \x7b").toList =
      some (.opens .product identifier) := by
  have spelled : ("pub struct " ++ identifier ++ " \x7b").toList =
      "pub struct ".toList ++ (identifier.toList ++ " \x7b".toList) := by simp
  rw [spelled, language_of_opening (by simp), openingLine?, between?_eq]
  simp

theorem enumLine_read (identifier : String) :
    language ("pub enum " ++ identifier ++ " \x7b").toList = some (.opens .choice identifier) := by
  have spelled : ("pub enum " ++ identifier ++ " \x7b").toList =
      "pub enum ".toList ++ (identifier.toList ++ " \x7b".toList) := by simp
  rw [spelled, language_of_opening (by simp), openingLine?, between?_eq_none, between?_eq]
  · simp
  · simp

end Lines

/-! ## Reading texts back -/

/-- The lines of an entry, with the attribute that restores its name where one is needed. -/
theorem adds_entry {kind : ItemKind} {line : String} {entry : Entry} (named : PlainName name)
    (identifier : String) (noBreak : '\n' ∉ line.toList)
    (reads : language line.toList = some (.adds kind entry)) :
    language.Adds kind ("\n".intercalate (renameLines name identifier ++ [line]))
      [{ entry with rename? := renamed? name identifier }] := by
  unfold renameLines renamed?
  split
  · rw [nil_append, String.intercalate_singleton]
    exact .line noBreak reads
  · rw [singleton_append, String.intercalate_cons_cons, String.intercalate_singleton]
    refine .renamed ?_ noBreak (renameLine_read name) reads
    simpa using (plainType_of_name named).not_mem (by decide)

/-- An attribute says nothing. -/
theorem mark_gives {mark : String} (starts : mark.toList.head? = some '#')
    (noBreak : '\n' ∉ mark.toList) : language.Gives mark [] := by
  refine .silent noBreak ?_
  cases isMark : mark.toList with
  | nil =>
    rw [isMark] at starts
    cases starts
  | cons first rest =>
    rw [isMark] at starts
    obtain rfl := Option.some.inj starts
    rfl

/-- An item with its last line and the blank line behind it. -/
theorem gives_item {kind : ItemKind} {head body : String} {made : List Entry}
    (noBreak : '\n' ∉ head.toList)
    (opens : language (head ++ " \x7b").toList = some (.opens kind name))
    (adds : language.Adds kind body made) :
    language.Gives (head ++ " \x7b\n" ++ body ++ "\n\x7d\n") [⟨kind, name, made⟩] := by
  have closes : language "\x7d".toList = some .closes := by simp [language]
  have ends : language.Gives "" [] := .silent (by simp) (by simp [language])
  have item := Language.Gives.item (by simpa using noBreak) opens adds (by simp) closes
  have spelled : head ++ " \x7b\n" ++ body ++ "\n\x7d\n" =
      head ++ " \x7b" ++ "\n" ++ (body ++ "\n" ++ "\x7d") ++ "\n" ++ "" := by
    have opening : " \x7b\n" = " \x7b" ++ "\n" := by simp
    have closing : "\n\x7d\n" = "\n" ++ "\x7d" ++ "\n" ++ "" := by simp
    simp only [opening, closing, String.append_assoc]
  rw [spelled]
  exact item.next ends

section Texts

variable {ctx : FieldContext}

/-- The lines of a field. -/
theorem fieldText_adds (named : PlainName ctx.field.name)
    (typed : PlainType ((RustType.ofField ctx).text ctx)) :
    language.Adds .product (fieldText ctx) [fieldEntry ctx] := by
  have isPlain : PlainName (Target.rust.fieldIdentifier ctx.field.name) :=
    avoidKeyword_plain (snakeCase_plain named)
  refine adds_entry named _ ?_ (fieldLine_read isPlain _)
  simpa using ⟨(plainType_of_name isPlain).not_mem (by decide), typed.not_mem (by decide)⟩

variable {definition defn : Definition}

/-- A struct gives its fields. -/
theorem structText_gives {reg : Registry} {id : Nat} {content : RecordBody}
    (named : PlainName defn.identifier)
    (fields : ∀ field ∈ content.fields, PlainName field.name ∧ PlainType
      ((RustType.ofField ⟨reg, id, defn, field⟩).text
        ⟨reg, id, defn, field⟩)) :
    language.Gives (structText reg id defn content)
      [⟨.product, defn.identifier,
        content.fields.map fun field => fieldEntry ⟨reg, id, defn, field⟩⟩] := by
  have adds : language.Adds .product
      ("\n".intercalate (content.fields.map fun field => fieldText ⟨reg, id, defn, field⟩))
      (content.fields.map fun field => fieldEntry ⟨reg, id, defn, field⟩) := by
    refine .all blank_read ?_
    rw [forall₂_map_left_iff, forall₂_map_right_iff, forall₂_same]
    intro field member
    exact fieldText_adds (fields field member).1 (fields field member).2
  have noBreak : '\n' ∉ ("pub struct " ++ defn.identifier).toList := by
    simpa using (plainType_of_name named).not_mem (by decide)
  have item := gives_item noBreak (structLine_read _) adds
  have marks : language.Gives "#[skip_serializing_none]" [] := mark_gives (by simp) (by simp)
  have derives : language.Gives
      "#[derive(Debug, Clone, PartialEq, Serialize, Deserialize)]" [] :=
    mark_gives (by simp) (by simp)
  have spelled :
      "#[skip_serializing_none]\n#[derive(Debug, Clone, PartialEq, Serialize, Deserialize)]\n" =
        "#[skip_serializing_none]" ++ "\n" ++
          "#[derive(Debug, Clone, PartialEq, Serialize, Deserialize)]" ++ "\n" := by simp
  have whole := marks.next (derives.next item)
  simp only [String.append_assoc] at whole
  delta structText
  simp only [spelled, String.append_assoc]
  exact whole

variable {members : List String}

/-- The lines for the members of an enum. -/
theorem variantLines_ok {earlier lines : List String}
    (done : variantLines defn earlier members = .ok lines) :
    lines = (members.map fun member => renameLines member (memberIdentifier member) ++
      ["    " ++ memberIdentifier member ++ ","]).flatten := by
  induction members generalizing earlier lines with
  | nil =>
    cases done
    rfl
  | cons member members ih =>
    rw [variantLines] at done
    split at done
    · cases done
    · obtain ⟨later, found, rfl⟩ := map_ok_iff.mp done
      rw [ih found]
      rfl

/-- The lines of a member of an enum. -/
theorem memberLines_add {member : String} (plain : PlainName member) :
    language.Adds .choice ("\n".intercalate (renameLines member (memberIdentifier member) ++
      ["    " ++ memberIdentifier member ++ ","])) [memberEntry member] := by
  have isPlain : PlainName (memberIdentifier member) := avoidKeyword_plain (pascalCase_plain plain)
  refine adds_entry plain _ ?_ (memberLine_read isPlain)
  simpa using (plainType_of_name isPlain).not_mem (by decide)

/-- An enum gives its members. -/
theorem enumText_gives {text : String} (named : PlainName defn.identifier)
    (plain : ∀ member ∈ members, PlainName member)
    (written : ofEnum defn members = .ok text) :
    language.Gives text [⟨.choice, defn.identifier, members.map memberEntry⟩] := by
  obtain ⟨lines, found, same⟩ := bind_ok_iff.mp written
  obtain rfl := Except.ok.inj same
  have adds : language.Adds .choice ("\n".intercalate lines) (members.map memberEntry) := by
    intro items name entries
    rw [variantLines_ok found, Language.read_flatten blank_read]
    refine Language.Adds.all blank_read ?_ items name entries
    rw [forall₂_map_left_iff, forall₂_map_left_iff, forall₂_map_right_iff, forall₂_same]
    exact fun member listed => memberLines_add (plain member listed)
  have noBreak : '\n' ∉ ("pub enum " ++ defn.identifier).toList := by
    simpa using (plainType_of_name named).not_mem (by decide)
  have derives : language.Gives
      "#[derive(Debug, Clone, Copy, PartialEq, Eq, Hash, Serialize, Deserialize)]" [] :=
    mark_gives (by simp) (by simp)
  have whole := derives.next (gives_item noBreak (enumLine_read _) adds)
  have spelled :
      "#[derive(Debug, Clone, Copy, PartialEq, Eq, Hash, Serialize, Deserialize)]\npub enum " =
        "#[derive(Debug, Clone, Copy, PartialEq, Eq, Hash, Serialize, Deserialize)]" ++ "\n" ++
          "pub enum " := by simp
  simp only [String.append_assoc] at whole
  simp only [spelled, String.append_assoc]
  exact whole

/-- A union enum gives its variants with the types they hold. -/
theorem unionText_gives {variants : List (String × String)} (named : PlainName name)
    (plain : ∀ variant ∈ variants, PlainName variant.1 ∧ PlainType variant.2) :
    language.Gives (unionText name variants)
      [⟨.choice, name, variants.map fun variant => entryOf variant.1 (some variant.2)⟩] := by
  have adds : language.Adds .choice ("\n".intercalate (variants.map fun variant =>
      "    " ++ variant.1 ++ "(" ++ variant.2 ++ "),"))
      (variants.map fun variant => entryOf variant.1 (some variant.2)) := by
    refine .all blank_read ?_
    rw [forall₂_map_left_iff, forall₂_map_right_iff, forall₂_same]
    intro variant listed
    obtain ⟨isPlain, typed⟩ := plain variant listed
    refine .line ?_ (armLine_read isPlain typed)
    simpa using ⟨(plainType_of_name isPlain).not_mem (by decide), typed.not_mem (by decide)⟩
  have noBreak : '\n' ∉ ("pub enum " ++ name).toList := by
    simpa using (plainType_of_name named).not_mem (by decide)
  have derives : language.Gives
      "#[derive(Debug, Clone, PartialEq, Serialize, Deserialize)]" [] :=
    mark_gives (by simp) (by simp)
  have marks : language.Gives "#[serde(untagged)]" [] := mark_gives (by simp) (by simp)
  have whole := derives.next (marks.next (gives_item noBreak (enumLine_read _) adds))
  have spelled : "#[derive(Debug, Clone, PartialEq, Serialize, Deserialize)]\n#[serde(untagged)]\npub enum " =
        "#[derive(Debug, Clone, PartialEq, Serialize, Deserialize)]" ++ "\n" ++
          ("#[serde(untagged)]" ++ "\n" ++ "pub enum ") := by simp
  simp only [String.append_assoc] at whole
  delta unionText
  simp only [spelled, String.append_assoc]
  exact whole

end Texts

/-! ## Plain types and variants -/

section Plain

theorem PlainType.append {first second : String} (plain : PlainType first)
    (alsoPlain : PlainType second) : PlainType (first ++ second) := by
  intro c member
  rw [String.toList_append, mem_append] at member
  exact member.elim (plain c) (alsoPlain c)

/-- A type inside the brackets of another. -/
theorem PlainType.inside {opening type : String} (opens : PlainType opening)
    (plain : PlainType type) : PlainType (opening ++ type ++ ">") :=
  (opens.append plain).append (by decide)

theorem ofPrimitive_plain (kind : Primitive) : PlainType (ofPrimitive kind) := by
  cases kind <;> decide

theorem keyword_plain (kind : Primitive) : PlainName kind.keyword := by
  cases kind <;> decide

variable {ctx : FieldContext}

/-- All that is named for a field is plain. -/
structure PlainContext (context : FieldContext) : Prop where
  definitions : ∀ definition ∈ context.registry.definitions, PlainName definition.name
  owner : PlainName context.owner.name
  field : PlainName context.field.name

theorem PlainContext.identifier (plain : PlainContext ctx) (id : Nat) :
    PlainName (RustType.identifier ctx id) := by
  unfold RustType.identifier
  cases found : ctx.registry.get? id with
  | none => exact fun c member => nomatch member
  | some defn =>
    exact pascalCase_plain (plain.definitions defn (mem_of_getElem? found))

theorem PlainContext.unionName (plain : PlainContext ctx) : PlainName (unionName ctx) :=
  (pascalCase_plain plain.owner).append (pascalCase_plain plain.field)

/-- The text for a type is plain. -/
theorem PlainContext.type (plain : PlainContext ctx) (insideVector : Bool)
    (type : FieldType Nat) :
    PlainType ((RustType.ofFieldType ctx insideVector type).text ctx) := by
  cases type with
  | primitive kind => exact ofPrimitive_plain kind
  | range kind least greatest => exact ofPrimitive_plain kind.primitive
  | reference id =>
    rw [RustType.ofFieldType]
    split
    · exact .inside (by decide) (plainType_of_name (plain.identifier id))
    · exact plainType_of_name (plain.identifier id)
  | array item => exact .inside (by decide) (plain.type true item)
  | optional inner => exact .inside (by decide) (plain.type insideVector inner)
  | union arms => exact plainType_of_name plain.unionName

theorem PlainContext.variantName (plain : PlainContext ctx) {arm : FieldType Nat}
    {name : String} (done : variantName ctx arm = .ok name) : PlainName name := by
  match arm with
  | .primitive kind =>
    rw [← Except.ok.inj done]
    exact pascalCase_plain (keyword_plain kind)
  | .range kind least greatest =>
    rw [← Except.ok.inj done]
    exact pascalCase_plain (keyword_plain kind.primitive)
  | .reference id =>
    obtain ⟨defn, found, rfl⟩ := map_ok_iff.mp done
    have member := mem_of_getElem? (definition_ok_iff.mp found)
    exact pascalCase_plain (plain.definitions defn member)
  | .array item =>
    obtain ⟨inner, found, rfl⟩ := map_ok_iff.mp done
    exact (plain.variantName found).append (by decide)
  | .optional inner =>
    rw [RustBindings.variantName] at done
    exact plain.variantName done
  | .union arms => cases done

/-- The variant for an arm is plain. -/
theorem PlainContext.variant (plain : PlainContext ctx) (arm : FieldType Nat) :
    PlainName (RustType.variant ctx arm) := by
  unfold RustType.variant
  cases done : RustBindings.variantName ctx arm with
  | error fault => exact fun c member => nomatch member
  | ok name => exact plain.variantName done

end Plain

/-! ## Reading a file back -/

section File

variable {ctx : FieldContext}

theorem ofFieldTypes_eq (ctx : FieldContext) (insideVector : Bool)
    (arms : List (FieldType Nat)) : RustType.ofFieldTypes ctx insideVector arms =
      arms.map (RustType.ofFieldType ctx insideVector) := by
  induction arms with
  | nil => rfl
  | cons arm arms ih =>
    rw [RustType.ofFieldTypes, ih, map_cons]

/-- An arm makes no enums. -/
theorem enums_of_isArm (insideVector : Bool) {arm : FieldType Nat} (isArm : arm.IsArm) :
    (RustType.ofFieldType ctx insideVector arm).enums ctx = [] := by
  match arm with
  | .primitive _ | .range _ _ _ => rfl
  | .reference id =>
    rw [RustType.ofFieldType]
    split <;> rfl
  | .array item =>
    rw [FieldType.IsArm] at isArm
    exact enums_of_isArm true isArm
  | .optional _ | .union _ => cases isArm

variable {arms : List (FieldType Nat)}

theorem enumsOfAll_of_isArm (insideVector : Bool) (areArms : ∀ arm ∈ arms, arm.IsArm) :
    RustType.enumsOfAll ctx (RustType.ofFieldTypes ctx insideVector arms) = [] := by
  induction arms with
  | nil => rfl
  | cons arm arms ih =>
    obtain ⟨isFirst, areOthers⟩ := forall_mem_cons.mp areArms
    rw [RustType.ofFieldTypes, RustType.enumsOfAll, enums_of_isArm insideVector isFirst,
      ih areOthers]
    rfl

/-- The variants of a choice with the types they hold. -/
def variantsOf (context : FieldContext) (arms : List (FieldType Nat)) : List (String × String) :=
  arms.map fun arm =>
    (RustType.variant context arm, (RustType.ofFieldType context false arm).text context)

/-- A flat choice makes one enum. -/
theorem enums_of_union (areArms : ∀ arm ∈ arms, arm.IsArm) :
    (RustType.ofFieldType ctx false (.union arms)).enums ctx =
      [unionText (unionName ctx) (variantsOf ctx arms)] := by
  rw [RustType.ofFieldType, RustType.enums, enumsOfAll_of_isArm false areArms, ofFieldTypes_eq,
    map_map, zip_map', variantsOf]
  rfl

theorem unionItems_of_isArm (isArm : ctx.field.type.required.IsArm) : unionItems ctx = [] := by
  unfold unionItems
  split
  · rename_i isUnion
    rw [isUnion] at isArm
    cases isArm
  · rfl

/-- The enums of a field are read as the choice on it. -/
theorem enums_give (plain : PlainContext ctx) (isOfField : ctx.field.type.IsOfField) :
    Forall₂ (fun text item => language.Gives text [item])
      ((RustType.ofField ctx).enums ctx) (unionItems ctx) := by
  have sameEnums : (RustType.ofField ctx).enums ctx =
      (RustType.ofFieldType ctx false ctx.field.type.required).enums ctx := by
    unfold RustType.ofField
    cases ctx.field.type <;> rfl
  rw [sameEnums]
  rcases isOfField.required with ⟨arms, isUnion, areArms⟩ | isArm
  · rw [unionItems, isUnion, enums_of_union areArms]
    refine .cons ?_ .nil
    have plainVariants : ∀ variant ∈ variantsOf ctx arms,
        PlainName variant.1 ∧ PlainType variant.2 := by
      intro variant listed
      obtain ⟨arm, _, rfl⟩ := mem_map.mp listed
      exact ⟨plain.variant arm, plain.type false arm⟩
    have gives := unionText_gives plain.unionName plainVariants
    rw [variantsOf, map_map] at gives
    exact gives
  · rw [enums_of_isArm false isArm, unionItems_of_isArm isArm]
    exact .nil

variable {reg : Registry} {id : Nat} {definition defn : Definition} {text : String}

/-- The context of a field of a definition is plain. -/
theorem plainContext_of_proper (proper : reg.Proper)
    (member : defn ∈ reg.definitions) {field : DefinedField}
    (isField : field ∈ defn.fields) :
    PlainContext ⟨reg, id, defn, field⟩ :=
  ⟨proper.plain, proper.plain defn member, proper.plainFields defn member field isField⟩

/-- The enums of the fields are read as the choices on them. -/
theorem enumTexts_give {fields : List DefinedField}
    (plain : ∀ field ∈ fields, PlainContext ⟨reg, id, defn, field⟩)
    (shaped : ∀ field ∈ fields, field.type.IsOfField) :
    Forall₂ (fun text item => language.Gives text [item])
      (enumTexts reg id defn fields)
      (fields.flatMap fun field => unionItems ⟨reg, id, defn, field⟩) := by
  induction fields with
  | nil => exact .nil
  | cons field fields ih =>
    obtain ⟨firstPlain, restPlain⟩ := forall_mem_cons.mp plain
    obtain ⟨firstShaped, restShaped⟩ := forall_mem_cons.mp shaped
    rw [enumTexts, flatMap_cons, flatMap_cons]
    exact rel_append (enums_give firstPlain firstShaped)
      (ih restPlain restShaped)

/-- The text of a definition is read as its items. -/
theorem block_gives (proper : reg.Proper) (shaped : reg.Shaped)
    (member : defn ∈ reg.definitions) (block : Block reg id defn text) :
    language.Gives text (itemsOf reg id defn) := by
  have named : PlainName defn.identifier := pascalCase_plain (proper.plain defn member)
  cases block with
  | @enumeration members _ body written =>
    rw [itemsOf, ownItem, unionsOf, Definition.fields, body]
    exact enumText_gives named (shaped.members defn member members body) written
  | @record content body =>
    have isField : ∀ field ∈ content.fields, field ∈ defn.fields := by
      intro field listed
      rw [Definition.fields, body]
      exact listed
    have plain : ∀ field ∈ content.fields, PlainContext ⟨reg, id, defn, field⟩ :=
      fun field listed => plainContext_of_proper proper member (isField field listed)
    have struct : language.Gives (structText reg id defn content) _ :=
      structText_gives named fun field listed =>
        ⟨(plain field listed).field, (plain field listed).type false field.type⟩
    have enums := enumTexts_give plain fun field listed =>
      shaped.types defn member field (isField field listed)
    have whole := Language.Gives.all blank_read
      (.cons struct (forall₂_map_right_iff.mpr enums))
    rw [flatten_cons, ← flatMap_def, flatMap_singleton'] at whole
    rw [itemsOf, ownItem, unionsOf, Definition.fields, body]
    exact whole

/-- The lines before the first definition say nothing. -/
theorem preamble_gives : ∀ line ∈ preamble, language.Gives line [] := by
  have header : language.Gives generatedHeader [] :=
    .silent (by simp [generatedHeader]) (by simp [generatedHeader, language])
  have blank : language.Gives "" [] := .silent (by simp) (by simp [language])
  have serde : language.Gives "use serde::\x7bDeserialize, Serialize\x7d;" [] :=
    .silent (by simp) (by simp [language])
  have serdeWith : language.Gives "use serde_with::skip_serializing_none;" [] :=
    .silent (by simp) (by simp [language])
  simp only [preamble, forall_mem_cons, not_mem_nil, IsEmpty.forall_iff, implies_true, and_true]
  exact ⟨header, blank, serde, serdeWith, blank⟩

/-- Generated bindings are read as the items of all definitions, in their order. -/
theorem generate_items (proper : reg.Proper) (shaped : reg.Shaped)
    (generated : Target.rust.generate reg = .ok text) :
    language.items? text =
      some (reg.numbered.flatMap fun numbered => itemsOf reg numbered.1 numbered.2) := by
  obtain ⟨_, _, others⟩ := bind_ok_iff.mp generated
  obtain ⟨blocks, written, same⟩ := bind_ok_iff.mp others
  obtain rfl := Except.ok.inj same
  have before : Forall₂ language.Gives preamble (preamble.map fun _ => []) :=
    forall₂_map_right_iff.mpr (forall₂_same.mpr preamble_gives)
  have behind : Forall₂ language.Gives blocks
      (reg.numbered.map fun numbered => itemsOf reg numbered.1 numbered.2) := by
    refine forall₂_map_right_iff.mpr (Forall₂.flip ?_)
    exact forall₂_imp (generate_ok written) fun numbered member block isBlock =>
      block_gives proper shaped (Registry.mem_of_numbered member) isBlock
  have nothing : (preamble.map fun _ => ([] : List Item)).flatten = [] := rfl
  have whole := Language.Gives.all blank_read (rel_append before behind)
  rw [flatten_append, nothing, ← flatMap_def] at whole
  exact whole.items?

end File

end SchemaLang.RustBindings
