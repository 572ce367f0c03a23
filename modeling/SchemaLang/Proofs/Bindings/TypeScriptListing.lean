import SchemaLang.Bindings.Generate
import SchemaLang.Proofs.Bindings.Listing
import SchemaLang.Proofs.Registry.Shapes
import SchemaLang.Proofs.Text.Names

/-!
# Generated TypeScript as a listing

A file of TypeScript bindings is a listing of interfaces, with one property on a line, and of
types that are choices of texts, each on one line. Reading it back gives one item for every
definition, in their order. Keys and texts are read without their quotes.
-/

namespace SchemaLang.TypeScriptBindings

open Outcome List

open Listing

/-! ## Lines -/

/-- Whether a character can stand in a key without quotes. -/
def isKeyChar (c : Char) : Bool := c.isAlphanum || c = '_' || c = '$'

/-- A property behind its key. -/
def propertyAfter? (key : List Char) : List Char → Option Line
  | '?' :: ':' :: ' ' :: type => some (.adds .product ⟨none, .ofList key, true, some (.ofList type)⟩)
  | ':' :: ' ' :: type => some (.adds .product ⟨none, .ofList key, false, some (.ofList type)⟩)
  | _ => none

/-- A property, whose key may stand in quotes. -/
def property? : List Char → Option Line
  | '"' :: quoted =>
    match cutAt '"' quoted with
    | (key, _ :: behind) => propertyAfter? key behind
    | _ => none
  | content => propertyAfter? (content.takeWhile isKeyChar) (content.dropWhile isKeyChar)

/-- Every second item of a list. -/
def everySecond {α : Type} : List α → List α
  | _ :: second :: rest => second :: everySecond rest
  | _ => []

/-- The texts between quotes. -/
def quotedTexts (line : List Char) : List String :=
  (everySecond (line.splitOn '"')).map String.ofList

/-- A choice of texts on one line. -/
def choiceLine? (line : List Char) : Option Line :=
  (between? "export type " ";" line).bind fun content =>
    match cutAt ' ' content with
    | (name, ' ' :: '=' :: ' ' :: texts) =>
      some (.states ⟨.choice, .ofList name,
        (quotedTexts texts).map fun text => ⟨none, text, false, none⟩⟩)
    | _ => none

/-- The first line of an interface, or a choice of texts. -/
def openingLine? (line : List Char) : Option Line :=
  match between? "export interface " " \x7b" line with
  | some name => some (.opens .product (.ofList name))
  | none => choiceLine? line

/-- How a line is read. Comments say nothing. -/
def language : Language
  | [] => some .silent
  | ['\x7d'] => some .closes
  | '/' :: '/' :: _ => some .silent
  | ' ' :: ' ' :: property => (between? "" ";" property).bind property?
  | line => openingLine? line

/-! ## What a registry lists -/

/-- The property for a field. -/
def fieldEntry (registry : Registry) (field : DefinedField) : Entry :=
  ⟨none, field.name, field.isOptional,
    some ((ofType registry field.type.required).toOption.getD "")⟩

/-- The text as a choice. -/
def memberEntry (member : String) : Entry := ⟨none, member, false, none⟩

/-- The item for a definition. -/
def itemOf (registry : Registry) (definition : Definition) : Item :=
  match definition.body with
  | .enumeration members => ⟨.choice, definition.identifier, members.map memberEntry⟩
  | .record content =>
    ⟨.product, definition.identifier, content.fields.map (fieldEntry registry)⟩

/-! ## Reading lines back -/

theorem blank_read : language [] = some .silent := rfl

variable {name : String}

/-- A plain name in quotes is the name between quotes. -/
theorem quote_plain (plain : PlainName name) :
    (Text.quote name).toList = '"' :: (name.toList ++ ['"']) := by
  have same : ∀ c ∈ name.toList, Text.Quoted.escape c = [c] := by
    intro c member
    refine IsNameChar.forall_of (fun c => Text.Quoted.escape c = [c]) (by decide) (plain c member)
  rw [Text.quote, String.toList_ofList, Text.Quoted.encode, flatMap_congr same]
  simp

/-- A key without quotes is made of the characters for keys, and is not empty. -/
theorem isKeyChar_of_isPlainKey (isPlain : isPlainKey name = true) :
    (∀ c ∈ name.toList, isKeyChar c = true) ∧ name.toList ≠ [] := by
  unfold isPlainKey at isPlain
  split at isPlain
  · cases isPlain
  · rename_i first others spelled
    rw [spelled]
    obtain ⟨starts, continues⟩ := Bool.and_eq_true_iff.mp isPlain
    refine ⟨forall_mem_cons.mpr ⟨?_, all_eq_true.mp continues⟩, cons_ne_nil _ _⟩
    simp only [Bool.or_eq_true, isKeyChar, Char.isAlphanum] at starts ⊢
    tauto

variable {key : List Char}

/-- A property with a key without quotes. -/
theorem property?_bare {behind : List Char} (isKey : ∀ c ∈ key, isKeyChar c = true)
    (nonempty : key ≠ []) (stops : ∀ c, behind.head? = some c → isKeyChar c = false) :
    property? (key ++ behind) = propertyAfter? key behind := by
  have none : behind.takeWhile isKeyChar = [] ∧ behind.dropWhile isKeyChar = behind := by
    cases behind with
    | nil => exact ⟨rfl, rfl⟩
    | cons first rest => simp [stops first rfl]
  unfold property?
  split
  · rename_i quoted starts
    cases key with
    | nil => exact absurd rfl nonempty
    | cons first rest =>
      obtain ⟨rfl, _⟩ := cons.inj starts
      exact absurd (isKey _ mem_cons_self) (by decide)
  · rw [takeWhile_append_of_pos isKey, dropWhile_append_of_pos isKey, none.1, none.2, append_nil]

/-- The mark of an optional property. -/
def mark (isOptional : Bool) : String := if isOptional then "?" else ""

theorem propertyAfter?_mark (key : List Char) (isOptional : Bool) (type : List Char) :
    propertyAfter? key ((mark isOptional).toList ++ ':' :: ' ' :: type) =
      some (.adds .product ⟨none, .ofList key, isOptional, some (.ofList type)⟩) := by
  cases isOptional <;> simp [mark, propertyAfter?]

/-- The line of a property is read back, whether its key needs quotes or not. -/
theorem propertyLine_read (plain : PlainName name) (isOptional : Bool) (type : String) :
    language ("  " ++ propertyKey name ++ mark isOptional ++ ": " ++ type ++ ";").toList =
      some (.adds .product ⟨none, name, isOptional, some type⟩) := by
  have spelled : ("  " ++ propertyKey name ++ mark isOptional ++ ": " ++ type ++ ";").toList =
      ' ' :: ' ' :: ("".toList ++ (((propertyKey name).toList ++
        ((mark isOptional).toList ++ ':' :: ' ' :: type.toList)) ++ ";".toList)) := by simp
  rw [spelled, language, between?_eq, Option.bind_some, propertyKey]
  split
  · rename_i isBare
    obtain ⟨isKey, nonempty⟩ := isKeyChar_of_isPlainKey isBare
    rw [property?_bare isKey nonempty, propertyAfter?_mark, String.ofList_toList,
      String.ofList_toList]
    cases isOptional <;> simp [mark, isKeyChar]
  · have noQuote : '"' ∉ name.toList := fun member => absurd (plain _ member) (by decide)
    rw [quote_plain plain, cons_append, append_assoc, singleton_append,
      property?, cutAt_append noQuote]
    dsimp only
    rw [propertyAfter?_mark, String.ofList_toList, String.ofList_toList]

/-- A line that starts with a small e opens an interface or states a choice. -/
theorem language_of_opening {line : List Char} (starts : line.head? = some 'e') :
    language line = openingLine? line := by
  cases line with
  | nil => cases starts
  | cons first rest =>
    obtain rfl := Option.some.inj starts
    rfl

theorem interfaceLine_read (identifier : String) :
    language ("export interface " ++ identifier ++ " \x7b").toList =
      some (.opens .product identifier) := by
  have spelled : ("export interface " ++ identifier ++ " \x7b").toList =
      "export interface ".toList ++ (identifier.toList ++ " \x7b".toList) := by simp
  rw [spelled, language_of_opening (by simp), openingLine?, between?_eq]
  simp

/-- A text in quotes, whatever stands before it. -/
theorem quotedTexts_cons {before : List Char} (noQuoteBefore : '"' ∉ before) (noQuote : '"' ∉ key)
    (behind : List Char) :
    quotedTexts (before ++ '"' :: (key ++ '"' :: behind)) = .ofList key :: quotedTexts behind := by
  rw [quotedTexts, splitOn_append_cons_self_of_not_mem noQuoteBefore,
    splitOn_append_cons_self_of_not_mem noQuote, everySecond, map_cons]
  rfl

/-- The texts of a choice are read back. -/
theorem quotedTexts_choice {before : List Char} (noQuoteBefore : '"' ∉ before)
    {members : List String} (plain : ∀ member ∈ members, PlainName member) :
    quotedTexts (before ++ (" | ".intercalate (members.map Text.quote)).toList) = members := by
  induction members generalizing before with
  | nil =>
    rw [map_nil, String.intercalate_nil, quotedTexts]
    simp [splitOn_eq_singleton noQuoteBefore, everySecond]
  | cons member members ih =>
    obtain ⟨isPlain, arePlain⟩ := forall_mem_cons.mp plain
    have noQuote : '"' ∉ member.toList := fun member => absurd (isPlain _ member) (by decide)
    cases members with
    | nil =>
      rw [map_singleton, String.intercalate_singleton, quote_plain isPlain,
        quotedTexts_cons noQuoteBefore noQuote, String.ofList_toList]
      rfl
    | cons second rest =>
      have spelled : before ++ (" | ".intercalate ((member :: second :: rest).map
          Text.quote)).toList = before ++ '"' :: (member.toList ++ '"' :: (" | ".toList ++
            (" | ".intercalate ((second :: rest).map Text.quote)).toList)) := by
        simp only [map_cons, String.intercalate_cons_cons, String.toList_append,
          quote_plain isPlain, cons_append, append_assoc, nil_append]
      rw [spelled, quotedTexts_cons noQuoteBefore noQuote, ih (by simp) arePlain,
        String.ofList_toList]

theorem choiceLine_read {identifier : String} (named : PlainName identifier)
    {members : List String} (plain : ∀ member ∈ members, PlainName member) :
    language ("export type " ++ identifier ++ " = " ++
        " | ".intercalate (members.map Text.quote) ++ ";").toList =
      some (.states ⟨.choice, identifier, members.map memberEntry⟩) := by
  have spelled : ("export type " ++ identifier ++ " = " ++
      " | ".intercalate (members.map Text.quote) ++ ";").toList = "export type ".toList ++
        ((identifier.toList ++ ' ' :: '=' :: ' ' ::
          (" | ".intercalate (members.map Text.quote)).toList) ++ ";".toList) := by
    simp only [String.toList_append, append_assoc]
    simp
  have noBlank : ' ' ∉ identifier.toList := fun member => absurd (named _ member) (by decide)
  have texts := quotedTexts_choice not_mem_nil plain
  rw [nil_append] at texts
  rw [spelled, language_of_opening (by simp), openingLine?, between?_eq_none (by simp),
    choiceLine?, between?_eq, Option.bind_some, cutAt_append noBlank]
  simp only [texts, String.ofList_toList]
  rfl

/-! ## Reading texts back -/

variable {reg : Registry}

theorem noBreak_of_plain (plain : PlainName name) : '\n' ∉ name.toList :=
  fun member => absurd (plain _ member) (by decide)

theorem noBreak_intercalate {separator : String} (noBreak : '\n' ∉ separator.toList)
    {texts : List String} (each : ∀ text ∈ texts, '\n' ∉ text.toList) :
    '\n' ∉ (separator.intercalate texts).toList := by
  induction texts with
  | nil => simp
  | cons first rest ih =>
    obtain ⟨firstHas, restHave⟩ := forall_mem_cons.mp each
    cases rest with
    | nil => rwa [String.intercalate_singleton]
    | cons second rest =>
      rw [String.intercalate_cons_cons, String.toList_append, String.toList_append,
        mem_append, mem_append, not_or, not_or]
      exact ⟨⟨firstHas, noBreak⟩, ih restHave⟩

variable {text : String}

/-- The text for a type is on one line. -/
theorem ofType_noBreak (plain : ∀ defn ∈ reg.definitions, PlainName defn.name)
    {type : FieldType Nat} (done : ofType reg type = .ok text) : '\n' ∉ text.toList := by
  induction type generalizing text with
  | primitive kind | range kind _ _ =>
    cases done
    cases kind <;> decide
  | reference id =>
    rw [ofType] at done
    split at done
    · rename_i defn found
      cases done
      exact noBreak_of_plain (Text.pascalCase_plain (plain defn (mem_of_getElem? found)))
    · cases done
  | array item ih =>
    obtain ⟨inner, found, rfl⟩ := map_ok_iff.mp done
    have inside := ih found
    split <;> simpa using inside
  | optional inner ih =>
    obtain ⟨held, found, rfl⟩ := map_ok_iff.mp done
    simpa using ih found
  | union arms each =>
    obtain ⟨texts, found, rfl⟩ := map_ok_iff.mp done
    rw [ofArms_eq_mapM] at found
    refine noBreak_intercalate (by simp) fun text member => ?_
    obtain ⟨arm, isArm, here⟩ := exists_left (mapM_ok_iff.mp found) member
    exact each arm isArm here

/-- The line of a field. -/
theorem ofField_adds (plain : ∀ defn ∈ reg.definitions, PlainName defn.name)
    {field : DefinedField} (named : PlainName field.name) {line : String}
    (done : ofField reg field = .ok line) :
    language.Adds .product line [fieldEntry reg field] := by
  obtain ⟨type, found, same⟩ := bind_ok_iff.mp done
  have isLine : line = "  " ++ propertyKey field.name ++ mark field.isOptional ++ ": " ++ type ++
      ";" := (Except.ok.inj same).symm
  have isEntry : fieldEntry reg field = ⟨none, field.name, field.isOptional, some type⟩ := by
    rw [fieldEntry, found]
    rfl
  have noBreak : '\n' ∉ line.toList := by
    have inKey : '\n' ∉ (propertyKey field.name).toList := by
      unfold propertyKey
      split
      · exact noBreak_of_plain named
      · simpa [quote_plain named] using noBreak_of_plain named
    have inMark : '\n' ∉ (mark field.isOptional).toList := by
      unfold mark
      split <;> simp
    simpa [isLine] using ⟨inKey, inMark, ofType_noBreak plain found⟩
  have reads : language line.toList =
      some (.adds .product ⟨none, field.name, field.isOptional, some type⟩) := by
    rw [isLine]
    exact propertyLine_read named field.isOptional type
  rw [isEntry]
  exact Language.Adds.line noBreak reads

/-- The last line of an interface and the blank line behind it. -/
theorem closing_read (items : List Item) (name : String) (made : List Entry) :
    language.read "\x7d\n" (.inside items .product name made) =
      some (.between (items ++ [⟨.product, name, made⟩])) := by
  have spelled : "\x7d\n" = "\x7d" ++ "\n" ++ "" := by simp
  have closes : language "\x7d".toList = some .closes := by simp [language]
  have ends : language.Gives "" [] := .silent (by simp) (by simp [language])
  have behind := ends (items ++ [⟨.product, name, made⟩])
  rw [append_nil] at behind
  rw [spelled, Language.read_append, Language.read_line (by simp), closes]
  exact behind

/-- An interface gives its properties. -/
theorem interface_gives (proper : reg.Proper) {defn : Definition}
    (member : defn ∈ reg.definitions) {content : RecordBody}
    (body : defn.body = .record content) {lines : List String}
    (written : content.fields.mapM (ofField reg) = .ok lines) :
    language.Gives ("\n".intercalate
        (["export interface " ++ defn.identifier ++ " \x7b"] ++ lines ++ ["\x7d\n"]))
      [⟨.product, defn.identifier, content.fields.map (fieldEntry reg)⟩] := by
  intro items
  have named : PlainName defn.identifier := Text.pascalCase_plain (proper.plain defn member)
  have opens : language.read ("export interface " ++ defn.identifier ++ " \x7b")
      (.between items) = some (.inside items .product defn.identifier []) := by
    rw [Language.read_line (by simpa using noBreak_of_plain named), interfaceLine_read]
    rfl
  have each : Forall₂ (fun line entry => language.Adds .product line [entry]) lines
      (content.fields.map (fieldEntry reg)) := by
    refine forall₂_map_right_iff.mpr (Forall₂.flip ?_)
    refine forall₂_imp (mapM_ok_iff.mp written) fun field isField line done => ?_
    refine ofField_adds proper.plain (proper.plainFields defn member field ?_) done
    rwa [Definition.fields, body]
  have adds := Language.foldlM_adds each items defn.identifier []
  rw [Language.read_intercalate blank_read, foldlM_append, foldlM_append]
  simp only [foldlM_cons, foldlM_nil, opens, Option.bind_eq_bind, Option.pure_def,
    Option.bind_some, adds, nil_append, closing_read]

/-- The text of a definition is read as its item. -/
theorem ofDefinition_gives (proper : reg.Proper) (shaped : reg.Shaped)
    {defn : Definition} (member : defn ∈ reg.definitions)
    (done : ofDefinition reg defn = .ok text) :
    language.Gives text [itemOf reg defn] := by
  have named : PlainName defn.identifier := Text.pascalCase_plain (proper.plain defn member)
  unfold ofDefinition at done
  unfold itemOf
  cases body : defn.body with
  | enumeration members =>
    rw [body] at done
    dsimp only at done ⊢
    have plain := shaped.members defn member members body
    have noBreak : '\n' ∉ (" | ".intercalate (members.map Text.quote)).toList := by
      refine noBreak_intercalate (by simp) (forall_mem_map.mpr fun member listed => ?_)
      simpa [quote_plain (plain member listed)] using noBreak_of_plain (plain member listed)
    have oneLine : '\n' ∉ ("export type " ++ defn.identifier ++ " = " ++
        " | ".intercalate (members.map Text.quote) ++ ";").toList := by
      simp only [String.toList_append, mem_append, not_or]
      exact ⟨⟨⟨⟨by simp, noBreak_of_plain named⟩, by simp⟩, noBreak⟩, by simp⟩
    have states := Language.Gives.stated oneLine (choiceLine_read named plain)
    have ends : language.Gives "" [] := .silent (by simp) (by simp [language])
    have spelled : ";\n" = ";" ++ "\n" ++ "" := by simp
    have whole := states.next ends
    rw [← Except.ok.inj done, spelled]
    simp only [String.append_assoc] at whole ⊢
    exact whole
  | record content =>
    rw [body] at done
    obtain ⟨lines, written, same⟩ := bind_ok_iff.mp done
    rw [← Except.ok.inj same]
    exact interface_gives proper member body written

/-- Generated bindings are read as the items of all definitions, in their order. -/
theorem generate_items (proper : reg.Proper) (shaped : reg.Shaped)
    (generated : Target.typeScript.generate reg = .ok text) :
    language.items? text = some (reg.definitions.map (itemOf reg)) := by
  obtain ⟨_, _, others⟩ := bind_ok_iff.mp generated
  obtain ⟨blocks, written, same⟩ := bind_ok_iff.mp others
  obtain rfl := Except.ok.inj same
  have header : language.Gives generatedHeader [] :=
    .silent (by simp [generatedHeader]) (by simp [generatedHeader, language])
  have blank : language.Gives "" [] := .silent (by simp) (by simp [language])
  have behind : Forall₂ language.Gives blocks
      (reg.definitions.map fun defn => [itemOf reg defn]) := by
    refine forall₂_map_right_iff.mpr (Forall₂.flip ?_)
    exact forall₂_imp (mapM_ok_iff.mp written) fun defn member block done =>
      ofDefinition_gives proper shaped member done
  have whole := Language.Gives.all blank_read (.cons header (.cons blank behind))
  rw [flatten_cons, flatten_cons, ← flatMap_def, ← map_eq_flatMap] at whole
  exact whole.items?

end SchemaLang.TypeScriptBindings
