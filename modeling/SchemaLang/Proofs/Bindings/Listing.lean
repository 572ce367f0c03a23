import Mathlib.Data.List.Forall2
import Mathlib.Data.List.TakeWhile
import SchemaLang.Bindings.Identifier

/-!
# Listings

Generated source text is read line by line: a line opens an item, adds an entry to the item that
is open, gives the next entry another name, closes the item, or says nothing. A text is a listing
of items if every line has a meaning where it stands. What a line means depends on the language,
so the languages differ only in their reading of single lines.
-/

namespace SchemaLang.Listing

open List

/-- An entry of an item: a field, a variant or a property, with its type as written. -/
structure Entry where
  rename? : Option String
  name : String
  isOptional : Bool
  type? : Option String
deriving DecidableEq, Repr

/-- The name that an entry has in data. -/
def Entry.key (entry : Entry) : String := entry.rename?.getD entry.name

/-- Items are products of their entries, or choices among them. -/
inductive ItemKind where
  | product
  | choice
deriving DecidableEq, Repr

/-- An item that a text declares. -/
structure Item where
  kind : ItemKind
  name : String
  entries : List Entry
deriving DecidableEq, Repr

/-- What a line says. -/
inductive Line where
  | silent
  | opens (kind : ItemKind) (name : String)
  | renames (name : String)
  | adds (kind : ItemKind) (entry : Entry)
  | closes
  | states (item : Item)
deriving DecidableEq, Repr

/-- What has been read: the items, the one that is open, and the name for its next entry. -/
structure Reader where
  items : List Item
  open? : Option Item
  rename? : Option String
deriving DecidableEq, Repr

namespace Reader

/-- Read a line, if it may stand here. -/
def step : Reader → Line → Option Reader
  | reader, .silent => some reader
  | ⟨items, none, none⟩, .opens kind name => some ⟨items, some ⟨kind, name, []⟩, none⟩
  | ⟨items, none, none⟩, .states item => some ⟨items ++ [item], none, none⟩
  | ⟨items, some item, none⟩, .renames name => some ⟨items, some item, some name⟩
  | ⟨items, some item, rename?⟩, .adds kind entry =>
    if item.kind = kind then
      some ⟨items, some { item with entries := item.entries ++ [{ entry with rename? }] }, none⟩
    else none
  | ⟨items, some item, none⟩, .closes => some ⟨items ++ [item], none, none⟩
  | _, _ => none

/-- The reader between items. -/
abbrev between (items : List Item) : Reader := ⟨items, none, none⟩

/-- The reader inside an item with the entries so far. -/
abbrev inside (items : List Item) (kind : ItemKind) (name : String) (entries : List Entry) :
    Reader := ⟨items, some ⟨kind, name, entries⟩, none⟩

end Reader

/-- How a language reads a line. -/
abbrev Language := List Char → Option Line

variable {texts : List String} {kind : ItemKind}

namespace Language

variable (language : Language)

/-- Read the lines of a text. -/
def read (text : String) (reader : Reader) : Option Reader :=
  (text.toList.splitOn '\n').foldlM (fun reader line => (language line).bind reader.step) reader

/-- The items that a text declares, if it is a listing. -/
def items? (text : String) : Option (List Item) :=
  match language.read text (.between []) with
  | some ⟨items, none, none⟩ => some items
  | _ => none

variable {language} {first rest text : String} {start middle final : Reader}

/-- Lines are read one after the other. -/
theorem read_append (first rest : String) (reader : Reader) :
    language.read (first ++ "\n" ++ rest) reader =
      (language.read first reader).bind (language.read rest) := by
  have cut : (first ++ "\n" ++ rest).toList = first.toList ++ '\n' :: rest.toList := by simp
  rw [read, cut, splitOn_append_cons_self, foldlM_append]
  rfl

/-- A text of one line is read as this line. -/
theorem read_line (noBreak : '\n' ∉ text.toList) (reader : Reader) :
    language.read text reader = (language text.toList).bind reader.step := by
  rw [read, splitOn_eq_singleton noBreak, foldlM_cons]
  exact bind_pure _

/-- Texts on lines of their own are read one after the other. -/
theorem read_intercalate (blank : language [] = some .silent) (texts : List String)
    (reader : Reader) : language.read ("\n".intercalate texts) reader =
      texts.foldlM (fun reader text => language.read text reader) reader := by
  induction texts generalizing reader with
  | nil =>
    have silent : language "".toList = some .silent := blank
    rw [String.intercalate_nil, read_line (by simp), silent]
    rfl
  | cons first rest ih =>
    cases rest with
    | nil =>
      rw [String.intercalate_singleton, foldlM_cons]
      cases language.read first reader <;> rfl
    | cons second rest =>
      rw [String.intercalate_cons_cons, read_append, foldlM_cons]
      exact congrArg _ (funext ih)

/-- Groups of lines are read like the lines themselves. -/
theorem read_flatten (blank : language [] = some .silent) (groups : List (List String))
    (reader : Reader) : language.read ("\n".intercalate groups.flatten) reader =
      language.read ("\n".intercalate (groups.map "\n".intercalate)) reader := by
  rw [read_intercalate blank, read_intercalate blank]
  induction groups generalizing reader with
  | nil => rfl
  | cons group groups ih =>
    rw [flatten_cons, foldlM_append, map_cons, foldlM_cons, read_intercalate blank]
    exact congrArg _ (funext ih)

/-- A text adds items between items. -/
def Gives (language : Language) (text : String) (made : List Item) : Prop :=
  ∀ items, language.read text (.between items) = some (.between (items ++ made))

/-- A text adds entries inside an item. -/
def Adds (language : Language) (kind : ItemKind) (text : String) (made : List Entry) : Prop :=
  ∀ items name entries, language.read text (.inside items kind name entries) =
    some (.inside items kind name (entries ++ made))

theorem Gives.items? {items : List Item} (gives : language.Gives text items) :
    language.items? text = some items := by
  rw [Language.items?, gives]
  rfl

/-- A line that says nothing gives no items. -/
theorem Gives.silent (noBreak : '\n' ∉ text.toList)
    (isSilent : language text.toList = some .silent) : language.Gives text [] := by
  intro items
  rw [read_line noBreak, isSilent, append_nil]
  rfl

/-- A line that states an item gives this item. -/
theorem Gives.stated {item : Item} (noBreak : '\n' ∉ text.toList)
    (states : language text.toList = some (.states item)) : language.Gives text [item] := by
  intro items
  rw [read_line noBreak, states]
  rfl

/-- Two texts on lines of their own give what both give. -/
theorem Gives.next {made more : List Item} (gives : language.Gives first made)
    (givesMore : language.Gives rest more) :
    language.Gives (first ++ "\n" ++ rest) (made ++ more) := by
  intro items
  rw [read_append, gives, ← append_assoc]
  exact givesMore _

/-- Texts on lines of their own give what each of them gives. -/
theorem Gives.all (blank : language [] = some .silent) {made : List (List Item)}
    (each : Forall₂ language.Gives texts made) :
    language.Gives ("\n".intercalate texts) made.flatten := by
  intro items
  rw [read_intercalate blank]
  induction each generalizing items with
  | nil => simp [pure]
  | cons first _ ih =>
    rw [foldlM_cons, first, flatten_cons, ← append_assoc]
    exact ih _

/-- A line that adds an entry, with the line before it that gives the entry its name. -/
theorem Adds.line {entry : Entry} (noBreak : '\n' ∉ text.toList)
    (adds : language text.toList = some (.adds kind entry)) :
    language.Adds kind text [{ entry with rename? := none }] := by
  intro items name entries
  rw [read_line noBreak, adds]
  simp [Reader.step]

theorem Adds.renamed {entry : Entry} {rename : String} (noBreakBefore : '\n' ∉ first.toList)
    (noBreak : '\n' ∉ text.toList) (renames : language first.toList = some (.renames rename))
    (adds : language text.toList = some (.adds kind entry)) :
    language.Adds kind (first ++ "\n" ++ text) [{ entry with rename? := some rename }] := by
  intro items name entries
  rw [read_append, read_line noBreakBefore, renames]
  show language.read text ⟨items, some ⟨kind, name, entries⟩, some rename⟩ = _
  rw [read_line noBreak, adds]
  simp [Reader.step]

variable {made : List Entry}

/-- Texts that are read one after the other add what each of them adds. -/
theorem foldlM_adds
    (each : Forall₂ (fun text entry => language.Adds kind text [entry]) texts made)
    (items : List Item) (name : String) (entries : List Entry) :
    texts.foldlM (fun reader text => language.read text reader)
        (.inside items kind name entries) =
      some (.inside items kind name (entries ++ made)) := by
  induction each generalizing entries with
  | nil => simp [pure]
  | @cons _ entry _ later first _ ih =>
    rw [foldlM_cons, first, append_cons entries entry later]
    exact ih _

/-- Texts on lines of their own add what each of them adds. -/
theorem Adds.all (blank : language [] = some .silent)
    (each : Forall₂ (fun text entry => language.Adds kind text [entry]) texts made) :
    language.Adds kind ("\n".intercalate texts) made := by
  intro items name entries
  rw [read_intercalate blank]
  exact foldlM_adds each items name entries

/-- An item between its first and its last line. -/
theorem Gives.item {name opening closing : String} (noBreak : '\n' ∉ opening.toList)
    (opens : language opening.toList = some (.opens kind name))
    (adds : language.Adds kind text made) (noBreakAfter : '\n' ∉ closing.toList)
    (closes : language closing.toList = some .closes) :
    language.Gives (opening ++ "\n" ++ (text ++ "\n" ++ closing)) [⟨kind, name, made⟩] := by
  intro items
  rw [read_append, read_line noBreak, opens]
  show language.read _ (.inside items kind name []) = _
  rw [read_append, adds, nil_append]
  show language.read _ (.inside items kind name made) = _
  rw [read_line noBreakAfter, closes]
  rfl

end Language

/-! ## Pieces of lines -/

/-- What stands between a beginning and an ending of a line. -/
def between? (beginning ending : String) (line : List Char) : Option (List Char) :=
  (beginning.toList.isPrefixOf? line).bind ending.toList.isSuffixOf?

theorem between?_eq (beginning ending : String) (middle : List Char) :
    between? beginning ending (beginning.toList ++ (middle ++ ending.toList)) = some middle := by
  rw [between?, isPrefixOf?_eq_some_iff_append_eq.mpr rfl]
  exact isSuffixOf?_eq_some_iff_append_eq.mpr rfl

theorem between?_eq_none {beginning : String} {line : List Char}
    (differs : ∀ rest, beginning.toList ++ rest ≠ line) (ending : String) :
    between? beginning ending line = none := by
  rw [between?, Option.bind_eq_none_iff]
  intro rest found
  exact absurd (isPrefixOf?_eq_some_iff_append_eq.mp found) (differs rest)

/-- A line before and from the first place of a character. -/
def cutAt (stop : Char) (line : List Char) : List Char × List Char :=
  (line.takeWhile (· != stop), line.dropWhile (· != stop))

theorem cutAt_append {stop : Char} {before : List Char} (absent : stop ∉ before)
    (behind : List Char) : cutAt stop (before ++ stop :: behind) = (before, stop :: behind) := by
  have differs : ∀ c ∈ before, (c != stop) = true := fun c member =>
    bne_iff_ne.mpr fun same => absent (same ▸ member)
  rw [cutAt, takeWhile_append_of_pos differs, dropWhile_append_of_pos differs,
    takeWhile_cons_of_neg (by simp), dropWhile_cons_of_neg (by simp), append_nil]

theorem cutAt_whole {stop : Char} {line : List Char} (absent : stop ∉ line) :
    cutAt stop line = (line, []) := by
  have differs : ∀ c ∈ line, (c != stop) = true := fun c member =>
    bne_iff_ne.mpr fun same => absent (same ▸ member)
  rw [cutAt, takeWhile_eq_self_iff.mpr differs, dropWhile_eq_nil_iff.mpr differs]

end SchemaLang.Listing
