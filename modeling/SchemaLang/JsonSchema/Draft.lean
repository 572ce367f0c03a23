import SchemaLang.Json.Value
import SchemaLang.JsonSchema.Fault

/-!
# Drafts

The language of schemas has several versions, its drafts, and a document says by an
address which one it is written in. Without an address it is the latest. The drafts
after the seventh let other keywords stand beside a reference, and take the formats of
texts in a schema for notes to the reader. The latest has one schema for all items of a
list.

The sixth draft differs from the seventh in nothing that is checked here. Drafts before
it write bounds in another way and are not known.
-/

namespace SchemaLang.JsonSchema

/-- The drafts that are told apart. -/
inductive Draft where
  | draft7
  | draft2019
  | draft2020
deriving DecidableEq, Repr

namespace Draft

/-- Whether nothing beside a reference counts. -/
def referenceAlone (draft : Draft) : Bool := draft = .draft7

/-- Whether the items of a list may have a schema for each position. -/
def itemsInOrder (draft : Draft) : Bool := draft ≠ .draft2020

/-- Whether patterns and references have to be written as such wherever they stand. -/
def checksFormats (draft : Draft) : Bool := draft = .draft7

/-- The draft at an address. -/
def at? : String → Option Draft
  | "http://json-schema.org/draft-06/schema" => some .draft7
  | "http://json-schema.org/draft-07/schema" => some .draft7
  | "https://json-schema.org/draft/2019-09/schema" => some .draft2019
  | "https://json-schema.org/draft/2020-12/schema" => some .draft2020
  | _ => none

/-- The draft that a document is written in. Number signs after its address do not
count. -/
def ofDocument (document : Json) : Except Fault Draft :=
  match document.members.lookup "$schema" with
  | some (.string address) =>
    match at? (String.ofList (address.toList.reverse.dropWhile (· = '#')).reverse) with
    | some draft => .ok draft
    | none => .error (.unknownDraft address)
  | _ => .ok .draft2020

end Draft

end SchemaLang.JsonSchema
