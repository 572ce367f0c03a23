import SchemaLang.JsonSchema.Draft
import SchemaLang.JsonSchema.Reference
import SchemaLang.JsonSchema.Schema

/-!
# The shape of schema documents

A document has the shape of a schema if each keyword in it has a value of the right
kind, in every schema inside it, also in definitions that nothing refers to and beside
references. Keywords that are not known may have any value, and so may the listed values
of an enumeration, even where a reference leads into one.
-/

namespace SchemaLang.JsonSchema

/-- The fault of a keyword, unless its value is as it should be. -/
def checkKeyword (name : String) (fits : Bool) : Except Fault Unit :=
  if fits then .ok () else .error (.keyword name)

/-- Whether a value is a text. -/
def isText : Json → Bool
  | .string _ => true
  | _ => false

/-- Whether a value is a number. -/
def isNumber : Json → Bool
  | .number _ => true
  | _ => false

/-- Whether a value is a length: a whole number and not negative. -/
def isLength : Json → Bool
  | .number value => value.isWhole && 0 ≤ value.truncated
  | _ => false

/-- The texts that are the items of a value, if all are. -/
def texts? : Json → Option (List String)
  | .array items => items.mapM fun item => match item with | .string text => some text | _ => none
  | _ => none

/-- Whether a value is a list of distinct texts. -/
def isDistinctTexts (value : Json) : Bool :=
  (texts? value).any fun texts => texts.eraseDups.length = texts.length

/-- Whether a value names types: one, or several in a list without repetition. -/
def isTypes : Json → Bool
  | .string name => (SimpleType.ofName? name).isSome
  | .array [] => false
  | value =>
    isDistinctTexts value &&
      (texts? value).any fun names => names.all fun name => (SimpleType.ofName? name).isSome

/-- Check the text of a pattern. If it is looked at, only its escapes and classes have to be
known here. -/
def checkPattern (draft : Draft) : Json → Except Fault Unit
  | .string text =>
    match Pattern.schemaText text.toList with
    | .ok _ => .ok ()
    | .error fault => if draft.checksFormats then .error (.pattern text fault) else .ok ()
  | _ => .error (.keyword "pattern")

/-- Check the value of a keyword that holds no schemas. -/
def checkPlain (draft : Draft) (name : String) (value : Json) : Except Fault Unit :=
  match name with
  | "type" => checkKeyword name (isTypes value)
  | "enum" => checkKeyword name (match value with | .array _ => true | _ => false)
  | "minimum" | "maximum" | "exclusiveMinimum" | "exclusiveMaximum" =>
    checkKeyword name (isNumber value)
  | "minLength" | "maxLength" | "minItems" | "maxItems" => checkKeyword name (isLength value)
  | "pattern" => checkPattern draft value
  | "required" => checkKeyword name (isDistinctTexts value)
  | "$ref" =>
    checkKeyword name (match value with
      | .string text => !draft.checksFormats || isReference text
      | _ => false)
  | "$schema" | "$id" | "$comment" | "title" | "description" | "format" =>
    checkKeyword name (isText value)
  | _ => .ok ()

mutual

/-- Check that a value has the shape of a schema. -/
def checkShape (draft : Draft) : Json → Except Fault Unit
  | .bool _ => .ok ()
  | .object members => checkMembers draft members
  | _ => .error .notASchema

/-- Check the members of a schema. -/
def checkMembers (draft : Draft) : List (String × Json) → Except Fault Unit
  | [] => .ok ()
  | (name, value) :: members => do
    checkMember draft name value
    checkMembers draft members

/-- Check one member of a schema. -/
def checkMember (draft : Draft) (name : String) : Json → Except Fault Unit
  | .object members =>
    match name with
    | "properties" | "definitions" => checkNamed draft members
    | "additionalProperties" | "items" => checkMembers draft members
    | "anyOf" | "allOf" => .error (.keyword name)
    | _ => checkPlain draft name (.object members)
  | .array items =>
    match name with
    | "anyOf" | "allOf" =>
      if items.isEmpty then .error (.keyword name) else checkAll draft items
    | "items" =>
      if items.isEmpty || !draft.itemsInOrder then .error (.keyword name)
      else checkAll draft items
    | "properties" | "definitions" | "additionalProperties" => .error (.keyword name)
    | _ => checkPlain draft name (.array items)
  | .bool value =>
    match name with
    | "additionalProperties" | "items" => .ok ()
    | "anyOf" | "allOf" | "properties" | "definitions" => .error (.keyword name)
    | _ => checkPlain draft name (.bool value)
  | value =>
    match name with
    | "anyOf" | "allOf" | "properties" | "definitions" | "additionalProperties" | "items" =>
      .error (.keyword name)
    | _ => checkPlain draft name value

/-- Check schemas under names. -/
def checkNamed (draft : Draft) : List (String × Json) → Except Fault Unit
  | [] => .ok ()
  | (_, value) :: members => do
    checkShape draft value
    checkNamed draft members

/-- Check schemas in a list. -/
def checkAll (draft : Draft) : List Json → Except Fault Unit
  | [] => .ok ()
  | value :: values => do
    checkShape draft value
    checkAll draft values

end

end SchemaLang.JsonSchema
