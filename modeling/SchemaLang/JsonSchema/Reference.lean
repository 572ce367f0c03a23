import SchemaLang.Json.Pointer

/-!
# References

A reference of a schema leads to a part of the same document: an address of the
document, which may be left out, a number sign and the pointer to the part. Characters
that have no place in a reference are written as bytes, each a percent sign and two
hexadecimal digits.
-/

namespace SchemaLang.JsonSchema

/-- The characters that stand for themselves in a reference. -/
def isReferenceCharacter (c : Char) : Bool :=
  c.isAlphanum || "-._~!$&'()*+,;=:@/?".toList.contains c

/-- Whether a text holds only what may stand in a reference after the number sign. -/
def isFragment : List Char → Bool
  | [] => true
  | '%' :: high :: low :: rest =>
    Text.isHexDigit high && Text.isHexDigit low && isFragment rest
  | c :: rest => isReferenceCharacter c && isFragment rest

/-- Whether a text is written as a reference. -/
def isReference (text : String) : Bool :=
  let beforeSign := text.toList.takeWhile (· ≠ '#')
  isFragment beforeSign && isFragment (text.toList.drop (beforeSign.length + 1))

/-- The value of a percent sign and two digits. -/
def percentByte? (high low : Char) : Option UInt8 :=
  if Text.isHexDigit high && Text.isHexDigit low then
    some (UInt8.ofNat (Text.hexNumber [high, low]))
  else none

/-- The bytes of a text in which bytes may be written with percent signs. -/
def percentBytes : List Char → List UInt8
  | '%' :: high :: low :: rest =>
    match percentByte? high low with
    | some byte => byte :: percentBytes rest
    | none => ['%', high, low].flatMap String.utf8EncodeChar ++ percentBytes rest
  | c :: rest => String.utf8EncodeChar c ++ percentBytes rest
  | [] => []

/-- The scheme of the address that a document has for its own references. -/
def documentScheme : List Char := "json-schema".toList

/-- The segments of a path: the text between its slashes. -/
def segments (path : List Char) : List (List Char) := path.splitOn '/'

/-- Follow the segments of a path from a place, given as the segments that lead to it
in reverse. One point stays, two points lead back, and at the end of the path both
leave a segment without a name. -/
def followSegments : List (List Char) → List (List Char) → List (List Char)
  | place, [] => place.reverse
  | place, ['.'] :: [] => ([] :: place).reverse
  | place, ['.', '.'] :: [] => ([] :: place.drop 1).reverse
  | place, ['.'] :: rest => followSegments place rest
  | place, ['.', '.'] :: rest => followSegments (place.drop 1) rest
  | place, segment :: rest => followSegments (segment :: place) rest

/-- A text in which points are written as themselves. -/
def plainPoints : List Char → List Char
  | '%' :: '2' :: 'E' :: rest => '.' :: plainPoints rest
  | '%' :: '2' :: 'e' :: rest => '.' :: plainPoints rest
  | c :: rest => c :: plainPoints rest
  | [] => []

/-- Whether a path, without its leading slash, leads to the root. -/
def leadsToRoot (path : List Char) : Bool :=
  followSegments [] ((followSegments [] (segments path)).map plainPoints) = [[]]

/-- The text after the scheme of a document's own address, if that is how it starts.
Letter case does not count in a scheme. -/
def afterDocumentScheme? (text : List Char) : Option (List Char) :=
  let scheme := text.takeWhile (· ≠ ':')
  if scheme.map Char.toLower = documentScheme then some (text.drop (scheme.length + 1)) else none

/-- Whether the part of a reference before its number sign leads to the document
itself. The document has an address with an empty host and the root as its path;
what names a host or asks a question leads elsewhere. -/
def isDocument (text : List Char) : Bool :=
  match (afterDocumentScheme? text).isSome, (afterDocumentScheme? text).getD text with
  | true, '/' :: '/' :: '/' :: path => leadsToRoot path
  | true, _ => false
  | false, [] => true
  | false, '/' :: '/' :: '/' :: path => leadsToRoot path
  | false, '/' :: '/' :: _ => false
  | false, '/' :: path => leadsToRoot path
  | false, path => leadsToRoot path

/-- The pointer of a reference inside the document. A pointer starts with a slash that
is written as itself; without one the reference is to the whole document. -/
def referencePointer? (text : String) : Option Pointer :=
  let beforeSign := text.toList.takeWhile (· ≠ '#')
  if isDocument beforeSign then
    match text.toList.drop (beforeSign.length + 1) with
    | [] => some []
    | '/' :: steps =>
      (String.fromUTF8? ⟨(percentBytes ('/' :: steps)).toArray⟩).bind Pointer.ofText?
    | _ => none
  else none

end SchemaLang.JsonSchema
