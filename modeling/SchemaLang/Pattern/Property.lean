import SchemaLang.Pattern.Tree
import SchemaLang.Text.Age
import SchemaLang.Text.Segmentation

/-!
# Character properties in patterns

A property is asked for by its name alone, or by the name of a family and a value in
it: a general category, a script, the version that added a character, or a class of one
of the divisions of text. This module says which names exist.
-/

namespace SchemaLang.Pattern

open Text in
/-- The characters of a general category, named as names are compared. -/
def categorySet? (name : String) : Option (Char → Bool) :=
  let one (category : GeneralCategory) : Option (Char → Bool) :=
    some fun c => GeneralCategory.ofChar c = category
  let kind (holds : GeneralCategory → Bool) : Option (Char → Bool) :=
    some fun c => holds (GeneralCategory.ofChar c)
  match name with
  | "any" => some fun _ => true
  | "assigned" => kind (· ≠ .unassigned)
  | "ascii" => some fun c => c.toNat < 128
  | "c" | "other" => kind GeneralCategory.isOther
  | "cc" | "control" | "cntrl" => one .control
  | "cf" | "format" => one .format
  | "cn" | "unassigned" => one .unassigned
  | "co" | "privateuse" => one .privateUse
  | "l" | "letter" => kind GeneralCategory.isLetter
  | "lc" | "casedletter" =>
    kind fun g => g = .uppercaseLetter || g = .lowercaseLetter || g = .titlecaseLetter
  | "ll" | "lowercaseletter" => one .lowercaseLetter
  | "lm" | "modifierletter" => one .modifierLetter
  | "lo" | "otherletter" => one .otherLetter
  | "lt" | "titlecaseletter" => one .titlecaseLetter
  | "lu" | "uppercaseletter" => one .uppercaseLetter
  | "m" | "mark" | "combiningmark" => kind GeneralCategory.isMark
  | "mc" | "spacingmark" => one .spacingMark
  | "me" | "enclosingmark" => one .enclosingMark
  | "mn" | "nonspacingmark" => one .nonspacingMark
  | "n" | "number" => kind GeneralCategory.isNumber
  | "nd" | "decimalnumber" | "digit" => one .decimalNumber
  | "nl" | "letternumber" => one .letterNumber
  | "no" | "othernumber" => one .otherNumber
  | "p" | "punctuation" | "punct" => kind GeneralCategory.isPunctuation
  | "pc" | "connectorpunctuation" => one .connectorPunctuation
  | "pd" | "dashpunctuation" => one .dashPunctuation
  | "pe" | "closepunctuation" => one .closePunctuation
  | "pf" | "finalpunctuation" => one .finalPunctuation
  | "pi" | "initialpunctuation" => one .initialPunctuation
  | "po" | "otherpunctuation" => one .otherPunctuation
  | "ps" | "openpunctuation" => one .openPunctuation
  | "s" | "symbol" => kind GeneralCategory.isSymbol
  | "sc" | "currencysymbol" => one .currencySymbol
  | "sk" | "modifiersymbol" => one .modifierSymbol
  | "sm" | "mathsymbol" => one .mathSymbol
  | "so" | "othersymbol" => one .otherSymbol
  | "z" | "separator" => kind GeneralCategory.isSeparator
  | "zl" | "lineseparator" => one .lineSeparator
  | "zp" | "paragraphseparator" => one .paragraphSeparator
  | "zs" | "spaceseparator" => one .spaceSeparator
  | _ => none

open Text in
/-- The characters a property holds of. None if there is no such property. Three names
of properties that are no sets are left to the general categories. -/
def Property.set? : Property → Option (Char → Bool)
  | .named name =>
    let name := looseName name
    let property := if name = "cf" ∨ name = "sc" ∨ name = "lc" then none else binaryProperty? name
    property <|> categorySet? name <|> scriptSet? name
  | .valued name value =>
    let value := looseName value
    match looseName name with
    | "gc" | "generalcategory" => categorySet? value
    | "sc" | "script" => scriptSet? value
    | "scx" | "scriptextensions" => (scriptUse? value).map ScriptUse.holds
    | "age" => ageSet? value
    | "gcb" | "graphemeclusterbreak" => graphemeBreaks.class? value
    | "wb" | "wordbreak" => wordBreaks.class? value
    | "sb" | "sentencebreak" => sentenceBreaks.class? value
    | _ => none

end SchemaLang.Pattern
