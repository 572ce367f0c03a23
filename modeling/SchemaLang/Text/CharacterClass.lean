import SchemaLang.Text.GeneralCategory

/-!
# Classes of characters

The classes that reading and writing text consult: blanks, decimal digits,
letters in the wide sense, word characters, and the characters a quoted text
shows as they are.
-/

namespace SchemaLang.Text

/-- The characters with the white space property. -/
def blankPoints : CodePoints := .ofLines ["9-d 20 85 a0 1680 2000-a 28-9 f 5f 3000"]

/-- Marks and symbols that count as alphabetic beside the letters. -/
def otherAlphabeticPoints : CodePoints := .ofSteps 1 [
  "BGfaBdmWenbabbbbbaCukBwmbgqaDxgedcbeaBjaBepDykDxbdibcbdEcaCildggtCcbcobbfckbBdcCggcbcbkakbBdcC",
  "geebcbeaBebdalcCghbcbbvbwcecCggcbcbjbkbBeaChedcbckaBoeCfgbcbciblbBdcCggbcbciblbpamdCggbcbckakb",
  "BdcCxfbabhsbCjacgsaDvacfbbqaGhsjkbBjEglbacdxdecbccgddnlbakdCLobBebBebBebCosHgbBiaEoleiIoeCfjct",
  "CwblcBxeBwoCicBeicbCfkBysPwBhCOnBzDKgBfBTQahBibNqaiaxeDkbBypbaCfaBmeBclBtdBwlBlaCpnmaibBtcByab",
  "ccbfaBsefaJdhBDZvaDEdeCMgcbbfdBEidCnaMjbDbaJzcCbnBtblcBtijaCjcBklsbCfcBwmobDoicagacaGbjxdCggcb",
  "cbkakbDgibacabdbbDzmbcEcrJdgcgBdbDeobaEckDznJxmJnfbbcbdabaFmgcfeaBcjBqebdskBunPrhbgDfvbnEsfdab",
  "bbcbadaCoebbbdNkdjbbaBwgdcYYnqFJcabCchdDpbBDAyaNKjgbqcgbbbeDwaDHvaCZwzgzgz"]

/-- Characters that extend a grapheme beside the marks without room. -/
def otherExtendPoints : CodePoints := .ofSteps 1 [
  "DRyayaNuayaDyayaIyabaebbbjbDzayaEpapaDMraBeaBNkafabafbDxaCtbBOiaGCvbBTWtaEeaBGNlbGWmaEmaKeaoaj",
  "aDsajacabcfaIqamaJhaKcaYjamaCHfaBEOkbBKXnbgfBTLAzDr"]

/-- White space, in every script. -/
def isBlank (c : Char) : Bool := blankPoints.contains c.toNat

/-- A decimal digit, in every script. -/
def isDecimalDigit (c : Char) : Bool :=
  if c.toNat < 128 then c.isDigit else GeneralCategory.decimalNumberPoints.contains c.toNat

/-- An alphabetic character: a letter, a letter used as a numeral, or a sign
that stands for one. -/
def isAlphabetic (c : Char) : Bool :=
  if c.toNat < 128 then c.isAlpha
  else
    let category := GeneralCategory.ofChar c
    category.isLetter || category == .letterNumber || otherAlphabeticPoints.contains c.toNat

/-- An alphabetic character or a numeral. -/
def isAlphanumeric (c : Char) : Bool :=
  if c.toNat < 128 then c.isAlphanum
  else isAlphabetic c || (GeneralCategory.ofChar c).isNumber

/-- A character of a word: alphabetic, a mark, a decimal digit, connecting
punctuation, or one of the two joiners. -/
def isWordCharacter (c : Char) : Bool :=
  if c.toNat < 128 then c.isAlphanum || c == '_'
  else
    let category := GeneralCategory.ofChar c
    isAlphabetic c || category.isMark || category == .decimalNumber
      || category == .connectorPunctuation || c.toNat == 0x200c || c.toNat == 0x200d

/-- A character that attaches to the one before it. -/
def extendsGrapheme (c : Char) : Bool :=
  match GeneralCategory.ofChar c with
  | .nonspacingMark | .enclosingMark => true
  | _ => otherExtendPoints.contains c.toNat

/-- A character with a visible form of its own. Of the spaces only the plain one
counts as visible. -/
def isPrintable (c : Char) : Bool :=
  if c.toNat < 128 then 32 ≤ c.toNat && c.toNat < 127
  else
    let category := GeneralCategory.ofChar c
    !(category.isOther || category.isSeparator)

end SchemaLang.Text
