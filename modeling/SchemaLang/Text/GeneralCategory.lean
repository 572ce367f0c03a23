import SchemaLang.Text.CodePoints

/-!
# General categories

Every code point has one general category. The tables below list, for each
category but two, its code points. Surrogates are no characters, and a code
point in no table is unassigned.
-/

namespace SchemaLang.Text

/-- The general categories, by what they hold. -/
inductive GeneralCategory where
  | uppercaseLetter
  | lowercaseLetter
  | titlecaseLetter
  | modifierLetter
  | otherLetter
  | nonspacingMark
  | spacingMark
  | enclosingMark
  | decimalNumber
  | letterNumber
  | otherNumber
  | connectorPunctuation
  | dashPunctuation
  | openPunctuation
  | closePunctuation
  | initialPunctuation
  | finalPunctuation
  | otherPunctuation
  | mathSymbol
  | currencySymbol
  | modifierSymbol
  | otherSymbol
  | spaceSeparator
  | lineSeparator
  | paragraphSeparator
  | control
  | format
  | privateUse
  | unassigned
deriving DecidableEq, Repr

namespace GeneralCategory

/-- Letters of capital form. -/
def uppercaseLetterPoints : CodePoints := .union [
  .ofSteps 1 [
    "CnzDxwbgFxbbabadbbabbbccdbbbcdbbbbababbbacabbbcbabbdahacacaBmacabcCnbbbcabdLlabadaiagabcbab",
    "bbqbiBjaccBfacabbcByFobEhBlEHdBlbafaBBuDhDGlagBqccWmhifkhihifBahCudmdmdmeldKcaeadccccademdc",
    "dkbfaCjaDZgBvBwabcidbacaicEcabaeaBUKkababbmabacabaxebepdbabbdaBkaBHAhzBUzBnFgBjGakbobgbbCQc",
    "ByGbvEGoBfBGJwBfBMMqzBazBazBaabbcacbcdbhBazBabbdchbgBbbbdbebadgBbzBazBazBazBazBazBeyBhyBhyB",
    "hyBhyBhaGNlBh"],
  .ofSteps 2 [
    "JwBbchcwDihcilBcvdPdlEjqjBaefcBvJKjCwjBwDmdRkcEGscwBwBTYzwtnFfgdBerdpjngtd"]]

/-- Letters of small form. -/
def lowercaseLetterPoints : CodePoints := .union [
  .ofSteps 1 [
    "DtzCgaBpxbhCdbpbBwababccabacadbeacadccajabbbacadabacbccgacasbrbcabaCjgcacbbamCqbBaHlabadadc",
    "saBbBibbdcxebacacbBzBvEgbFoBoEHbBqccBDgfDFuibaEnBrClmbBhJqiDtiifkhihifkhihinchihihiebbgadcb",
    "bidcbihkcbbKoadbdaBbaeaeacbideaCbaEBbBvbadbkabbbfDzbhabaeamBlbafaBUFhcClhbabapabacabczayaba",
    "caBoadaBFpBqfihDbBEAigmeBOzzBVhBnFgBjFzkbobgbbCRbByEvvEGoBfBGJwBfBMMkzBagbrBazBadbabgbkBazB",
    "azBazBazBazBazBazBazBaBbBcybfBaybfBaybfBaybfBaybfbaCSyjbtgfDUdBh"],
  .ofSteps 2 [
    "JxBaegewBpcBmhehlBcvdPfkElqjBacfeBvJKjCvlBvFCccuBwBTZbwtnFfffBepepjlhnf"]]

/-- Digraphs with only the first part capital. -/
def titlecaseLetterPoints : CodePoints := .ofLines ["1c5 8 b f2 1f88-f 98-f a8-f bc cc fc"]

/-- Letters that modify another. -/
def modifierLetterPoints : CodePoints := .ofSteps 1 [
  "BAmreloehabaFdafaSkaIwaGibKjbeaBfajadaGeaGlaBVoaExaVtaCPmaEdaXnaRwfGsCknaBiBkBAnanaqmEMxbJhaHj",
  "aSbaBrefaDtbDpcBQBuaBWcfKkaEkaBcbEriDcaxaEbcdbSbawaFhaEeavbDzdjaBFViaBtbCZofbBpbiCCxaBgaBJNsdT",
  "ocBobVemCmbbaYGqdbgbbSGnCjHtgBKfaBRba"]

/-- Letters without case. -/
def otherLetterPoints : CodePoints := .ofSteps 1 [
  "GoapaJwaedIaaBFvBaedBtBfbjBjbbDubaybkccaqabBdBdDklayBgvvBqyhkfxbfrBoChCbdasahjqoehcbcvbgbaddda",
  "qanbbcobkaifebcvbgbbbbbbBfdbatcqibcbvbgbbbedasapbxalhcbcvbgbbbedaBebbcparabfdcbddbbabbdbdcdlwa",
  "CahbcbwbpdaBaccacbBeaehbcbwbjbedaBfbbbpbribcbBocaqafcicyffrdxbibacgCgBvbbmfChbbabebxbabjbbjace",
  "xdBgaClhbBjBbeElBquaqfeddadbhcemmaEjMqbdcgbabdcBobdcBgbdcgbabdcobCebdcCoBlpEjXvcqbzfCwghhrnsor",
  "ombcpBzBoaCpBibCahecBhbafCrkBeBxBdcelBrezCcwjCaGuBurhCcBdnbkBrBaBjBpckBdEjdbfbbdaBPqdENvCdywjg",
  "bgbgbgbgbgbgbgVfaCbaeDhiabDleafBqbDprBfBwpTsJTnCmBFCebBRyCpBniKhepkbCoaBxCrGnaDzadgbcbdbwBdBzo",
  "BxCkfdabblBbkwzBchBuBtecikebBoxcbhupbfdadBxbadbcecabaybdkhaofcfcfjgbgFpBiBdQNrmweBwMNcObcEbCpa",
  "bjbmbebabbbbbEdBhNysClcCbBolEmebFeEbjbBscBedfcfcfccBjlbzbsbbbocnBiEsOzBcdBwBvBfntbhgBlkBdcBjeh",
  "EyCzDuBniBzDoBzmLyjvkhFwfcabBrbbdacwkwjBeCnsbbkvkzCsCdgbCmapdbcbBcBqBcdBcBjhbBbBbCbkvksnrEgCuH",
  "bBjBmdbaLsBpgbqcChBckaivBqrBuuBbwmCaCfbcanBsBgyBaBjBdacaiBidamBvodvabaBjrbytbClgbabdbobjhBuBmh",
  "cbcvbgbbbedasameBejbacabBlbazabaBsCasducBeBvubbaHcBuBpdBkBvuaChBqnaCtBaBlgHdBrIdhcachbbbxpabaD",
  "qhcBmqabaBcakBnhavalBttasCuHrBgBfibBkraBxBdEigbbbBlvazfbbbBfoaMpspabmbBhEuaDbBJlIwHnDXkDspBPfr",
  "fzFXqfWkKDdBdCPuVwhBerDarBdsBvBzufsQtBnPpCwfaGtJBziBVpBpjNGhLepaBdccaodiPfDKuEcfmdihjNBcaThBsB",
  "haMjBdsBrSqBaIvBdcaTbgbdbbbobHoBZndbBabbbacabjbdbabagaeabababcbbbacabababababbbacdbgbdbdbabjbq",
  "fcbebqGOaCLFbBgGDtgIncINpoLBkpXxDQwUvCFyHHyfGFf"]

/-- Marks that take no room of their own. -/
def nonspacingMarkPoints : CodePoints := .ofSteps 1 [
  "BDoEhKpeKfBsbabbbbbaCukBwuqaDxgcfcbbdBjaBeBaDnkCgijaydbibcbeBrcChiBqxbBfCdabaeheadgkbBdaCgaedi",
  "aubBaacbCfaebebccdaBebdalbCfaeebbeaubwfbaCgacabdiahblbBeaCjamaByadaCdabcfcbdhblbBdaCgacagafbub",
  "BcbCfbediaubBdaCuahcbaDmacgmhDuacilgCvbBbababaCdnbebbfkbBjjaDydbfbbcbzbecqdnacbgapaBBbcBKkcBdb",
  "BebBebCmbbgiackjaBtcbaEnbBiaEocebjagcIlbcaCgabgbabachgjcaBwnbpBxdBwabebafaBoimbBgdcbbcCeabbdab",
  "cCghcbFwcbmbgeagadbHqClBBsmeadlEOccFlaDsBfVidEdbBSQeaejBgbDcbKmadaeazbfaFvbBarnaBmhzkBucBwacdc",
  "bBnaCpfcbcbmaiaBvaBzabccbfbbaBqbiaJeacaeaBDZsaBCjpqpBLlaIsaFteCMgcbbfdBoceaGjbWbdCneMfbDbdCskB",
  "xdEtaCcoBpacbkcBxdcbhaCjcBkebhCkambCaikdcaDrccabbgacaGbadhvbCfbdaBlgdeCsfnababaobDhhccbaxaDgfb",
  "aebbbJedgbbbBbbDhhcabbEcabacfbaDxabacdbeJzibbJwbbaeaFodcbeaBgjBofcdiajfccBumbbPqgbfbaDevcgbbbb",
  "EsfdabbbgbaCubdabaNjblbCaefabaxaHXtagoQYyldcDSaeChgBOiaCldDdaBDBkbGYzBtcwUycrhcgBedFscCYdCceBx",
  "iaoaweboCAigbqcgbbbeDwaGegOlaCjdTodJubBCigEfgBTCIvJf"]

/-- Marks that take room. -/
def spacingMarkPoints : CodePoints := .ofSteps 1 [
  "DKtaCdaccidbbBybCgcgbcbkaBraCgcCoaCgciabbCbbCgabagbcbkaDybbbdcbckaBpcCjdCjbCgabecbbbjbBcaobCgc",
  "fcbckaBqbCxcghsbMsbClaGpbeagacbzbkccgvbcfcakcCLsaBeaEzahhbbNidccebbfIqbCgabajabbifFpaBwafabebb",
  "CjaBeaebcaCiaccbadbBwhibGpavaHHebBTLbbcaDkbBypFmbBvaBwbebccEgbcbyaBtabaEfacbfaJdbbbbbbaBLXjaba",
  "ExaBtcebElaybChaBwcjbnaDpcdbbaGocBfbCgbbdcbccjakbDgchacabdbbbaDxcibdaEccgabdcaJdcgdcaEjcibbaEf",
  "abbgaDzabbeaKbcjaJnfbbeacabaFmcideaDgaBdbCkaPraoaEcahacaIfeebbaNmbmaBwbibbaYYycFJgCcEabBKXnbgf"]

/-- Marks around their base. -/
def enclosingMarkPoints : CodePoints := .ofLines ["488-9 1abe 20dd-e0 2-4 a670-2"]

/-- Decimal digits of every script. -/
def decimalNumberPoints : CodePoints := .ofSteps 1 [
  "BwjCIojFejHqjPwjEojEojEojEojEojEojEojEojEojDsjEojCsjKsjCsjCTqjBmjLojEyjGkjgjHajDijFejgjCAEojBA",
  "cjBmjHqjwjDijPqjBFMcjCCkjDFyjgjBEqjEyjCijFojKsjNejEojOkjDyjgtCyjQgjDyjZmjDijJmjCsjQgjYYgjDMcjD",
  "ijFejUojBKDyjECqBxDNcjQgjTijJnjBGvjHBaj"]

/-- Letters used as numerals. -/
def letterNumberPoints : CodePoints := .ofLines [
  "16ee-f0 2160-82 5-8 3007 21-9 38-a a6e6-f 10140-74 341 a d1-5 2400-6e"]

/-- Numerals of other kinds. -/
def otherNumberPoints : CodePoints := .ofSteps 1 [
  "GwbfaccDMrfOmfEqcFdgIjgriQrjBPltBRvjSmaCMvadfgjHqpBpaBByChDavYgBdCBhaBTcdFijBehboBgjBnoBSMifBH",
  "QnBsCndrbNdBaBkdBZghzgBniCxewfGebcpcBtCmiCabBecCxeEahyhBpgMsfNoBeGcjBqdEigFetOptBZxbQoiBHnsBGt",
  "uBCPqgBEswBLYftmtEeyIBuiBJtCgbcbdCyBsboBLam"]

/-- Connecting punctuation. -/
def connectorPunctuationPoints : CodePoints := .ofLines ["5f 203f-40 54 fe33-4 4d-f f3f"]

/-- Dashes. -/
def dashPunctuationPoints : CodePoints := .ofLines [
  "2d 58a be 1400 806 2010-5 e17 a 3a-b 40 5d 301c 30 a0 fe31-2 58 63 f0d 10d6e ead"]

/-- Opening brackets. -/
def openPunctuationPoints : CodePoints := .union [
  .ofSteps 1 [
    "BoaByaBfaFPeabaCUoaDPmadaBmaCdapaYkabaBeaBTjaUkabaBhaBQbaSgaCZRtaIhaBvaHkaByaBfadaca"],
  .ofSteps 2 [
    "OYagEjePokBSsdBsdQmeddDABihvc"]]

/-- Closing brackets. -/
def closePunctuationPoints : CodePoints := .union [
  .ofSteps 1 [
    "BpaBzaBfaFPdabaCUoaDRdaCdapaYkabaBeaBTjaUkabaBhaCIibCZRqaIjaBvaHkaBzaBfacaca"],
  .ofSteps 2 [
    "OYbgEjePokBSsdBsdQmeddDABihvc"]]

/-- Opening quotation marks. -/
def initialPunctuationPoints : CodePoints := .ofLines ["ab 2018 b-c f 39 e02 4 9 c 1c 20"]

/-- Closing quotation marks. -/
def finalPunctuationPoints : CodePoints := .ofLines ["bb 2019 d 3a e03 5 a d 1d 21"]

/-- Punctuation of other kinds. -/
def otherPunctuationPoints : CodePoints := .ofSteps 1 [
  "BhcbccababbkbdbBbaCqafaobhaBBaaiaRyfBpaCcacacaBsbubbbnabcCwdDyaBrnIzcCcoBfaKbbkaFkaEqaEraPaama",
  "OdaDmakbGmobaEiaCweebEhfGpaXoiBDtaEucCtbGbcbcBlfbdMbbIibEygbfGebkgBccEudCheCkbCmhlaBGcbihiicdc",
  "cdkbabjEUcdbbEiaFnbeccacibbbacbkebjcdbabmccQmcCfaHhaBRYgbKjcDvakaElfOqdDibBocbaBxbBvaDtmqbEudE",
  "wbqbJpaBFCugcawaubcddcbdhcgabbFtcbccababbkbdbBbaBkacbPucZsaBwaPyaBCpaHraBfaKmiBmaEigCogDldBKqe",
  "BsdHhgEfbbdEwdBwbDbdeanabcDkfEdaLmbbbEkekbbaEaaJqwEbcBcmCyaFacJsaKecFzaDohDfcbeDpjIhaDreBqbYvb",
  "CwmGtaBRseEJcbWDvbFdaCneiaVgcLjdMpaBDBoaLIleEItaBHeb"]

/-- Symbols of mathematics. -/
def mathSymbolPoints : CodePoints := .ofSteps 1 [
  "BraqcCjabaBtaeaBlaBfaBDmaUhcJYhanaBncncFjaBnegaCqefbeacacahaBfbcabaBfKhBgbDmaBeyBofSbajaCchEha",
  "MyecBekpJwFawCkeBfcJxBwucfDASqaBFsabcGiaqcCjabaFbagdFEfbCYEzazaBfazaBfazaBfazaBfazaIUeb"]

/-- Signs of currency. -/
def currencySymbolPoints : CodePoints := .ofSteps 1 [
  "BkaEvdBWjaEtaTebTebhaJlaKdaWjaDQpaDIiBgBZHvaBGMlaEeaFyaIlbdbMCsdCVXeaDRka"]

/-- Symbols that modify another. -/
def modifierSymbolPoints : CodePoints := .ofSteps 1 [
  "DqabaCtagaeadaUbdmnfgbabqEnaobBXiaIUmabclcncncnbGHobBSVrwjbDzbBLoaobBEKkqBIhabaGgaDOLje"]

/-- Symbols of other kinds. -/
def otherSymbolPoints : CodePoints := .ofSteps 1 [
  "GkacaeabaBLpaKgbExbHyakatbJnaTvaOjaFafbaFcaHzaBpaPbcpabccfuababaFdhbfbbfdHpbBCyjBBvaBBuaGbBhNp",
  "jjiCChbbdbbkabbgfbababaealboabbbaCgbjecdbbbbbgbBecbbabBeKihetcgcDcbBdzBngCtwkDdCzwHabibCbiEgbJ",
  "nBsBrCmJvTsBvvbgBmcBfbEaIvfNtbBuzbDkmIfBapeanbmavbgbMybejBgBljaqBelBdiapBfkBmpMhJToClBGUiCcBHh",
  "dkbbaWbcBFJapExaBtcSqadaebnbMbiCfqccbmdaBvBsCLubWtaESsaDGnheqBCNidfaBEUwaFVnJfqQtGaElCiJlkBmcC",
  "hfcwbhBdeCivCndaHeDiBTxTrCddByhbnbbCOuaEHwaEzaBBtBreDvmocobobBkxGeCeBcnBreihbofFyJqfBBzeqdmdEo",
  "eDqgleapleCdijgBniBdclebCkNbmncmdjfCdhockgihFqbDn"]

/-- Spaces. -/
def spaceSeparatorPoints : CodePoints := .ofLines ["20 a0 1680 2000-a 2f 5f 3000"]

/-- The line separator. -/
def lineSeparatorPoints : CodePoints := .ofLines ["2028"]

/-- The paragraph separator. -/
def paragraphSeparatorPoints : CodePoints := .ofLines ["2029"]

/-- Control codes. -/
def controlPoints : CodePoints := .ofLines ["0-1f 7f-9f"]

/-- Invisible format characters. -/
def formatPoints : CodePoints := .ofSteps 1 [
  "GraCAkfwaHkaBxaOubDcaFTjaDAqeBaeBxebjDGHjaJpcGIzapaNKkpBZQudHWxhBTKZmaBeDr"]

/-- Code points for private use. -/
def privateUsePoints : CodePoints := .ofLines ["e000-f8ff f0000-fffd 100000-fffd"]

/-- The tables, each under the category it lists. No two share a code point, so
their order is of no account. -/
def tables : List (GeneralCategory × CodePoints) := [
  (uppercaseLetter, uppercaseLetterPoints),
  (lowercaseLetter, lowercaseLetterPoints),
  (titlecaseLetter, titlecaseLetterPoints),
  (modifierLetter, modifierLetterPoints),
  (otherLetter, otherLetterPoints),
  (nonspacingMark, nonspacingMarkPoints),
  (spacingMark, spacingMarkPoints),
  (enclosingMark, enclosingMarkPoints),
  (decimalNumber, decimalNumberPoints),
  (letterNumber, letterNumberPoints),
  (otherNumber, otherNumberPoints),
  (connectorPunctuation, connectorPunctuationPoints),
  (dashPunctuation, dashPunctuationPoints),
  (openPunctuation, openPunctuationPoints),
  (closePunctuation, closePunctuationPoints),
  (initialPunctuation, initialPunctuationPoints),
  (finalPunctuation, finalPunctuationPoints),
  (otherPunctuation, otherPunctuationPoints),
  (mathSymbol, mathSymbolPoints),
  (currencySymbol, currencySymbolPoints),
  (modifierSymbol, modifierSymbolPoints),
  (otherSymbol, otherSymbolPoints),
  (spaceSeparator, spaceSeparatorPoints),
  (lineSeparator, lineSeparatorPoints),
  (paragraphSeparator, paragraphSeparatorPoints),
  (control, controlPoints),
  (format, formatPoints),
  (privateUse, privateUsePoints)]

/-- The category of a code point by the tables. -/
def ofCode (code : Nat) : GeneralCategory :=
  match tables.find? (·.2.contains code) with
  | some (category, _) => category
  | none => unassigned

/-- The category of a character. -/
def ofChar (c : Char) : GeneralCategory := ofCode c.toNat

/-- Whether the category is one of the letter categories. -/
def isLetter : GeneralCategory → Bool
  | uppercaseLetter | lowercaseLetter | titlecaseLetter | modifierLetter | otherLetter => true
  | _ => false

/-- Whether the category is one of the mark categories. -/
def isMark : GeneralCategory → Bool
  | nonspacingMark | spacingMark | enclosingMark => true
  | _ => false

/-- Whether the category is one of the number categories. -/
def isNumber : GeneralCategory → Bool
  | decimalNumber | letterNumber | otherNumber => true
  | _ => false

/-- Whether the category is one of the punctuation categories. -/
def isPunctuation : GeneralCategory → Bool
  | connectorPunctuation | dashPunctuation | openPunctuation | closePunctuation
  | initialPunctuation | finalPunctuation | otherPunctuation => true
  | _ => false

/-- Whether the category is one of the symbol categories. -/
def isSymbol : GeneralCategory → Bool
  | mathSymbol | currencySymbol | modifierSymbol | otherSymbol => true
  | _ => false

/-- Whether the category is one of the separator categories. -/
def isSeparator : GeneralCategory → Bool
  | spaceSeparator | lineSeparator | paragraphSeparator => true
  | _ => false

/-- Whether the category is one of those without visible form. -/
def isOther : GeneralCategory → Bool
  | control | format | privateUse | unassigned => true
  | _ => false

end GeneralCategory

/-- Whether a character is assigned. -/
def isAssigned (c : Char) : Bool := GeneralCategory.ofChar c != .unassigned

end SchemaLang.Text
