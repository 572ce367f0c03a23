import SchemaLang.Text.CaseFolding
import SchemaLang.Text.CharacterClass
import SchemaLang.Text.PropertyTable

/-!
# Properties that a character has or has not

Some properties are lists of characters that follow from nothing else. The others are
defined from general categories, from letter case and from such lists.
-/

namespace SchemaLang.Text

/-- The properties whose characters are listed. -/
def listedProperties : List PropertyTable := [
  ⟨"AHex ASCII_Hex_Digit", ["BwjhfBaf"]⟩,
  ⟨"Bidi_C Bidi_Control", ["CIeaJVlbBaeCdd"]⟩,
  ⟨"Bidi_M Bidi_Mirrored", [
    "BobsabaBcabaBdabaBtapaFMsdCUnbDQqbkbCcbobGvaHkddfdadbddbdbabaeifabrfdjbbabhbBfcdfajbcsfbje",
    "cbexcpidubhbBPtnCwacdbbbcfdfcdnPnvcfbniahfdaeebbceeabccbkfcbmsbdcabacabdfbgcyblbedbbcbeBqc",
    "hbBnfabadefceadebaJwaTvddbbbobcjBrhQljchDACrffbGgbsabaBcabaBdababbbbDDPnaCfaCfaCfaCfa"]⟩,
  ⟨"Dash", ["BtaCAuaBzaFKjaBNpaDBdfCjaBnapaPaaEOiacaBfbeaBcaReataEhaCZWabBlakaGnaFLoaMga"]⟩,
  ⟨"Dep Deprecated", ["MraBYvaDKtabaDCjbDIjfBAvbBZRYka"]⟩,
  ⟨"Dia Diacritic", [
    "DqabaCtagaeacbTjGcbhffrbeajbJteIbaCdqbBababbbaFehebFebebdcCpBaDnkCgkBibEwhBpjqBbCjaqaddBca",
    "CwaqaEgaqaEgaqaBvcCiaqahaEpaEgaqaEgaqaEfbqaEuaEhamfbaEdaneCxbBbababaebCocbbCkaEiabbBobeezg",
    "bakbBBdcBKmbBeaFskjaNjcLgauhcaBwockEaapaBmiCcbCgalbCobCmfDeyeagaccByCkDllBlkRdabclcncncnbE",
    "XkcMfaTmfEbdDraBSMkambbaBcbDeboBhDycEfbmaBlaFvaBbrCfdBkaDramaBkaFtcCndBzaDwejcEybBDZsaBDpp",
    "KkabaBvaBtbCpaBDkaBTnfbBpbiYnceaGjbVzfBmaBaePjcCskBxdHkaBpaCubEqbCkaCyajcEabGwbDcbqaygdeDl",
    "cbbnbDradaEtbJrbEwaEobElaKjbJybeaGaaDfasaDdaQfaJyabbDdaQjbxaHYaoQZpaDSaeChgVsbVaqDcbYGcdbg",
    "bbLThBtcwUycdfihcgBedFMwCjHmgOlaCjdBDmbBCigEfcbc"]⟩,
  ⟨"Emoji", [
    "BjagafjEhaeaLYramaIiawaDmfpbOdbmaGkazkecHraIxbkajaCgdbejacacbcaeacabbcadadbicfabafllbcabbb",
    "asacbsfbabbdbfacbeblbfbcafbbabbubffbdcaeacacfbacababagadagakbpacaeabaecbalbBwcjaoaoaOibRvc",
    "tbBzaeaBVuamaXdabaGMRqaHuaGebmboacjCxzbbxauacivbGsBhcEhcbbccDeccbKcbCklfbxhbchmacdcaebnbca",
    "ibjafcmciccabaeagadagDhBwCrfhccejdabbdacjItleaKxBubjbHcEimdjfCdhockgi"]⟩,
  ⟨"EComp Emoji_Component", ["BjagafjMBjaIfaDFTraDOIwzTneCEadBSVUqDr"]⟩,
  ⟨"EMod Emoji_Modifier", ["HHIxe"]⟩,
  ⟨"EBase Emoji_Modifier_Base", [
    "OLhaIlaqdGSJvaCiccaccEnbckvsdaecbchabayaHtbeavaebGscdeDfaqcjalaWdacaihgajjccCeaCjbbbbarcbm",
    "IvcBqi"]⟩,
  ⟨"EPres Emoji_Presentation", [
    "NHqbHxddacaUbbvbBylBratanaibrbfbiafavahbbaeacahaebBcaBjabaecbaCjcyaoaBHbbBzaeaGPLeaHuaHiac",
    "jCxzbayauacebcvbGsBgmibCrbvmBqeemqdadCsbabHecCkndbxsaBabnaDiDgBwCrgadcccedlbhiItleaKxBubjb",
    "HcEimdjfCdhockgi"]⟩,
  ⟨"ExtPict Extended_Pictographic", [
    "GnaeaLYramaIiawaDmfpbOdbmaDraCsazkecHraIxbkajaCgdbfblbEjkEnckbabagadagakbpacaeabaecbaleBtc",
    "jaoaoaOibRvctbBzaeaBVuamaXdabaGMRmJvncBfaCifmboacjsCeBbokauacibdjQrfMfiKfBwExEmlDhBqmdCehk",
    "fBohBeDdmBubjbQyJwBNh"]⟩,
  ⟨"Ext Extender", [
    "HbaUqbBHuaQzaYgaFhaDlaBCyaExaDNfaCeaXnaPiaCqaHKjaBreDzbDpcBQBuaCGsaBLaawaFhaEeavbBFZvaDBkb",
    "CFbaBbaeaBVbaLhaEmbTecBVjaBEOfbBTkbbaBQYabBUfaBGuc"]⟩,
  ⟨"Gr_Link Grapheme_Link", [
    "DNpaExaExaExaExaExaExaExaEfbqaEuaEhaExaHtaGybCPlbBeaGbaZdaItaDxbCsbGQtaBUKkaBlaFvaFmaEeaLx",
    "aJmaBJSraCHiaBpaoaCfaErbFjaEmaGyaDuaEycEjaExaJsaExaEoaEmaKjaJzbGfaDfasaDdaQfaKabDdaQjbYZca"]⟩,
  ⟨"Hex Hex_Digit", ["BwjhfBafDSLljhfBaf"]⟩,
  ⟨"Hyphen", ["BtaExaBVwaGZzaDBdbFIbaBClaCZUlaGnaDja"]⟩,
  ⟨"IDSB IDS_Binary_Operator", ["SEabcjTda"]⟩,
  ⟨"IDST IDS_Trinary_Operator", ["SEcb"]⟩,
  ⟨"IDSU IDS_Unary_Operator", ["SEob"]⟩,
  ⟨"ID_Compat_Math_Continue", ["GwbfaMAgadkboOhaeawaGJJeazaBfazaBfazaBfazaBfaza"]⟩,
  ⟨"ID_Compat_Math_Start", ["MWwaeawaGJJeazaBfazaBfazaBfazaBfaza"]⟩,
  ⟨"Ideo Ideographic", [
    "SEwbziocBLdJTnCmBFBjBHSiObcEbBSIkaBbJBziBVpBpjNUlPfBDEiCLFbBgGDtgIncINpoLBkpXxDQwUvCFyHHyf",
    "GFf"]⟩,
  ⟨"Join_C Join_Control", ["MDob"]⟩,
  ⟨"LOE Logical_Order_Exception", ["FKieEteEDsccaCCXmbcabb"]⟩,
  ⟨"MCM Modifier_Combining_Mark", ["CKibcaFbagadbSnbbcdaBfa"]⟩,
  ⟨"NChar Noncharacter_Code_Point", [
    "DSDcBfUgbDSYobDSYobDSYobDSYobDSYobDSYobDSYobDSYobDSYobDSYobDSYobDSYobDSYobDSYobDSYobDSYob"]⟩,
  ⟨"ODI Other_Default_Ignorable_Code_Point", ["BGpaFIlbCKhbDHnaGLiaDACpaDbiBWMIhabBdDsExJgFIl"]⟩,
  ⟨"OIDC Other_ID_Continue", ["HbaBBraGAjiCLcaCIzbGKraDAEja"]⟩,
  ⟨"OIDS Other_ID_Start", ["JHlbDGjavaFVwb"]⟩,
  ⟨"OMath Other_Math", [
    "DqaBHxccaBabcbKQyaBbclaBgdybobCnmeadbeesaeacjbadegadbcbbcbfddfeCxecdbbbbbabecbebercbbabgba",
    "gbLedGmbbayaraRdbmifefbcbdeoabacfybCfabaBddjbNebBfjPnvCldBgbDCLfabaeaIdabaDCOvDgbCsbbcacbc",
    "dblbabgbCmbdchbgbBbbdbebadgbNbcybybBebybBebybBebybBebybhcBxIIqdbBabbbacabjbdbabagaeabababc",
    "bbbacabababababbbacdbgbdbdbabjbqfcbebq"]⟩,
  ⟨"Pat_Syn Pattern_Syntax", [
    "BhokgBadbaBadBigbabbbabbeaeadaxaBfaLUexiocsbjLtBBrGeYfBeBRnTsExOvceypaCZQzbKbb"]⟩,
  ⟨"Pat_WS Pattern_White_Space", ["jesaDwaLYmbyb"]⟩,
  ⟨"PCM Prepended_Concatenation_Mark", ["CHcfIhaBxaOubDcaDVXyapa"]⟩,
  ⟨"QMark Quotation_Mark", ["BiaeaFbapaLWuhzbFIdaRpdncDABpdHhaeaDmb"]⟩,
  ⟨"Radical", ["RPwzbDkmIf"]⟩,
  ⟨"RI Regional_Indicator", ["HGOkz"]⟩,
  ⟨"STerm Sentence_Terminal", [
    "BhamaqaCAbaFrcGyaBrcJmaCjabadbLhbCPwbBEkaebBDtaHqbGbbBtafaMcbNqdGgbkbcbBdcHfbCnbBJwaxbjcEU",
    "xcLuanawbQnaBSHwaKkbItadaOsbDibDraFwbFrcFobJpaBFCwacbChadbGnamaqaCnaEDwbBXdeBsdHhbEndExcEz",
    "bgaqbDkbbbEeaLmbEnbOjbfoEbbJpcTxabaJrbDjbQebBAqbCwbBCMbbFdaCnblaVhbLkaBDOgaLIma"]⟩,
  ⟨"SD Soft_Dotted", [
    "EbbHoaKvaBeaCaauaMiaDuabaJMnaBzanadaFcaGbaQfaIgbEGgaGELhbBybBybBybBybBybBybBybBybBybBybByb",
    "BybDFyaLtbBaa"]⟩,
  ⟨"Term Terminal_Punctuation", [
    "BhakabalbdaBFyaiaTtaCfaCuaoabcGyaBrkbaJbbCcfbhBfaKbbBWubGqaefLzbBEjhBDtaEucCtbGbcdaBndcbMc",
    "bNqdGgbkbbcBdcHfeCkbBJwaxbjcEUxcLuanaeakabbdbQmbBSHvbKjcIteOsbDibDraFvcFrcExaqbJpaBFCwacbC",
    "fcbdGnakabalbdaCnacaBPqaBwaBSoaHraLybFwfCqfDldBKqeBsdHhgEidExcEzbgaqbDkeEeaLmbEncmbNuddoEb",
    "bJpcTxabaJrbDjbebPycBtaYvbCwbBYxeBAMzbFdaCnckaVhbLjbBDOgaLIld"]⟩,
  ⟨"UIdeo Unified_Ideograph", [
    "TSaJTnCmBFBjBICsbbabbkababbccDVEcCLFbBgGDtgIncINpoLBkpXxGRqHHyfGFf"]⟩,
  ⟨"VS Variation_Selector", ["JCtcbaDJCapBWNKyJf"]⟩]

/-- The characters of a listed property. -/
def listedPoints (name : String) : CodePoints :=
  (PropertyTable.find? listedProperties (looseName name.toList)).getD ⟨[]⟩

/-- Characters that begin identifiers beside the letters. -/
def otherStartPoints : CodePoints := listedPoints "OIDS"

/-- Characters that continue identifiers beside letters, marks and digits. -/
def otherContinuePoints : CodePoints := listedPoints "OIDC"

/-- Characters that mathematics uses beside its symbols. -/
def otherMathPoints : CodePoints := listedPoints "OMath"

/-- Characters without a form of their own beside the format characters. -/
def otherIgnorablePoints : CodePoints := listedPoints "ODI"

/-- Characters that choose a form of the one before them. -/
def variationSelectorPoints : CodePoints := listedPoints "VS"

/-- Format characters with a visible form, which stand before others. -/
def concatenationMarkPoints : CodePoints := listedPoints "PCM"

/-- Characters that patterns keep for themselves: their marks and their blanks. -/
def patternPoints : CodePoints := .union [listedPoints "Pat_Syn", listedPoints "Pat_WS"]

/-- Whether an identifier may start with a character. -/
def startsIdentifier (c : Char) : Bool :=
  let category := GeneralCategory.ofChar c
  (category.isLetter || category == .letterNumber || otherStartPoints.holds c) &&
    !patternPoints.holds c

/-- Whether a character may stand inside an identifier. -/
def continuesIdentifier (c : Char) : Bool :=
  match GeneralCategory.ofChar c with
  | .nonspacingMark | .spacingMark | .decimalNumber | .connectorPunctuation =>
    !patternPoints.holds c
  | _ => startsIdentifier c || (otherContinuePoints.holds c && !patternPoints.holds c)

/-- Characters inside identifiers whose compatible forms are not. -/
def unstableContinuePoints : CodePoints := .ofLines ["37a 309b-c fc5e-63 dfa-b e70-e/2"]

/-- Characters that start identifiers while their compatible forms do not. -/
def unstableStartPoints : CodePoints := .ofLines ["e33 b3 ff9e-f"]

/-- Whether a character in each of its compatible forms may stand inside an
identifier. -/
def continuesStableIdentifier (c : Char) : Bool :=
  continuesIdentifier c && !unstableContinuePoints.holds c

/-- Whether an identifier may start with each compatible form of a character. -/
def startsStableIdentifier (c : Char) : Bool :=
  startsIdentifier c && !unstableContinuePoints.holds c && !unstableStartPoints.holds c

/-- Whether a character belongs to mathematics. -/
def isMathematical (c : Char) : Bool :=
  GeneralCategory.ofChar c == .mathSymbol || otherMathPoints.holds c

/-- Whether a character can carry marks: it has a form and is no mark itself. -/
def isGraphemeBase (c : Char) : Bool :=
  match GeneralCategory.ofChar c with
  | .control | .format | .privateUse | .unassigned | .lineSeparator | .paragraphSeparator => false
  | _ => !extendsGrapheme c

/-- Format characters that are shown all the same. -/
def shownFormatPoints : CodePoints := .ofLines ["fff9-b 13430-40"]

/-- Whether a character shows nothing where it is not supported. -/
def isIgnorable (c : Char) : Bool :=
  (otherIgnorablePoints.holds c || variationSelectorPoints.holds c ||
    GeneralCategory.ofChar c == .format) &&
    !shownFormatPoints.holds c && !concatenationMarkPoints.holds c

/-- Whether the small form of a character differs from it. -/
def changesToLower (c : Char) : Bool := lower c != [c]

/-- Whether the capital form of a character differs from it. -/
def changesToUpper (c : Char) : Bool := upper c != [c]

/-- Pairs of letters in capital form, which as the start of a word keep only their
first letter capital. -/
def capitalPairs : CodePoints := .ofLines ["1c4 7 a f1"]

/-- Letters whose capital form is not used at the start of a word. -/
def levelLetters : CodePoints := .ofLines ["10d0-fa d-f"]

/-- Whether the form of a character at the start of a word differs from it. -/
def changesToTitle (c : Char) : Bool :=
  capitalPairs.holds c ||
    (changesToUpper c && GeneralCategory.ofChar c != .titlecaseLetter && !levelLetters.holds c)

/-- Characters that become several when case is dropped. -/
def expandingFolds : CodePoints := .ofLines [
  "df 130 49 587 1e9a f80-7 90-7 a0-7 b2-4 7 c2-4 7 f2-4 7 fb00-4 6 13-7"]

/-- Characters that only their composed form sets apart from what they fold to. -/
def composedFolds : CodePoints := .ofLines ["1fbe d3 e3"]

/-- Whether a character changes when case is dropped. -/
def changesWhenFolded (c : Char) : Bool :=
  expandingFolds.holds c || (folded c != c.toNat && !composedFolds.holds c)

/-- The properties that follow from others, each under its names. -/
def derivedProperties : List (String × (Char → Bool)) := [
  ("Alpha Alphabetic", isAlphabetic),
  ("OAlpha Other_Alphabetic", otherAlphabeticPoints.holds),
  ("Lower Lowercase", isLowercase),
  ("OLower Other_Lowercase", otherLowercasePoints.holds),
  ("Upper Uppercase", isUppercase),
  ("OUpper Other_Uppercase", otherUppercasePoints.holds),
  ("Cased", isCased),
  ("CI Case_Ignorable", isCaseIgnorable),
  ("CWL Changes_When_Lowercased", changesToLower),
  ("CWU Changes_When_Uppercased", changesToUpper),
  ("CWT Changes_When_Titlecased", changesToTitle),
  ("CWCM Changes_When_Casemapped",
    fun c => changesToLower c || changesToUpper c || changesToTitle c),
  ("CWCF Changes_When_Casefolded", changesWhenFolded),
  ("DI Default_Ignorable_Code_Point", isIgnorable),
  ("Gr_Base Grapheme_Base", isGraphemeBase),
  ("Gr_Ext Grapheme_Extend", extendsGrapheme),
  ("OGr_Ext Other_Grapheme_Extend", otherExtendPoints.holds),
  ("IDS ID_Start", startsIdentifier),
  ("IDC ID_Continue", continuesIdentifier),
  ("XIDS XID_Start", startsStableIdentifier),
  ("XIDC XID_Continue", continuesStableIdentifier),
  ("Math", isMathematical),
  ("WSpace White_Space space", isBlank)]

/-- The characters with a property. -/
def binaryProperty? (name : String) : Option (Char → Bool) :=
  match derivedProperties.find? fun (names, _) => isAmong name names with
  | some (_, holds) => some holds
  | none => (PropertyTable.find? listedProperties name).map CodePoints.holds

end SchemaLang.Text
