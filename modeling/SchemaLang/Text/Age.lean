import SchemaLang.Text.BinaryProperty

/-!
# Ages of characters

Characters were added version by version. The tables list what each version after the
first added; a version has a character if no later one added it.
-/

namespace SchemaLang.Text

/-- What each version after the first added, the earliest first. A table may run over code
points that were added later still, or never. -/
def ageTables : List PropertyTable := [
  ⟨"1.1 V1_1", []⟩,
  ⟨"2.0 V2_0", [
    "CCvBeuaDMxHdFQnaUhaCATwQNrEIFybDSYobDSYobDSYobDSYobDSYobDSYobDSYobDSYobDSYobDSYobDSYobDSYo",
    "bDSYoHLXh"]⟩,
  ⟨"2.1 V2_1", ["MJsaDGOta"]⟩,
  ⟨"3.0 V3_0", [
    "TidBeBbEneBxakeDjitaEmadabababaBeamaCoamaBqhDobGaaHscDubfapaBqHaCFhEkOjaBraxchabGdQgCNpCWb",
    "ayfDrcBybDhbCuaDziKjaErBfFibRphBhaDibPiDApCigNpxWmJTdBFEgBVaBGScaBVvc"]⟩,
  ⟨"3.1 V3_1", ["BMybDQQcBfBXwMvCZDqDAtPDwCLEsBETdUvBPCQtEw"]⟩,
  ⟨"3.2 V3_2", [
    "UyaLqatmEabBcaFrbCfbcbcbBxpNmbMjaDNhbCHjElDIxagvnaCkbBygDeoGmlJinEuaBeBzKytFvjDkhwbDmxIonD",
    "mBvJwTrBZncDjbibDqaJgpDdoDdoBRDibqamadaBGJaCgBJdtCbbBsaJbb"]⟩,
  ⟨"4.0 V4_0", [
    "UzascEpbClqDcpFveTwdjiCmcFtbpaBtcBdcQuaHcaCpabaFgaDgcnaCpaChaEzhHlbEFnasjKcBRnBCpbIwaZjbLq",
    "aKqbEmxBRanCRnbBxaBrbDadGldDvbBfaJToClCOQvaCvbQxMhWeBfFebBmBMvCYUiDiNyaBTKDaJf"]⟩,
  ⟨"4.1 V4_1", [
    "VvkKseGddJmbGoaBicCpasaCgfJhBdUhaDcaStaBvaBMnbLjbbaKgaClaClaBnaBfaBfaBfapaBnaxbBfzCGcDrBgB",
    "fBGmDjZhbbgBxeBddCbaDcapaYukWaaDxbskfpKkgBGhBEdBJupGsaBPItvCToLnBFEaEbBFqjBFaCwUnCbCIsDkCX",
    "PvCrBRab"]⟩,
  ⟨"5.0 V5_0", [
    "WgnLncMzaBqfqdGkaTxCgOubbbBHibnbFIjEuWlChBCudDpbCbaXblBBmaKqdBGjpMexBULjkLaCdBKOmBfIRgBRvC",
    "OGirBQub"]⟩,
  ⟨"5.1 V5_1", [
    "BHwdcbDjaHbaFkpIseleBgeLqrTdbIoaBjaHyaBdbEeaEeaBabibuhHhagaBdbmpSxbDtadcCzafacahcefBaCrDBe",
    "aBBxJvMtBbGzdDmfNsaFjaDqaCbdBYaavqKeaBfdBFfeeBwKugefNqBfydcsBDkaGgtBPPohBZoPrFbecInEySlBFS",
    "ucBHpMiCKdBfCXSjaLRqFr"]⟩,
  ⟨"5.2 V5_2", [
    "BYqbBCcJwCzagaBjbEyaCFpdHldHgeCqeDefTsaYgiVoCrGybBuaCrFlVaBiKgaBAucFvcCcaXiaBArbBdceChDjaB",
    "NheKsanbEdgMhaBOclBPLshBXkBvQaDjMajGkBbDwExEyPtQOkCxNBbcFGcBfHebMmCKvLVqBPeCTNdMqCQLjGDo"]⟩,
  ⟨"6.0 V6_0", [
    "BYsbJoaCkaSmBeIlbtagbBbeTmfQraqataWbdCvbBIobDEnClToaZohBcaBFjkBCcatabdBdaebBcaBjabaecjbCac",
    "yaoaobCDkpBPocBSEnbLnEfBDuBtBEMtpHRiEhBHEeVwBALbbYMgClDcabkbabbbcbcfhbgbybacbbjebbEgbbBviv",
    "BYpCUQmIn"]⟩,
  ⟨"6.1 V6_1", [
    "CCtaEmaZrDqTdaBMrbStgBvcEBbcmfJwhBrdECqabaBYqbBzgCebHujBRAeaCNnhBjaJibwDbBCowBDZzbFUuClCRo",
    "CGvBHKoGdBVWiJhYibBLsdHgaqadabababadagbeabbea"]⟩,
  ⟨"6.2 V6_2", ["MKga"]⟩,
  ⟨"6.3 V6_3", ["CIeaJYvd"]⟩,
  ⟨"7.0 V7_0", [
    "BIlaQihDpbEoaZralfCyaEqahaYpaBzaCyaExaIujDKrhVcbPloVxbJdoBBhcBFqgBDtaBQickEpXugBTOvfJmllCy",
    "SuBeEvdGuCbBFIvgBHdbtaMhBbBjaBwBqOzXrJoDbRwEoFhBvBVjaIaBmDiamBShWkXcDFiBpHulfaBALfMxBEMaGh",
    "QKyIgCZwaBgvvbUmljaCsawlBlafurgCtabaHaaebClbegBdFqCsbnBvCsBtFkLp"]⟩,
  ⟨"8.0 V8_0", [
    "DHrBwUnaNoaKaaCMviEVoaHvbDYedBRWviCOuaJgaBifMmbXmdmDbBFFqbEBgBfHgbcClYqExBVddoeGeBpDiaDbaY",
    "jtLeClERpaIwHnLQqWkCAWlkCHzBAlJHdcDabDbeBkhJvaCxeJjbFjaWdGuCUClINp"]⟩,
  ⟨"9.0 V9_0", [
    "DHuBsBJpaHyhbgxcFRziOgaCHbdDXcbBTZlaKsaBHQdbBEvCxFAoaRhDpTumCCxHaBFMvKGoBGFlBqDIzDrDDbrFma",
    "BFyaBpaLobBhcVaCrBmm"]⟩,
  ⟨"10.0 V10_0", [
    "DEmkPlbJsfTsaCgbFYwaJudBBhaBFzaCZaaYceBCmaBPXnuBLPicIQqGgXhDlBFGpaYHkBDhYAefBRpbBibTzltaih",
    "bbzasmBmfCewDCPdLBk"]⟩,
  ⟨"11.0 V11_0", [
    "CAyaBnaDyaUfcIdaLmaEpaPhaExaENraBOhBvFRmcwyeoWpeBCiaBPYheCYhaibMmbBKVcbsaBAtCfRmDlOhaEocTg",
    "aLeaBAxaIvChXlaBBePsBEApDmJPieBCJutEwgJLwCpBScaCEzaIldOicBctyBhhbBkFe"]⟩,
  ⟨"12.0 V12_0", [
    "EStaUgacacabfeahahbcanaFKhaFPuaCbaWtaBTZmmBJrbBMBgwBRkaXcaBCpCqGdbBZmClHQuiWJkkBviDmbJCwfP",
    "RcxSAqTrCJzaBKnCiBPeaCBgaBkaIvlLdcBvaBxajaBpkkfdmBwDfBcBl"]⟩,
  ⟨"12.1 V12_1", ["TIda"]⟩,
  ⟨"13.0 V13_0", [
    "DIcjZdaQoaEuaFAjbGJuaBAucBHoeKPijBFDgmCYsBvCbaBFvdBGQqaEWxBxJuBbOpaFebZaafbBTmDlCKkaBEJrnK",
    "FxUnBLWucDpcCjaBYubBjbQtbDmaDxaebBqbgcBdaGmaodpNrCMSjgBHTqHHy"]⟩,
  ⟨"14.0 V14_0", [
    "CIfaWwBvvaskBHpaBgaExaDWhahkJfaBAnnEvaBwbYlaBBhaEIoaBvaTfkBRAtcCYiboBkBFTdaOrpExaBubCVgCyR",
    "jCgCXxzIwfCyaCGsaFegBHppHWyDuWDxDlBAEwoLcdLIbHnVdbEYvBeBHxBeBZdBeFQkcKmaPcaDeaGsbBsdkdicrB",
    "fCNCpbGEvd"]⟩,
  ⟨"15.0 V15_0", [
    "EXnaSgaDTAkcBFzcDIcjBNaDlHXdajBcBVHkaBiaMRatERhfKbDrBPwBpGUcaFvlDlaZrcpbBkcleobkbmaobCTHoa",
    "BIWsGFf"]⟩,
  ⟨"15.1 V15_1", ["SEmdTbaKEIqXx"]⟩,
  ⟨"16.0 V16_0", [
    "DGpaHCgbBvaKfbCWycFFebBSQvcmcBJOlBzCTwDbLuCgBSlDuBCvtBVwCfBHgaHYzFXqKZtCfEOkCfLYjaXWiBApIT",
    "oBvHCcpRngBuahavdjaIrBk"]⟩]

/-- The code points that were added after the version with a name. -/
def pointsAfter? (version : String) : List PropertyTable → Option CodePoints
  | [] => none
  | table :: tables =>
    if table.isNamed version then some (.union (tables.map (·.points)))
    else pointsAfter? version tables

/-- Code points that are reserved for good. They have an age without being assigned. -/
def noncharacterPoints : CodePoints := listedPoints "NChar"

/-- The characters that a version has. -/
def ageSet? (version : String) : Option (Char → Bool) :=
  (pointsAfter? version ageTables).map fun later c =>
    (isAssigned c || noncharacterPoints.holds c) && !later.holds c

end SchemaLang.Text
