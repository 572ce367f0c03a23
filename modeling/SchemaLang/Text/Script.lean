import SchemaLang.Text.GeneralCategory
import SchemaLang.Text.PropertyTable

/-!
# Scripts

Every assigned character belongs to one script. A character used in several has, beside
that, the list of the scripts it is used in; a character without a list is used in its
own script alone.
-/

namespace SchemaLang.Text

/-- The scripts with their characters. The first name of each is its code. A table may run
over code points that are not assigned. -/
def scriptTables : List PropertyTable := [
  ⟨"Adlm Adlam", ["HDEuDr"]⟩,
  ⟨"Aghb Caucasian_Albanian", ["DUXsCl"]⟩,
  ⟨"Ahom", ["EBRcCs"]⟩,
  ⟨"Arab Arabic", ["CHcebfbnbcbBfbjlzbEdbBhDcBvJgEjbBcDNTwSzcHjEiFkFVnBeCpCjDGLsJh"]⟩,
  ⟨"Armi Imperial_Aramaic", ["DWBwBf"]⟩,
  ⟨"Armn Armenian", ["BZdDqDOZje"]⟩,
  ⟨"Avst Avestan", ["DXCyCl"]⟩,
  ⟨"Bali Balinese", ["KFwEx"]⟩,
  ⟨"Bamu Bamum", ["CLCqDjCVCqVw"]⟩,
  ⟨"Bass Bassa_Vah", ["FHKiBl"]⟩,
  ⟨"Batk Batak", ["KNgCl"]⟩,
  ⟨"Beng Bengali", ["DPoEw"]⟩,
  ⟨"Bhks Bhaiksuki", ["EDOiEe"]⟩,
  ⟨"Bopo Bopomofo", ["BCsbRLxBqEiBf"]⟩,
  ⟨"Brah Brahmi", ["DZAeEx"]⟩,
  ⟨"Brai Braille", ["PDwJv"]⟩,
  ⟨"Bugi Buginese", ["JWaBf"]⟩,
  ⟨"Buhd Buhid", ["IUyt"]⟩,
  ⟨"Cakm Chakma", ["DZKaCt"]⟩,
  ⟨"Cans Canadian_Aboriginal", ["HOyYpVoCrDTPqp"]⟩,
  ⟨"Cari Carian", ["DTYmBw"]⟩,
  ⟨"Cham", ["CMJwDr"]⟩,
  ⟨"Cher Cherokee", ["HLgDpCFJeDb"]⟩,
  ⟨"Chrs Chorasmian", ["DYXcBb"]⟩,
  ⟨"Copt Coptic Qaac", ["BMgnPJkEx"]⟩,
  ⟨"Cpmn Cypro_Minoan", ["EKYyDu"]⟩,
  ⟨"Cprt Cypriot", ["DVZkCl"]⟩,
  ⟨"Cyrl Cyrillic", ["BNkFccGmIVokGeaCyaGFnBfBTOaDrBHEcbDHPgDr"]⟩,
  ⟨"Deva Devanagari", ["DKqDceoczCIJgBfBREmj"]⟩,
  ⟨"Diak Dives_Akuru", ["ECKuDl"]⟩,
  ⟨"Dogr Dogra", ["ECAyCh"]⟩,
  ⟨"Dsrt Deseret", ["DUMaDb"]⟩,
  ⟨"Dupl Duployan", ["GMDsGd"]⟩,
  ⟨"Egyp Egyptian_Hieroglyphs", ["ELDgHOs"]⟩,
  ⟨"Elba Elbasan", ["DUVwBn"]⟩,
  ⟨"Elym Elymaic", ["DYYyw"]⟩,
  ⟨"Ethi Ethiopic", ["GVgPtJVaDqBVKcBtEPYfBe"]⟩,
  ⟨"Gara Garay", ["DXZcDb"]⟩,
  ⟨"Geor Georgian", ["GHsDmbdEJwBvGEaBt"]⟩,
  ⟨"Glag Glagolitic", ["QRgDrGIZgBq"]⟩,
  ⟨"Gong Gunjala_Gondi", ["EEBwCv"]⟩,
  ⟨"Gonm Masaram_Gondi", ["EDYeDl"]⟩,
  ⟨"Goth Gothic", ["DUEaBa"]⟩,
  ⟨"Gran Grantha", ["EADsCfcCe"]⟩,
  ⟨"Grek Greek", ["BHwdbibfbabDlopJNqeByeeeDgaMiJuLjaCAJeaBGNiDaraDAXrCr"]⟩,
  ⟨"Gujr Gujarati", ["DZlEw"]⟩,
  ⟨"Gukh Gurung_Khema", ["FDRsCf"]⟩,
  ⟨"Guru Gurmukhi", ["DUnEn"]⟩,
  ⟨"Hang Hangul", ["GLkJvLLebJxDpEjBeCnBeBTAnBcYtQRbPAiCi"]⟩,
  ⟨"Hani Han", ["RPwNdBvabaziodBLcJTnCmBFBjBHSiSfBSIibmbCCOkEGLz"]⟩,
  ⟨"Hano Hanunoo", ["ITsu"]⟩,
  ⟨"Hatr Hatran", ["DWIaBf"]⟩,
  ⟨"Hebr Hebrew", ["CCvDvDOVwBy"]⟩,
  ⟨"Hira Hiragana", ["SHdDhgcFPEvLasBgYMva"]⟩,
  ⟨"Hluw Anatolian_Hieroglyphs", ["ESSeWk"]⟩,
  ⟨"Hmng Pahawh_Hmong", ["FHMeFn"]⟩,
  ⟨"Hmnp Nyiakeng_Puachue_Hmong", ["HAEaDb"]⟩,
  ⟨"Hung Old_Hungarian", ["DXRsEx"]⟩,
  ⟨"Ital Old_Italic", ["DUCeBv"]⟩,
  ⟨"Java Javanese", ["CMEyCzcp"]⟩,
  ⟨"Kali Kayah_Li", ["CMAaBtba"]⟩,
  ⟨"Kana Katakana", ["SKvDlccJgpIaBubDjCZHejbBsCOUcqLbcBys"]⟩,
  ⟨"Kawi", ["EERwDm"]⟩,
  ⟨"Khar Kharoshthi", ["DWTcDk"]⟩,
  ⟨"Khmr Khmer", ["IXkErSsBf"]⟩,
  ⟨"Khoj Khojki", ["DZTwCn"]⟩,
  ⟨"Kits Khitan_Small_Script", ["FJIiaKGxTr"]⟩,
  ⟨"Knda Kannada", ["ETcEl"]⟩,
  ⟨"Krai Kirat_Rai", ["FIIiCf"]⟩,
  ⟨"Kthi Kaithi", ["DZFcCz"]⟩,
  ⟨"Lana Tai_Tham", ["JXgFl"]⟩,
  ⟨"Laoo Lao", ["FMvDq"]⟩,
  ⟨"Latn Latin", [
    "CnzgzBvapafwbBebRgBneJXbBlgBwfdfmbCrCnJvOfanaqmFlbgaBbarBoECtBfBULmDxdEmBFkBqbibdBEDqgBOkz",
    "gzDCfCgDDNpBq"]⟩,
  ⟨"Lepc Lepcha", ["KPsDb"]⟩,
  ⟨"Limb Limbu", ["JMeDb"]⟩,
  ⟨"Lina Linear_A", ["DVFsNv"]⟩,
  ⟨"Linb Linear_B", ["DSYqJq"]⟩,
  ⟨"Lisu", ["CKKuBvBUMaa"]⟩,
  ⟨"Lyci Lycian", ["DTXgBc"]⟩,
  ⟨"Lydi Lydian", ["DWKmBf"]⟩,
  ⟨"Mahj Mahajani", ["DZNcBm"]⟩,
  ⟨"Maka Makasar", ["EEQqy"]⟩,
  ⟨"Mand Mandaic", ["DDgBe"]⟩,
  ⟨"Mani Manichaean", ["DXAmCc"]⟩,
  ⟨"Marc Marchen", ["EDSqCs"]⟩,
  ⟨"Medf Medefaidrin", ["FISeDm"]⟩,
  ⟨"Mend Mende_Kikakui", ["HCUyIg"]⟩,
  ⟨"Merc Meroitic_Cursive", ["DWPkDr"]⟩,
  ⟨"Mero Meroitic_Hieroglyphs", ["DWOeBf"]⟩,
  ⟨"Mlym Malayalam", ["EYaEx"]⟩,
  ⟨"Modi", ["EBHgDl"]⟩,
  ⟨"Mong Mongolian", ["JCibcabGiDSCbm"]⟩,
  ⟨"Mroo Mro", ["FHEuBv"]⟩,
  ⟨"Mtei Meetei_Mayek", ["CMSmwHtCf"]⟩,
  ⟨"Mult Multani", ["DZYuBp"]⟩,
  ⟨"Mymr Myanmar", ["GBoGdCGAyBeDtBfBPAmt"]⟩,
  ⟨"Nagm Nag_Mundari", ["HBPoBp"]⟩,
  ⟨"Nand Nandinagari", ["ECQyCq"]⟩,
  ⟨"Narb Old_North_Arabian", ["DWYaBf"]⟩,
  ⟨"Nbat Nabataean", ["DWEiBv"]⟩,
  ⟨"Newa", ["EANoDt"]⟩,
  ⟨"Nkoo Nko", ["CYiCl"]⟩,
  ⟨"Nshu Nushu", ["FJIfaYVmPf"]⟩,
  ⟨"Ogam Ogham", ["INoBc"]⟩,
  ⟨"Olck Ol_Chiki", ["KSuBv"]⟩,
  ⟨"Onao Ol_Onal", ["HBZkBv"]⟩,
  ⟨"Orkh Old_Turkic", ["DXMuCu"]⟩,
  ⟨"Orya Oriya", ["EEjEo"]⟩,
  ⟨"Osge Osage", ["DUSuCx"]⟩,
  ⟨"Osma Osmanya", ["DUQyBp"]⟩,
  ⟨"Ougr Old_Uyghur", ["DYUqz"]⟩,
  ⟨"Palm Palmyrene", ["DWDcBf"]⟩,
  ⟨"Pauc Pau_Cin_Hau", ["EDCaCe"]⟩,
  ⟨"Perm Old_Permic", ["DUFgBq"]⟩,
  ⟨"Phag Phags_Pa", ["CLSqCd"]⟩,
  ⟨"Phli Inscriptional_Pahlavi", ["DXGqBf"]⟩,
  ⟨"Phlp Psalter_Pahlavi", ["DXHwBv"]⟩,
  ⟨"Phnx Phoenician", ["DWJgBf"]⟩,
  ⟨"Plrd Miao", ["FIZoGd"]⟩,
  ⟨"Prti Inscriptional_Parthian", ["DXFkBf"]⟩,
  ⟨"Rjng Rejang", ["CMBwBv"]⟩,
  ⟨"Rohg Hanifi_Rohingya", ["DXWqCf"]⟩,
  ⟨"Runr Runic", ["IOuCwdk"]⟩,
  ⟨"Samr Samaritan", ["DAuCk"]⟩,
  ⟨"Sarb Old_South_Arabian", ["DWWuBf"]⟩,
  ⟨"Saur Saurashtra", ["CLVcDl"]⟩,
  ⟨"Sgnw SignWriting", ["GWTkBAl"]⟩,
  ⟨"Shaw Shavian", ["DUPcBv"]⟩,
  ⟨"Shrd Sharada", ["DZOyDr"]⟩,
  ⟨"Sidd Siddham", ["EBCiDp"]⟩,
  ⟨"Sind Khudawadi", ["EAAqCv"]⟩,
  ⟨"Sinh Sinhala", ["FCzElDULgt"]⟩,
  ⟨"Sogd Sogdian", ["DYSeBp"]⟩,
  ⟨"Sogo Old_Sogdian", ["DYQiBn"]⟩,
  ⟨"Sora Sora_Sompeng", ["DZIeBp"]⟩,
  ⟨"Soyo Soyombo", ["ECXsDe"]⟩,
  ⟨"Sund Sundanese", ["KKuClJwh"]⟩,
  ⟨"Sunu Sunuwar", ["EDLwCf"]⟩,
  ⟨"Sylo Syloti_Nagri", ["CLQeBs"]⟩,
  ⟨"Syrc Syriac", ["CQyDbKmk"]⟩,
  ⟨"Tagb Tagbanwa", ["IWet"]⟩,
  ⟨"Takr Takri", ["EBMeCv"]⟩,
  ⟨"Tale Tai_Le", ["JPgBk"]⟩,
  ⟨"Talu New_Tai_Lue", ["JRcDr"]⟩,
  ⟨"Taml Tamil", ["EJiEqEALhCl"]⟩,
  ⟨"Tang Tangut", ["FJIeaBfKFvTsi"]⟩,
  ⟨"Tavt Tai_Viet", ["CMOuDr"]⟩,
  ⟨"Telu Telugu", ["EOeEx"]⟩,
  ⟨"Tfng Tifinagh", ["RCyDb"]⟩,
  ⟨"Tglg Tagalog", ["ISmBf"]⟩,
  ⟨"Thaa Thaana", ["CVwBx"]⟩,
  ⟨"Thai", ["FHxCffBb"]⟩,
  ⟨"Tibt Tibetan", ["FRsIeeb"]⟩,
  ⟨"Tirh Tirhuta", ["EASmDl"]⟩,
  ⟨"Tnsa Tangsa", ["FHGqDl"]⟩,
  ⟨"Todr Todhri", ["DVDgBz"]⟩,
  ⟨"Toto", ["HATkBe"]⟩,
  ⟨"Tutg Tulu_Tigalari", ["EAIqDu"]⟩,
  ⟨"Ugar Ugaritic", ["DUHcBf"]⟩,
  ⟨"Vaii Vai", ["CKMqLn"]⟩,
  ⟨"Vith Vithkuqi", ["DVAeCy"]⟩,
  ⟨"Wara Warang_Citi", ["ECHcDr"]⟩,
  ⟨"Wcho Wancho", ["HAVgCl"]⟩,
  ⟨"Xpeo Old_Persian", ["DUIiCb"]⟩,
  ⟨"Xsux Cuneiform", ["EFBsBZv"]⟩,
  ⟨"Yezi Yezidi", ["DYLkBx"]⟩,
  ⟨"Yiii Yi", ["CIPkBVa"]⟩,
  ⟨"Zanb Zanabazar_Square", ["ECUqCt"]⟩,
  ⟨"Zinh Inherited Qaai", [
    "BDoEhKrbRkkBaaBCidGOxBeTtcbmbgeagadbHqClUebHmBgFTxdEdbCZUjpqnBLnaIsaGFaaCTCuCsUycrhcgBedBT",
    "LHiJf"]⟩,
  ⟨"Zyyy Common", [
    "aCmBafBaBubobexaBfaRhBmfectEmajagabaYnagaoadaBgaGaaTwaEzbBVtaPpdLeaCGlcCtbHvbbaBVhanahdbfb",
    "ccaBDtlcDudkborBgClBlbccfbBabqBpCLqJwBDnTsDpPmubabyphedDnbdaDmbFrpBgBvBwClBfDcBvaDkGlJToCl",
    "BHSiBhDycGjjJkaGeaPfaobBEZqbIajwChFrBhBafBakkaBtbCmBdJyClDcmBzBsIuBaCSHwGVzGaUodqibhBdeCiI",
    "fBZrHThHwBBeTrbDUeBSUXbEw"]⟩]

/-- The characters that have a list of scripts. The names are the codes of those
scripts. -/
def extensionTables : List PropertyTable := [
  ⟨"Beng", ["KZfa"]⟩,
  ⟨"Deva", ["KXtacagacbcgcbbd"]⟩,
  ⟨"Dupl", ["RNgaFUWpd"]⟩,
  ⟨"Grek", ["BGcacaKAsb"]⟩,
  ⟨"Hani", ["SEwaCdbMypBgBlCgBnCeBwplBzaDkykeDsBeGBHxrLRyb"]⟩,
  ⟨"Latn", ["BHjm"]⟩,
  ⟨"Nand", ["KZia"]⟩,
  ⟨"Runr", ["IRrc"]⟩,
  ⟨"Syrc", ["LJea"]⟩,
  ⟨"Adlm Arab", ["MGda"]⟩,
  ⟨"Arab Copt", ["DUAyBb"]⟩,
  ⟨"Arab Nkoo", ["DRXmb"]⟩,
  ⟨"Arab Rohg", ["CPga"]⟩,
  ⟨"Arab Syrc", ["CJzkBaa"]⟩,
  ⟨"Arab Thaa", ["DSEkaka"]⟩,
  ⟨"Avst Orkh", ["RMua"]⟩,
  ⟨"Beng Deva", ["KXxbbaiaiacahb"]⟩,
  ⟨"Bopo Hani", ["SGgd"]⟩,
  ⟨"Bopo Latn", ["BBjabcna"]⟩,
  ⟨"Bugi Java", ["CMHza"]⟩,
  ⟨"Copt Grek", ["BIab"]⟩,
  ⟨"Copt Latn", ["RLva"]⟩,
  ⟨"Cprt Linb", ["DTIoaCai"]⟩,
  ⟨"Cyrl Glag", ["BSmacaPUxaBTNfa"]⟩,
  ⟨"Cyrl Latn", ["BSnb"]⟩,
  ⟨"Cyrl Perm", ["BSla"]⟩,
  ⟨"Deva Gran", ["KZbaeb"]⟩,
  ⟨"Deva Nand", ["KYra"]⟩,
  ⟨"Deva Shrd", ["KXzabacbca"]⟩,
  ⟨"Deva Taml", ["CLZna"]⟩,
  ⟨"Ethi Latn", ["BEca"]⟩,
  ⟨"Gran Taml", ["ENenDVQbabaCdbETvbba"]⟩,
  ⟨"Gujr Khoj", ["EDij"]⟩,
  ⟨"Guru Mult", ["DYkj"]⟩,
  ⟨"Hani Latn", ["CLGih"]⟩,
  ⟨"Hani Tang", ["SEapTba"]⟩,
  ⟨"Hira Kana", ["SGneDvddaDnaDAEtaBtb"]⟩,
  ⟨"Latn Lisu", ["BBpa"]⟩,
  ⟨"Latn Osge", ["BGya"]⟩,
  ⟨"Latn Sunu", ["BEbaca"]⟩,
  ⟨"Latn Syrc", ["BEuaeaia"]⟩,
  ⟨"Latn Tfng", ["BDxa"]⟩,
  ⟨"Latn Thai", ["BBza"]⟩,
  ⟨"Mani Ougr", ["DXCka"]⟩,
  ⟨"Mong Phag", ["JCkbba"]⟩,
  ⟨"Adlm Arab Hung", ["RNla"]⟩,
  ⟨"Aghb Latn Todr", ["BHea"]⟩,
  ⟨"Arab Syrc Thaa", ["CIea"]⟩,
  ⟨"Arab Thaa Yezi", ["CKuj"]⟩,
  ⟨"Armn Geor Glag", ["CCna"]⟩,
  ⟨"Beng Cakm Sylo", ["DTmj"]⟩,
  ⟨"Beng Deva Tutg", ["CLZla"]⟩,
  ⟨"Cakm Mymr Tale", ["GEaj"]⟩,
  ⟨"Cher Latn Syrc", ["BFka"]⟩,
  ⟨"Cher Latn Tale", ["BEaa"]⟩,
  ⟨"Cpmn Cprt Linb", ["DTImb"]⟩,
  ⟨"Cprt Lina Linb", ["DTItBs"]⟩,
  ⟨"Cyrl Latn Syrc", ["LJca"]⟩,
  ⟨"Cyrl Latn Todr", ["BEfa"]⟩,
  ⟨"Deva Gran Knda", ["KXva"]⟩,
  ⟨"Deva Gran Latn", ["MMia"]⟩,
  ⟨"Dupl Latn Syrc", ["BDya"]⟩,
  ⟨"Geor Glag Latn", ["GLfa"]⟩,
  ⟨"Hani Hira Kana", ["SGyb"]⟩,
  ⟨"Kali Latn Mymr", ["CMBua"]⟩,
  ⟨"Knda Nand Tutg", ["EXaj"]⟩,
  ⟨"Latn Mong Phag", ["MExa"]⟩,
  ⟨"Latn Sunu Syrc", ["BFha"]⟩,
  ⟨"Beng Deva Gran Knda", ["KXsaba"]⟩,
  ⟨"Buhd Hano Tagb Tglg", ["IUnb"]⟩,
  ⟨"Cari Grek Hung Mero", ["MGra"]⟩,
  ⟨"Cher Cyrl Latn Osge", ["BDza"]⟩,
  ⟨"Cher Cyrl Latn Tfng", ["BDqa"]⟩,
  ⟨"Cher Dupl Latn Syrc", ["BEya"]⟩,
  ⟨"Cyrl Grek Latn Perm", ["BDua"]⟩,
  ⟨"Deva Dogr Kthi Mahj", ["DOoj"]⟩,
  ⟨"Deva Gran Knda Tutg", ["KZca"]⟩,
  ⟨"Grek Latn Perm Todr", ["BEha"]⟩,
  ⟨"Bopo Hang Hani Hira Kana", ["SEtapaidqagaDAAvb"]⟩,
  ⟨"Cher Dupl Kana Latn Syrc", ["BExa"]⟩,
  ⟨"Glag Latn Sunu Syrc Thai", ["BDra"]⟩,
  ⟨"Aghb Cher Goth Latn Sunu Thai", ["BFla"]⟩,
  ⟨"Bopo Hang Hani Hira Kana Yiii", ["SFcfchIpaDAEfe"]⟩,
  ⟨"Cari Geor Glag Hung Lyci Orkh", ["MGoa"]⟩,
  ⟨"Copt Elba Glag Goth Kana Latn", ["BDta"]⟩,
  ⟨"Deva Knda Mlym Orya Taml Telu", ["KYca"]⟩,
  ⟨"Arab Gara Nkoo Rohg Syrc Thaa Yezi", ["CHoaoa"]⟩,
  ⟨"Avst Cari Geor Hung Kthi Lydi Samr", ["RMva"]⟩,
  ⟨"Beng Cyrl Deva Latn Lisu Thai Toto", ["BAya"]⟩,
  ⟨"Bopo Hang Hani Hira Kana Mong Yiii", ["SEra"]⟩,
  ⟨"Adlm Arab Gara Nkoo Rohg Syrc Thaa Yezi", ["CIha"]⟩,
  ⟨"Bopo Hang Hani Hira Kana Mong Phag Yiii", ["SEsa"]⟩,
  ⟨"Bopo Hang Hani Hira Kana Mong Tibt Yiii", ["SEyb"]⟩,
  ⟨"Cher Copt Cyrl Grek Latn Perm Sunu Tale", ["BDoa"]⟩,
  ⟨"Cher Cyrl Grek Latn Osge Sunu Tale Todr", ["BDpa"]⟩,
  ⟨"Adlm Arab Mand Mani Ougr Phlp Rohg Sogd Syrc", ["CJoa"]⟩,
  ⟨"Bopo Hang Hani Hira Kana Lisu Mong Tibt Yiii", ["SFab"]⟩,
  ⟨"Copt Dupl Hebr Latn Perm Syrc Tale Tfng Todr", ["BDva"]⟩,
  ⟨"Armn Cyrl Dupl Goth Grek Hebr Latn Perm Syrc Tale", ["BDwa"]⟩,
  ⟨"Aghb Cher Copt Cyrl Goth Grek Latn Osge Syrc Tfng Todr", ["BDsa"]⟩,
  ⟨"Beng Deva Gran Knda Mlym Nand Orya Sinh Telu Tirh Tutg", ["KZaa"]⟩,
  ⟨"Deva Dogr Gujr Guru Khoj Kthi Mahj Modi Sind Takr Tirh", ["CLSgbba"]⟩,
  ⟨"Beng Deva Gran Gujr Guru Knda Latn Mlym Orya Taml Telu Tirh", ["DNua"]⟩,
  ⟨"Deva Dogr Gujr Guru Khoj Kthi Mahj Modi Shrd Sind Takr Tirh", ["CLSia"]⟩,
  ⟨"Beng Deva Gran Gujr Guru Knda Latn Mlym Orya Shrd Taml Telu Tirh", ["DNta"]⟩,
  ⟨"Deva Dogr Gujr Guru Khoj Knda Kthi Mahj Modi Nand Shrd Sind Takr Tirh Tutg", ["CLSdc"]⟩,
  ⟨"Avst Cari Copt Dupl Elba Geor Glag Gong Goth Grek Hani Latn Lydi Mahj Perm Shaw", ["Hba"]⟩,
  ⟨"Deva Dogr Gujr Guru Khoj Knda Kthi Mahj Mlym Modi Nand Shrd Sind Takr Tirh Tutg", ["CLSac"]⟩,
  ⟨"Beng Deva Dogr Gong Gonm Gran Gujr Guru Knda Mahj Mlym Nand Onao Orya Sind Sinh " ++
    "Sylo Takr Taml Telu Tirh", ["DOma"]⟩,
  ⟨"Beng Deva Dogr Gong Gonm Gran Gujr Gukh Guru Knda Limb Mahj Mlym Nand Onao Orya " ++
    "Sind Sinh Sylo Takr Taml Telu Tirh", ["DOna"]⟩]

/-- The characters used in a script. -/
structure ScriptUse where
  /-- The characters of the script itself, among those that are assigned. -/
  own : CodePoints
  /-- The characters with a list that names the script. -/
  listed : CodePoints
  /-- The characters with a list that does not. -/
  elsewhere : CodePoints
deriving DecidableEq, Repr

namespace ScriptUse

/-- Whether a character is used in the script. -/
def holds (script : ScriptUse) (c : Char) : Bool :=
  script.listed.holds c || (isAssigned c && script.own.holds c && !script.elsewhere.holds c)

end ScriptUse

/-- The characters of a script, among those that are assigned. -/
def scriptPoints? (name : String) : Option CodePoints := PropertyTable.find? scriptTables name

/-- The characters of a script. -/
def scriptSet? (name : String) : Option (Char → Bool) :=
  (scriptPoints? name).map fun points c => isAssigned c && points.holds c

/-- The use of a script. -/
def scriptUse? (name : String) : Option ScriptUse :=
  match scriptTables.find? (·.isNamed name) with
  | some script =>
    let lists := extensionTables.partition (·.isNamed (looseName script.code.toList))
    some ⟨script.points, .union (lists.1.map (·.points)), .union (lists.2.map (·.points))⟩
  | none => none

end SchemaLang.Text
