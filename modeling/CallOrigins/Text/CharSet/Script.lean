import CallOrigins.Text.CharSet

/-!
# Scripts

The scripts of characters, by version 16.0 of Unicode, as tables of runs.
-/

namespace CallOrigins.Text.CharSet

/-- **The scripts**: their names in small letters, and their characters. -/
def scripts : List (List String × CharSet) := [
    (["adlm", "adlam"], ofText "HDEuCyekec"),
    (["aghb", "caucasianalbanian"], ofText "DUXsCalb"),
    (["ahom"], ofText "EBRcBbcpex"),
    (["arab", "arabic"], ofText (
      "CHcfbgbobdbBgbklBabEebBiDcBwJgBfbcfCxbBdDNTwElqNzcDccCchbBgqEifbFfFVnBfCpdCdeDGLsebBbbcbb" ++
      "cbbkbebbbbgbebbbbbbdbcbbcbbbbbbbbbbcbbcebhbebebbbkbrfdbfbrCac")),
    (["armi", "imperialaramaic"], ofText "DWBwwbj"),
    (["armn", "armenian"], ofText "BZdBmcBycdDOZjf"),
    (["avst", "avestan"], ofText "DXCyCcdh"),
    (["bali", "balinese"], ofText "KFwCzbBy"),
    (["bamu", "bamum"], ofText "CLCqDkCVCqVx"),
    (["bass", "bassavah"], ofText "FHKiBecg"),
    (["batk", "batak"], ofText "KNgCaie"),
    (["beng", "bengali"], ofText "DPoebicccwbhbbdecjccceibecbfcz"),
    (["bhks", "bhaiksuki"], ofText "EDOijbBtbokBd"),
    (["bopo", "bopomofo"], ofText "BCscRLxBrEiBg"),
    (["brah", "brahmi"], ofText "DZAeDaeBkjb"),
    (["brai", "braille"], ofText "PDwJw"),
    (["bugi", "buginese"], ofText "JWaBccc"),
    (["buhd", "buhid"], ofText "IUyu"),
    (["cakm", "chakma"], ofText "DZKaCbbs"),
    (["cans", "canadianaboriginal"], ofText "HOyYqVoCsDTPqq"),
    (["cari", "carian"], ofText "DTYmBx"),
    (["cham"], ofText "CMJwCdjockce"),
    (["cher", "cherokee"], ofText "HLgDicgCFJeDc"),
    (["chrs", "chorasmian"], ofText "DYXcBc"),
    (["copt", "coptic", "qaac"], ofText "BMgoPJkEmfh"),
    (["cpmn", "cyprominoan"], ofText "EKYyDv"),
    (["cprt", "cypriot"], ofText "DVZkgcbbBsbcdbcb"),
    (["cyrl", "cyrillic"], ofText "BNkFdcGnIVolGebCybGFnBgBTOaDsBHEccDHPgCkBhb"),
    (["deva", "devanagari"], ofText "DKqDdepcBaCIJgBgBREmk"),
    (["diak", "divesakuru"], ofText "ECKuhcbcibcbBebccmjk"),
    (["dogr", "dogra"], ofText "ECAyCi"),
    (["dsrt", "deseret"], ofText "DUMaDc"),
    (["dupl", "duployan"], ofText "GMDsEdfndjhkce"),
    (["egyp", "egyptianhieroglyphs"], ofText "ELDgBQskFXr"),
    (["elba", "elbasan"], ofText "DUVwBo"),
    (["elym", "elymaic"], ofText "DYYyx"),
    (["ethi", "ethiopic"], ofText (
      "GVgCvbechbbbecBpbecBhbechbbbecpbCfbecCpcBgdBaJVaxjhbhbhbhbhbhbhbhBVKcgcgcgjhbhEPYfhbebcbp")),
    (["geor", "georgian"], ofText "GHsBmbbfbcBrbeEJwBrcdGEaBmbbfb"),
    (["glag", "glagolitic"], ofText "QRgDsGIZghbrchbcbf"),
    (["gong", "gunjalagondi"], ofText "EEBwgbcbBlbcbghk"),
    (["gonm", "masaramgondi"], ofText "EDYehbcbBsdbbcbjik"),
    (["goth", "gothic"], ofText "DUEaBb"),
    (["gran", "grantha"], ofText "EADsebicccwbhbcbfcjcccdcbgbfhchdf"),
    (["grek", "greek"], ofText (
      "BHwebdcebbebbbbdbbbubCloqJNqfByfefDgbMiwcgcBmcgcibbbbbbbBfcCbbpbocgbtcdbjLjbCAJebBGNiDbrb" ++
      "DAXrCs")),
    (["gujr", "gujarati"], ofText "DZldbjbdbwbhbcbfckbdbdcbpecmhh"),
    (["guru", "gurmukhi"], ofText "DUndbgeccwbhbcbcbccbbfeccddbhebbhr"),
    (["hang", "hangul"], ofText "GLkJwLLecJxDqEjBfCnBfBTAnBdYtQNsmxeBxPAiBfdgcgcgcd"),
    (["hani", "han"], ofText (
      "RPwBabDlmIgBvbbbzjoeBLcJToCmBFBkBHSiOccEcBSIicmcCCOkCLFcBgGDugIocINqoLBlpXyDQwUwCFyHHzfGF" ++
      "g")),
    (["hano", "hanunoo"], ofText "ITsv"),
    (["hatr", "hatran"], ofText "DWIatbcff"),
    (["hebr", "hebrew"], ofText "CCvCdiBbegDOVwBabfbbbcbcbk"),
    (["hira", "hiragana"], ofText "SHdDigdFPEvLbsbBddYMvb"),
    (["hluw", "anatolianhieroglyphs"], ofText "ESSeWl"),
    (["hmng", "pahawhhmong"], ofText "FHMeCskkbhbvft"),
    (["hmnp", "nyiakengpuachuehmong"], ofText "HAEaBtdockec"),
    (["hung", "oldhungarian"], ofText "DXRsBznBzhg"),
    (["ital", "olditalic"], ofText "DUCeBkjd"),
    (["java", "javanese"], ofText "CMEyDackec"),
    (["kali", "kayahli"], ofText "CMAaBubb"),
    (["kana", "katakana"], ofText "SKvDmcdJgqIaBvbDkCZHekbBtCOUcebhbcbbLbdByboe"),
    (["kawi"], ofText "EERwrbBpdBd"),
    (["khar", "kharoshthi"], ofText "DWTcebcfibdbBdcdekhj"),
    (["khmr", "khmer"], ofText "IXkDqckgkSsBg"),
    (["khoj", "khojki"], ofText "DZTwsbBv"),
    (["kits", "khitansmallscript"], ofText "FJIibKGxScBpb"),
    (["knda", "kannada"], ofText "ETcnbdbxbkbfcjbdbehcgcbeckbd"),
    (["kthi", "kaithi"], ofText "DZFcCpkb"),
    (["lana", "taitham"], ofText "JXgClbBdclgkgo"),
    (["laoo", "lao"], ofText "FMvcbbbfbybbbxcfbbbhbkce"),
    (["latn", "latin"], ofText (
      "CnBagBaBvbpbfxbBfbRhBnfJXbBmgBxfefnbCsCnJwOfbnbqnFlcgbBbbrBpECtBgBULmDydCpccbbbivoBFkBrbj" ++
      "beBEDqhBOkBagBaDCfgbBqbjDDNpBfgg")),
    (["lepc", "lepcha"], ofText "KPsCedpdd"),
    (["limb", "limbu"], ofText "JMeBfbmemebdm"),
    (["lina", "lineara"], ofText "DVFsLzjwki"),
    (["linb", "linearb"], ofText "DSYqmbBabtbcbpcoBiEt"),
    (["lisu"], ofText "CKKuBwBUMab"),
    (["lyci", "lycian"], ofText "DTXgBd"),
    (["lydi", "lydian"], ofText "DWKmBafb"),
    (["mahj", "mahajani"], ofText "DZNcBn"),
    (["maka", "makasar"], ofText "EEQqz"),
    (["mand", "mandaic"], ofText "DDgBccb"),
    (["mani", "manichaean"], ofText "DXAmBnem"),
    (["marc", "marchen"], ofText "EDSqBgcwbo"),
    (["medf", "medefaidrin"], ofText "FISeDn"),
    (["mend", "mendekikakui"], ofText "HCUyHpcq"),
    (["merc", "meroiticcursive"], ofText "DWPkyeucBu"),
    (["mero", "meroitichieroglyphs"], ofText "DWOeBg"),
    (["mlym", "malayalam"], ofText "EYanbdbBzbdbgeqcBa"),
    (["modi"], ofText "EBHgCrlk"),
    (["mong", "mongolian"], ofText "JCiccbbugDlhBrDSCbn"),
    (["mroo", "mro"], ofText "FHEuBfbkec"),
    (["mtei", "meeteimayek"], ofText "CMSmxHtBuck"),
    (["mult", "multani"], ofText "DZYuhbbbebpbl"),
    (["mymr", "myanmar"], ofText "GBoGeCGAyBfDtBgBPAmu"),
    (["nagm", "nagmundari"], ofText "HBPoBq"),
    (["nand", "nandinagari"], ofText "ECQyicBucl"),
    (["narb", "oldnortharabian"], ofText "DWYaBg"),
    (["nbat", "nabataean"], ofText "DWEiBfij"),
    (["newa"], ofText "EANoDobf"),
    (["nkoo", "nko"], ofText "CYiChcd"),
    (["nshu", "nushu"], ofText "FJIfbYVmPg"),
    (["ogam", "ogham"], ofText "INoBd"),
    (["olck", "olchiki"], ofText "KSuBw"),
    (["orkh", "oldturkic"], ofText "DXMuCv"),
    (["orya", "oriya"], ofText "EEjdbicccwbhbcbfcjcccdhdecbfcs"),
    (["osge", "osage"], ofText "DUSuBkeBk"),
    (["osma", "osmanya"], ofText "DUQyBeck"),
    (["ougr", "olduyghur"], ofText "DYUqBa"),
    (["palm", "palmyrene"], ofText "DWDcBg"),
    (["pauc", "paucinhau"], ofText "EDCaCf"),
    (["perm", "oldpermic"], ofText "DUFgBr"),
    (["phag", "phagspa"], ofText "CLSqCe"),
    (["phli", "inscriptionalpahlavi"], ofText "DXGqtfi"),
    (["phlp", "psalterpahlavi"], ofText "DXHwshemh"),
    (["phnx", "phoenician"], ofText "DWJgBcdb"),
    (["plrd", "miao"], ofText "FIZoCxeCfhr"),
    (["prti", "inscriptionalparthian"], ofText "DXFkwci"),
    (["rjng", "rejang"], ofText "CMBwBklb"),
    (["rohg", "hanifirohingya"], ofText "DXWqBoik"),
    (["runr", "runic"], ofText "IOuCxdl"),
    (["samr", "samaritan"], ofText "DAuBucp"),
    (["sarb", "oldsoutharabian"], ofText "DWWuBg"),
    (["saur", "saurashtra"], ofText "CLVcCsim"),
    (["sgnw", "signwriting"], ofText "GWTkZcpfbp"),
    (["shaw", "shavian"], ofText "DUPcBw"),
    (["shrd", "sharada"], ofText "DZOyDs"),
    (["sidd", "siddham"], ofText "EBCiCccBm"),
    (["sind", "khudawadi"], ofText "EAAqChfk"),
    (["sinh", "sinhala"], ofText "FCzdbsdybjbbchdbegbbbigkcdDULgu"),
    (["sogd", "sogdian"], ofText "DYSeBq"),
    (["sogo", "oldsogdian"], ofText "DYQiBo"),
    (["sora", "sorasompeng"], ofText "DZIezhk"),
    (["soyo", "soyombo"], ofText "ECXsDf"),
    (["sund", "sundanese"], ofText "KKuCmJwi"),
    (["sylo", "sylotinagri"], ofText "CLQeBt"),
    (["syrc", "syriac"], ofText "CQyobCicdKml"),
    (["tagb", "tagbanwa"], ofText "IWenbdbc"),
    (["takr", "takri"], ofText "EBMeCggk"),
    (["tale", "taile"], ofText "JPgBecf"),
    (["talu", "newtailue"], ofText "JRcBseBagldc"),
    (["taml", "tamil"], ofText "EJicbgddbedcbbbcdcdddmefddbecbgbovEALhBynb"),
    (["tang", "tangut"], ofText "FJIebBfJCaiBDoTsj"),
    (["tavt", "taiviet"], ofText "CMOuCpyf"),
    (["telu", "telugu"], ofText "EOenbdbxbqcjbdbehcbdcbceckhj"),
    (["tfng", "tifinagh"], ofText "RCyCehcob"),
    (["tglg", "tagalog"], ofText "ISmwjb"),
    (["thaa", "thaana"], ofText "CVwBy"),
    (["thai"], ofText "FHxCgfBc"),
    (["tibt", "tibetan"], ofText "FRsCubBkeBnbBkbpbhec"),
    (["tirh", "tirhuta"], ofText "EASmCuik"),
    (["tnsa", "tangsa"], ofText "FHGqDbbk"),
    (["toto"], ofText "HATkBf"),
    (["ugar", "ugaritic"], ofText "DUHcBebb"),
    (["vaii", "vai"], ofText "CKMqLo"),
    (["vith", "vithkuqi"], ofText "DVAelbpbhbcblbpbhbc"),
    (["wara", "warangciti"], ofText "ECHcDfmb"),
    (["wcho", "wancho"], ofText "HAVgCgfb"),
    (["xpeo", "oldpersian"], ofText "DUIiBkeo"),
    (["xsux", "cuneiform"], ofText "EFBsBJmDyEhbflHo"),
    (["yezi", "yezidi"], ofText "DYLkBqbdcc"),
    (["yiii", "yi"], ofText "CIPkBSvdCd"),
    (["zanb", "zanabazarsquare"], ofText "ECUqCu"),
    (["zinh", "inherited", "qaai"], ofText (
      "BDoEiKrcRklBabBCieGOxBfTtdbnbhebgbdcHqCmUecHmBhFTxeEdcCZUjqqoBLnbIsbGFabCTCuBucxUydrichBe" ++
      "eBTLHiJg")),
    (["zyyy", "common"], ofText (
      "aCnBagBaBvbpbfxbBfbRhBnffcuEmbjbgbbbYnbgbobdbBgbGabTwbEzcBVtbPpeLebCGldCtcHvcbbBVhbnbhebg" ++
      "bdcbBDtmcDjbldlbprBhClBmbdcgbBbbrBpdeZqwlvBJsJwYecBgbEbTsDqPmvbbbzpieeDncdbDmcFrqBgBmjbBw" ++
      "CmBfDdBvbDkGmJToCmBHSiBiDydGjkJkbGebPfbocBEZqcIakwBjbtbeFrbbBgBagBalkbBtcCmhbhkfJydeBtdjD" ++
      "cnBzBtIuBbCSHweFVgJqgQuGaEmCiJmkBncCkdrichBeeCjIfumumDjjzFfDhbCtbccbcccebmbbbhbCnbecibhbB" ++
      "cbebfbbdhbNccLgcByHThCqCyCjBBeBseDwmpcpbpbBlkGsCeBabcnBsejhcogFyBLwerdndEpeDrgmebpmeCeikg" ++
      "BoiBecmecCkNcmocndkfCehpclgjhFrbDyBSUXbbBeDs")),
    (["gara", "garay"], ofText "DXZcBmdBdic"),
    (["gukh", "gurungkhema"], ofText "FDRsCg"),
    (["krai", "kiratrai"], ofText "FIIiCg"),
    (["onao", "olonal"], ofText "HBZkBreb"),
    (["sunu", "sunuwar"], ofText "EDLwBiok"),
    (["todr", "todhri"], ofText "DVDgCa"),
    (["tutg", "tulutigalari"], ofText "EAIqkbbcbbBmbkbbcbbebkbcic")]

end CallOrigins.Text.CharSet
