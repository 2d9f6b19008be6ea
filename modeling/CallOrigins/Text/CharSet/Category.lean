import CallOrigins.Text.CharSet

/-!
# General categories

The general categories of characters, by version 16.0 of Unicode, as tables of runs, and the sets
that are put together of them.
-/

namespace CallOrigins.Text.CharSet

/-- Capital letters (Lu). -/
def uppercaseLetter : CharSet :=
  ofText (
    "CnBaDxxbhBhbbbbbbbbbbbbbbbbbbbbbbbbbbbbbbbbbbbbbbbbbbbbbbbbbbbbbbbcbbbbbbbbbbbbbbbcbbbbbbbb" ++
    "bbbbbbbbbbbbbbbbbbbbbbbbbbbbbbbbbbbbbbcbbbbdcbbbcbdcebcbddcbcbbbbbcbbcbbcbdbbbcdbhbcbcbcbbb" ++
    "bbbbbbbbbbbbcbbbbbbbbbbbbbbbbbcbcbbdbbbbbbbbbbbbbbbbbbbbbbbbbbbbbbbbbbbbbbbbbbbbbbbbbbbbbbb" ++
    "bbbhcbccbbebbbbbbbbLdbbbdbibgbbdbbbcbrbjBjbcddbbbbbbbbbbbbbbbbbbbbbbbfbcbbccBzBwbbbbbbbbbbb" ++
    "bbbbbbbbbbbbbbbbbbbbbbjbbbbbbbbbbbbbbbbbbbbbbbbbbbbbbbbbbbbbbbbbbbbbbbbbbbbbbcbbbbbbbbbbbbc" ++
    "bbbbbbbbbbbbbbbbbbbbbbbbbbbbbbbbbbbbbbbbbbbbbbbbbbbbbbbbbbbbbbbbbbbbbbbbbbbbbbbbbbbbbbbbbbb" ++
    "bbbbcBmEHdBmbbfbBBuDiDGlbgBrcdMibbbbbbbbbbbbbbbbbbbbbbbbbbbbbbbbbbbbbbbbbbbbbbbbbbbbbbbbbbb" ++
    "bbbbbbbbbbbbbbbbbbbbbbbbbbbbbbbbbbbbbbbbbbbbbbbbbbbbbbbbbbbbbbbbbbbbbbbbbbbbbbbbbbbbbbbbbbj" ++
    "bbbbbbbbbbbbbbbbbbbbbbbbbbbbbbbbbbbbbbbbbbbbbbbbbbbbbbbbbbbbbbbbbbbbbbbbbbbbbbbbbbbbbbbbbbb" ++
    "bbbbbbjiigkiiiiglbbbbbbbiiCuemememfleKcbebddcdcbdfgbbbbbbecekcfbCjbDZgBwBwbbdcbbbbbbebbcbid" ++
    "bbbbbbbbbbbbbbbbbbbbbbbbbbbbbbbbbbbbbbbbbbbbbbbbbbbbbbbbbbbbbbbbbbbbbbbbbbbbbbbbbbbbbbbbbbb" ++
    "bbbbbbbibbbebBTYjbbbbbbbbbbbbbbbbbbbbbbbbbbbbbbbbbbbbbbbbbbbbbtbbbbbbbbbbbbbbbbbbbbbbbbbbbF" ++
    "fbbbbbbbbbbbbbdbbbbbbbbbbbbbbbbbbbbbbbbbbbbbbbbbbbbbbbbbbbbbbbbbbbbbbbbbbbbbkbbbbcbbbbbbbbe" ++
    "bbbcbbbdbbbbbbbbbbbbbbbbbbbbfbfbbbbbbbbbbbbbbbebbbcdbfbbbbbbbybBHAhBaBUzBoFgBkGalbpbhbcCQcB" ++
    "zGbwEGoBgBGJwBgBMMqBaBaBaBaBaBabbccbcccebiBaBaBacbecibhBbcbebfbbdhBbBaBaBaBaBaBaBaBaBaBaBaB" ++
    "ezBhzBhzBhzBhzBhbGNlBi")

/-- Small letters (Ll). -/
def lowercaseLetter : CharSet :=
  ofText (
    "DtBaCgbBpybibbbbbbbbbbbbbbbbbbbbbbbbbbbbbbbbbbbbbbbbbbbbbbbbbbbbbbbcbbbbbbbbbbbbbbbcbbbbbbb" ++
    "bbbbbbbbbbbbbbbbbbbbbbbbbbbbbbbbbbbbbbbcbbbbdcbbbcbdcebcbddcbcbbbbbcbbcbbcbdbbbcccdgbcbcbbb" ++
    "bbbbbbbbbbbbbcbbbbbbbbbbbbbbbbbccbbbdbbbbbbbbbbbbbbbbbbbbbbbbbbbbbbbbbbbbbbbbbbbbbbbbbbbbbb" ++
    "bbbbhcbccbbebbbbbbbbCrcBaHlbbbdbddsbBbBjbcddbbbbbbbbbbbbbbbbbbbbbbbfbbcbccBzBwbbbbbbbbbbbbb" ++
    "bbbbbbbbbbbbbbbbbbbbbjbbbbbbbbbbbbbbbbbbbbbbbbbbbbbbbbbbbbbbbbbbbbbbbbbbbbbcbbbbbbbbbbbbcbb" ++
    "bbbbbbbbbbbbbbbbbbbbbbbbbbbbbbbbbbbbbbbbbbbbbbbbbbbbbbbbbbbbbbbbbbbbbbbbbbbbbbbbbbbbbbbbbbb" ++
    "bbbBwBpEHbBrcdBDggDFujbbEnBsClnbBiDybbbbbbbbbbbbbbbbbbbbbbbbbbbbbbbbbbbbbbbbbbbbbbbbbbbbbbb" ++
    "bbbbbbbbbbbbbbbbbbbbbbbbbbbbbbbbbbbbbbbbbbbbbbbbbbbbbbbbbbbbbbbbbbbbbbbbbbbbbbbbbbbbbbbbbbb" ++
    "bbjbbbbbbbbbbbbbbbbbbbbbbbbbbbbbbbbbbbbbbbbbbbbbbbbbbbbbbbbbbbbbbbbbbbbbbbbbbbbbbbbbbbbbbbb" ++
    "bbbbbbbbbjigkiiiigkiiiiociiiiiifbcgbddbciecciikdbcKobdcdbBbbebebccieebCbbEBbBwbbdcbbbbbbebb" ++
    "cbgfbbbbbbbbbbbbbbbbbbbbbbbbbbbbbbbbbbbbbbbbbbbbbbbbbbbbbbbbbbbbbbbbbbbbbbbbbbbbbbbbbbbbbbb" ++
    "bbbbbbbbbbbchbbbebmBmbbfbBTWdbbbbbbbbbbbbbbbbbbbbbbbbbbbbbbbbbbbbbbbbbbbbbtbbbbbbbbbbbbbbbb" ++
    "bbbbbbbbbbbFfbbbbbbbbbbbbdbbbbbbbbbbbbbbbbbbbbbbbbbbbbbbbbbbbbbbbbbbbbbbbbbbbbbbbbbbbbbbbib" ++
    "bbbcbbbbbbbbbebbbcbbdbbbbbbbbbbbbbbbbbbbbfbfbbbbbbbbbbbbbbbebbbcbdbbbbbbbbbbbBabdbBFpBrfjhD" ++
    "cBEAihmfBOzBaBVhBoFgBkFzlbpbhbcCRbBzEvwEGoBgBGJwBgBMMkBaBahbsBaBaBaebbbhblBaBaBaBaBaBaBaBaB" ++
    "aBaBaBaBaBaBaBaBaBcBczbgBazbgBazbgBazbgBazbgbbCSykbuggDUdBi")

/-- Letters in title case (Lt). -/
def titlecaseLetter : CharSet :=
  ofText "RlbcbcbBmbLFhiiiiimbpbBvb"

/-- Letters that modify others (Lm). -/
def modifierLetter : CharSet :=
  ofText (
    "BAmsemofhbbbFdbfbSkbIwbGicKjcebBfbjbdbGebGlbBVobExbVtbCPmbEdbXnbRwgGsClnbBiBlBAnbnbqnEMxcJh" ++
    "bHjbSbbBrffbDtcDpdBQBubBWcgKkbEkbBccErjDcbxbEbddcSbbwbFhbEebvcDzejbBFVibBtcCZogbBqbjCCxbBgb" ++
    "BJNseTodBocVenCmcbbYGqebhbcSGnCkHthBKfbBRbb")

/-- Other letters (Lo). -/
def otherLetter : CharSet :=
  ofText (
    "GobpbJwbeeIacBFuBbeeBtBgbkBjcbDvbbyckdcbqbbBeBdDllbyBhvwBqzhlfybgrBpChCcdbsbhkqpeicccwbhbbd" ++
    "edbqbncbdockbigeccwbhbcbcbcBfebbtdqjbdbwbhbcbfdbsbpcxblicccwbhbcbfdbBecbdpbrbbgddbedcbbbcdc" ++
    "dddmwbCaibdbxbqdbBadcbccBebeibdbxbkbfdbBfcbcpcrjbdbBpcbqbfdidygfsdybjbbchCgBwbcmgChcbbbfbyb" ++
    "bbkbcjbcfxeBgbClibBkBbfElBrubqgeedbdchdenmbEjMrbechbbbecBpbecBhbechbbbecpbCfbecCpBlqEjXwcrb" ++
    "BafCxgihsntosonbdpCaBobCpBjbCbhfcBibbfCskBfBxBecflBseBaCcxjCbGuBvriCcBenckBsBaBkBpdkBeEjebg" ++
    "bcdbBPqeENvCeyxjhbhbhbhbhbhbhbhVfbCbbeDiibbDmebfBrbDqrBgBwqTsJToCmBFCfbBRzCpBoiKieqkcCobBxC" ++
    "sGnbDzbdhbdbebxBdCaoByCkgdbbclBckxzBdhBvBtfcjkfbBpxdbiuqbgdbdBybbdccfcbbbycdlhbogcgcgjhbhFp" ++
    "BjBdQNsmxeBxMNcOccEcCpbbkbnbfbbbcbcbEeBhNzsCmcCcBomEmfbFfEbkbBtcBfdgcgcgcdBjmbBabtbcbpcoBiE" ++
    "tOzBddBxBvBgnubigBmkBecBkeiEyDaDuBoiCaDoCamLzjwkiFwgcbbBsbcdbcxkxjBfCntbckwkBaCsCegcCmbpebd" ++
    "bBdBqBddBdBjibBcBbCckwktnsEgCvHbBkBmebbLsBqgcqdChBdkbiwBqsBuvBbxmCbCfccbnBtBgzBaBkBdbcbiBjd" ++
    "bmBwoevbbbBjsbztcClhbbbebpbkhBvBmicccwbhbcbfdbsbmfBekbbcbbBmbbzbbbBsCbseudBeBwucbbHcBvBpeBk" ++
    "BwubChBrnbCtBbBlhHdBsIdicbcibcbypbbbDqicBnqbbbBcbkBohbvblButbsCvHrBhBfjbBlrbBxBeEihbcbBmvbz" ++
    "gbcbBgobMptpbbnbBiEubDbBJmIwHoDXkDtpBPgrgzFXrfWlKDdBeCPuVxhBfrDbrBesBwBzvftQtBoPpCxfbGtJCai" ++
    "BVqBpkNGhLfpbBddcboeiPgDKuEdfndjhkNBcbThBtBhbMjBesBsSqBbIvBecbTbhbebcbpbHpBZnebBbbcbbcbbkbe" ++
    "bbbbgbebbbbbbdbcbbcbbbbbbbbbbcbbcebhbebebbbkbrfdbfbrGOaCLFcBgGDugIocINqoLBlpXyDQwUwCFyHHzfG" ++
    "Fg")

/-- Marks without a width (Mn). -/
def nonspacingMark : CharSet :=
  ofText (
    "BDoEiKpfKfBtbbbcbcbbCulBwvqbDxhcgccbeBjbBeBbDnlCgjjbyebjbdbfBrdChjBqybBgCdbbbeiebdhkcBdbCgb" ++
    "eeibucBabccCfbececcddbBecdblcCfbefbcebucwgbbCgbcbbeibhclcBebCjbmbBybdbCdbbdfdbehclcBdbCgbcb" ++
    "gbfcucBccCfceeibucBdbCubhdbbDmbchmiDubcjlhCvcBbbbbbbCdobfbcflbBkjbDyebgbccczcedqenbccgbpbBB" ++
    "bdBKkdBdcBecBecCmcbhibcljbBtdbbEncBibEodecjbgdIlccbCgbbhbbbbcigkcbBwobqBxeBwbbfbbfbBojmcBge" ++
    "ccbdCebbcdbbdCgiccFwdbnbhebgbdcHqCmBBsnebdmEOcdFlbDsBgVieEdcBSQebekBgcDccKmbdbebzcfbFvcBasn" ++
    "bBmizlBudBwbceccBnbCpgccccmbibBvbBzbbdccfcbbBqcibJebcbebBDZsbBCjqqqBLlbIsbFtfCMgdbcfeBodebG" ++
    "jcWbeCnfMfcDbeCslBxeEtbCcpBpbcckdBxecchbCjdBkfbiCkbmcCajkecbDrdcbbcgbcbGbbdivcCfcdbBlhdfCsg" ++
    "nbbbbbocDhicdbbxbDggbbecbcJeegcbcBbcDhicbbcEcbbbcgbbDxbbbcebfJzjbcJwcbbebFoeccebBgkBogceibj" ++
    "gcdBunbcPqhbgbbDewchbcbcEsgdbbcbhbbCucdbbbNjclcCaffbbbxbHXtbgpQYymddDSafChhBOibCleDdbBDBkcG" ++
    "YzBucxUydrichBeeFsdCYdCdeByibobwfbpCAihbrchbcbfDwbGehOlbCjeToeJucBCihEfhBTCIvJg")

/-- Marks with a width (Mc). -/
def spacingMark : CharSet :=
  ofText (
    "DKtbCdbcdiebcBycCgdgccckbBrbCgdCobCgdibbcCbcCgbbbgccckbDycbcddbdkbBpdCjeCjcCgbbfccbcjcBcboc" ++
    "CgdfdbdkbBqcCxdgiscMscClbGpcebgbcczckdchvccgcbkdCLsbBebEzbhibcNiecdecbgIqcCgbbbjbbcigFpbBwb" ++
    "fbbfbcCjbBebeccbCibcdbbdcBwiicGpbvbHHecBTLbccbDkcByqFmcBvbBwceccdEgcccybBtbbbEfbccfbJdcbcbc" ++
    "bbBLXjbbbExbBtdecElbycChbBwdjcnbDpddcbbGodBfcCgcbecccdjbkcDgdhbcbbebcbbDxdicdbEcdgbbecbJddg" ++
    "ecbEjdicbbEfbbcgbDzbbcebKbdjbJngbcebcbbbFmdieebDgbBdcCkbPrbobEcbhbcbIffecbbNmcmbBwcicbbYYyd" ++
    "FJgCdEacBKXncgg")

/-- Marks around a character (Me). -/
def enclosingMark : CharSet :=
  ofText "BSqcIKqbCIgebdBYOxd"

/-- Decimal digits (Nd). -/
def decimalDigit : CharSet :=
  ofText (
    "BwkCIokFekHqkPwkEokEokEokEokEokEokEokEokEokDskEokCskKskCskCTqkBmkLokEykGkkgkHakDikFekgkCAEo" ++
    "kBAckBmkHqkwkDikPqkBFMckCCkkDFykgkBEqkEykCikFokKskNekEokOkkDykguCykQgkDykZmkDikJmkCskQgkYYg" ++
    "kDMckDikFekUokBKDykECqByDNckQgkTikJnkBGvkHBak")

/-- Numerals that are letters (Nl). -/
def letterNumber : CharSet :=
  ofText "IRudDYtBjceFMsbzjodBSYlkBIFgCbRsbibFefMEsEh"

/-- Other numerals (No). -/
def otherNumber : CharSet :=
  ofText (
    "GwcfbcdDMrgOmgEqdFdhIjhrjQrkBPluBRvkSmbCMvbdggkHqqBpbBByCiDawYgBeCBhbBTceFikBeibpBgkBnpBSMi" ++
    "gBHQnBtCnercNdBbBkeBZgizhBnjCxfwgGeccqcBuCmjCacBedCxfEaiyiBphMsgNoBfGckBqeEihFeuOpuBZxcQojB" ++
    "HntBGtvBCPqhBEsxBLYfumuEezIBujBJtChbdbeCyBtbpBLan")

/-- Connectors (Pc). -/
def connectorPunctuation : CharSet :=
  ofText "DrbMBvctbDGAocydJfb"

/-- Dashes (Pd). -/
def dashPunctuation : CharSet :=
  ofText "BtbCAubBzbFKjbBNpbDBdgFHxbcbBfcebBcbRebtbEhbCZWacBlbkbGnbFLobMgb"

/-- Opening brackets (Ps). -/
def openPunctuation : CharSet :=
  ofText (
    "BobBybBfbFPebbbCUobDPmbdbBmbCdbpbYkbbbBebBPubbbbbbbbbbbbbDcbBgbbbbbbbbbPobbbbbbbbbbbbbbbbbb" ++
    "bbbCmbbbBhbBOvbbbbbbbzbsbbbbbbbQmbbbbbbbbbdbbbbbbbcbCZRtbIhbBdbbbbbbbbbbbbbbbdbrbbbbbGobByb" ++
    "Bfbdbcb")

/-- Closing brackets (Pe). -/
def closePunctuation : CharSet :=
  ofText (
    "BpbBzbBfbFPdbbbCUobDRdbCdbpbYkbbbBebBPubbbbbbbbbbbbbDcbBgbbbbbbbbbPobbbbbbbbbbbbbbbbbbbbbCm" ++
    "bbbBhbBOvbbbbbbbBsbbbbbbbQmbbbbbbbbbdbbbbbbbccCZRqbIjbBdbbbbbbbbbbbbbbbdbrbbbbbGobBzbBfbcbc" ++
    "b")

/-- Opening quotes (Pi). -/
def initialPunctuation : CharSet :=
  ofText "GpbLXkbcccbzbFFsbbbebcbpbdb"

/-- Closing quotes (Pf). -/
def finalPunctuation : CharSet :=
  ofText "HfbLWvbdbBcbFFsbbbebcbpbdb"

/-- Other marks of punctuation (Po). -/
def otherPunctuation : CharSet :=
  ofText (
    "BhdbdcbbbbckcdcBbbCqbfbochbBBabibRygBpbCcbcbcbBscucbcnbbdCweDybBroIzdCcpBfbKbckbFkbEqbErbPa" ++
    "bmbOdbDmbkcGmpbbEibCwfecEhgGpbXojBDtbEudCtcGbdbdBlgbeMbcIicEyhbgGeckhBcdEueChfCkcCmilbBGcci" ++
    "iijcecddlbbbkEUcebcEibFncedcbcjbcbbcckfbkcebbbncdQmdCfbHhbBRYgcKjdDvbkbElgOqeDicBodbbBxcBvb" ++
    "DtnqcEueEwcqcJpbBFCuhcbwbucceddbehdgbbcFtdbdcbbbbckcdcBbbBkbccPudZsbBwbPybBCpbHrbBfbKmjBmbE" ++
    "ihCohDleBKqfBseHhhEfcbeEweBwcDbeebnbbdDkgEdbLmcbcEkfkcbbEabJqxEbdBcnCybFadJsbKedFzbDoiDfdbf" ++
    "DpkIhbDrfBqcYvcCwnGtbBRsfEJccWDvcFdbCnfibVgdLjeMpbBDBobLIlfEItbBHec")

/-- Symbols of mathematics (Sm). -/
def mathSymbol : CharSet :=
  ofText (
    "BrbqdCjbbbBtbebBlbBfbBDmbUhdJYhbnbBndndFjbBnfgbCqffcebcbcbhbBfccbbbBfKiBgcDmbBezBogSbbjbCci" ++
    "EhbMyfcBfkqJwFbwCleBgcJyBwvcgDASqbBFsbbdGibqdCjbbbFbbgeFEfcCYEzbzbBfbzbBfbzbBfbzbBfbzbIUec")

/-- Symbols of currencies (Sc). -/
def currencySymbol : CharSet :=
  ofText "BkbEveBWjbEtbTecTechbJlbKdbWjbDQpbDIiBhBZHvbBGMlbEebFybIlcdcMCseCVXebDRkb"

/-- Symbols that modify others (Sk). -/
def modifierSymbol : CharSet :=
  ofText "DqbbbCtbgbebdbUbemofhbbbrEnbocBXibIUmbbdldndndncGHocBSVrxjcDzcBLobocBEKkrBIhbbbGgbDOLjf"

/-- Other symbols (So). -/
def otherSymbol : CharSet :=
  ofText (
    "GkbcbebbbBLpbKgcExcHybkbtcJnbTvbOjbFagbbFcbHzbBpbPbdpbbdcgubbbbbFdibgbcfeHpcBCykBBvbBBubGbB" ++
    "iNpkjjCChcbebckbbcggbbbbbbeblcobbcbbCgcjfcebcbcbhbBfccbbbBfKiieuchcDdbBezBogCuwlDdDawHbbjbC" ++
    "ciEhbJoBsBsCmJwTsBwvcgBncBgbEbIvgNtcBuBabDlmIgBaqebncmbvcgcMycekBgBmjbqBflBeibpBgkBnpMiJToC" ++
    "mBGUiCdBHhekcbbWbdBFJaqExbBtdSqbdbecncMbjCfrcdbndbBvBtCLucWtbESsbDGnierBCNiefbBEUwbFVnJgqQu" ++
    "GaEmCiJmkBncCifdwchBeeCjvCodbHeDjBTxTsCdeByibobcCOubEHwbEzbBBtBseDwmpcpbpbBlxGfCeBdnBsejhco" ++
    "gFyJrfBCaerdndEpeDrgmebpmeCeikgBoiBecmecCkNcmocndkfCehpclgjhFrbDo")

/-- Spaces (Zs). -/
def spaceSeparator : CharSet :=
  ofText "BgbExbIHjbDPnlBkbBvbFXwb"

/-- Separators of lines (Zl). -/
def lineSeparator : CharSet :=
  ofText "MEqb"

/-- Separators of paragraphs (Zp). -/
def paragraphSeparator : CharSet :=
  ofText "MErb"

/-- Control characters (Cc). -/
def control : CharSet :=
  ofText "aBgDrBh"

/-- Marks of format (Cf). -/
def format : CharSet :=
  ofText "GrbCAkgwbHkbBxbOucDcbFTjbDAqfBafBxfbkDGHjbJpdGIzbpbNKkqBZQueHWxiBTKZmbBeDs"

/-- Characters for private use (Co). -/
def privateUse : CharSet :=
  ofText "DGVoJMeCAHXoDSYocDSYo"

/-! ## Put together -/

/-- The letters. -/
def letter : CharSet :=
  unions [uppercaseLetter, lowercaseLetter, titlecaseLetter, modifierLetter, otherLetter]

/-- The letters with a case. -/
def casedLetter : CharSet :=
  unions [uppercaseLetter, lowercaseLetter, titlecaseLetter]

/-- The marks. -/
def mark : CharSet :=
  unions [nonspacingMark, spacingMark, enclosingMark]

/-- The numerals. -/
def number : CharSet :=
  unions [decimalDigit, letterNumber, otherNumber]

/-- The marks of punctuation. -/
def punctuation : CharSet :=
  unions [connectorPunctuation, dashPunctuation, openPunctuation, closePunctuation,
    initialPunctuation, finalPunctuation, otherPunctuation]

/-- The symbols. -/
def symbol : CharSet :=
  unions [mathSymbol, currencySymbol, modifierSymbol, otherSymbol]

/-- The separators. -/
def separator : CharSet :=
  unions [spaceSeparator, lineSeparator, paragraphSeparator]

/-- The code points without a character. Those of surrogates are no characters either. -/
def unassigned : CharSet :=
  compl (unions
    [letter, mark, number, punctuation, symbol, separator, control, format, privateUse,
      range 0xD800 0xDFFF])

/-- What is none of the others. -/
def other : CharSet :=
  unions [control, format, privateUse, unassigned]

/-- The code points with a character. -/
def assigned : CharSet :=
  unassigned.compl

/-- The characters that make up words: letters, marks, decimal digits, connectors, joiners, and the
letters in circles and squares. -/
def word : CharSet :=
  unions
    [letter, mark, decimalDigit, letterNumber, connectorPunctuation,
      ofText "MDocBTwCaGSHyBagBagBa"]

end CallOrigins.Text.CharSet
