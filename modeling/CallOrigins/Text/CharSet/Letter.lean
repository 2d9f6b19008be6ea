import CallOrigins.Text.CharSet.Category

/-!
# Letters, numerals and case

The Unicode properties Alphabetic, Uppercase, Cased and Case_Ignorable and the general category
N, by version 17.0: general categories of version 16.0 with what is to be added.
-/

namespace CallOrigins.Text.CharSet

/-- Characters with the property Alphabetic. -/
def alphabetic : CharSet :=
  unions [letter, letterNumber, ofText (
    "BGfbBdnWeobbbcbcbbCulBwnbhqbDxheeccebBjbBeqDylDxcdjbdbeDubhbCimdhguCcccpbcfdkcBddCghcccckbk" ++
    "cBddCgfecccebBecdbldCgibdbcvcwdedCghccccjckcBebChfddbdkbBofCfhbdbdicfbfcBddCghbdbdicfbfcpbm" ++
    "eCghbdbdkbkcBddCxgbbbiscCjbchsbDvbcgbcqbGhtjlbBkEgmbbcexeedbdchdenmbbkeCLocBecBecBecCotHgcB" ++
    "ibEomejIofCfkcuCwcldBxfBwpCidBejccCflBytPwBiCOnCaDKgBgBTQaiBicLqccbbbBcbqbibxfDkcByqbbCfbBm" ++
    "fBcmBteBwmBlbCpombicBtdBybbdccfbBsffbJdiBDZvbDEdfCEvBaGldbcfeBEieCnbMjcydBydJzdCboBtcldBtjj" ++
    "bCjdBkmscCfdBwnocDojcbgbcbGbkxeCghcccckbkcDgjbbcbbebcDznbdEcsJdhchBdcDepbbEclDzoJxnJngbcccd" ++
    "bbbFmhcgebBckBqfbeslBuoHsiHribhDfwboEsgdbbcbdbbdbCofbcbezBsKtejcbbBwhddYYnrFCjzczEtbbCdheDp" ++
    "hJCjiBXpwDtElRRnbNKjhbrchbcbfDwbCIyBfbwicWlbCZwBagBagBaCWWmgIWgmBGFaGJi")]

/-- Characters of the general category N: digits and other numerals. -/
def numeric : CharSet :=
  number.union (ofText "EEGukBFBud")

/-- Characters with the property Uppercase. -/
def uppercase : CharSet :=
  uppercaseLetter.union (ofText "MQqqBGgBaBXPubdbbbCXHjzBXKpBagBagBa")

/-- Characters with the property Cased: upper, lower or title case. -/
def cased : CharSet :=
  casedLetter.union (ofText (
    "GobpbThjhcBefDsbCabFCzbEPzClnbBiBlBAnbnbqnHnBgBFqCaCWocBUGkcIcbDpccbbbBcedcBHiejbBIWsbcdbBq" ++
    "bjBMZdzczBQYeCkGJaBagBagBa"))

/-- Characters that are passed over when case is judged (Case_Ignorable). -/
def caseIgnorable : CharSet :=
  unions
    [nonspacingMark, enclosingMark, format, modifierLetter, modifierSymbol, ofText (
      "BnbgblbEubBBrbSdbFsbHXipcmBYyckbcbBZKzbBGQbbCkbcbGvbgblbFYgbCacESabbdbbYcbBFCicBTBbbcbhcf" ++
      "bjb")]

end CallOrigins.Text.CharSet
