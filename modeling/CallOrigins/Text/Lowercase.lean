import CallOrigins.Text.CharSet.Letter

/-!
# Lower case

The lower case of a text. Every character has a lower case of its own, except that a capital
sigma that ends a word becomes a final sigma: a cased letter stands before it and none after
it, where the characters with the property Case_Ignorable are passed over.
-/

namespace CallOrigins.Text

/-- The runs of characters that are written as numbers. Each run takes four: the distance of its first
character from the last one before, the number of those that follow it, the step between them, and
the image of the first. -/
def runsFrom (before : Nat) : List Nat → List (Nat × Nat × Nat × Nat)
  | gap :: more :: step :: image :: ns =>
    let first := before + gap
    (first, first + more * step, step, image) :: runsFrom (first + more * step) ns
  | _ => []

/-- **Runs of capitals**: the first and the last character of a run, the step between its
members, and the lower case of the first. -/
def lowerRuns : List (Nat × Nat × Nat × Nat) :=
  runsFrom 0 (CharSet.numbersFrom 0 (
    "CnzbDtDywbIqcgbJoBixcJxeccLvdhcMcdwcMtcabJvbccOoeabWxbbcOxcabWybabPccbbXababPgdabSjbabXdbabX" ++
    "fbabPmcabXkbabXncabXtbabXsbabPteabXzbabYccabYfbccQbcabYqbabQicabYtdabQncabYybabQqcbbZabbcQuc" ++
    "abZibabQzeabRdiabRmbabRmcabRpbabRpcabRsbicRsdicSldabTfbbcTfcabPpbabRfbtcTlcabPycicVbiabQVdba" ++
    "bWacabPubabQVedabWgcabOubabYzbabZcbecWlLebcBHxeabBIdjabBMxhabBKeccbBKfcabBLkcbbBLlcqbBKjcibB" ++
    "LbBkabBLvjlcBLxgabBKqdabBNccabBMwbabBNfdcbBIhbpbBQmbBfbBPgBxqcBRdkBacBStcabBVjbgcBUwdBvcBVld" ++
    "BlbCAzEHeBlbRBccabRCpgabRCvBBvDbbCMYabfbHOqDGmabKVahBqbGJodcbGLhMjCwcLJlkabIpcBvcLPpkhbLTgjf" ++
    "bLTwlhbLUmjhbLVcjfbLVsmdcLWjjhbLWyzhbLYejhbLYujhbLZkjbbMAabbbLXobabMAdmdbLXqbabMAtmbbMBgbbbL" ++
    "XunbbMBwbbbLXybabMCbmbbLXwbbbLYababMCpLmabBLheabEdbabIvhabMPyBupbMRguabMSaBFnzbNYmCSvBvbQTcB" ++
    "xabQUzcabXvbabLEjbabYndccQVgcabWvbabYbbabWubabWwcabQVrdabQVujbbWdbBxcQWfjbcRAifabRApBTYkwcCK" ++
    "YzuncCLBlFggcCLHreBecCLIhlbcCLLacabLEfbecCLLffabCLLscabXpdbcCLLxejcCLMdcabXqbabXgbabXlbabXwb" ++
    "abXucabZubabYxbabZtbabCMWxbhcCLNhcabCLMababYsbabLFabbcCLOacabXobhcCLOfcabPvzabCLPuBHAizbDSRh" ++
    "BVaBnbDUNoFhBjbDUUiGbkbDVBrcobDVCdcgbDVCtcbbDVDbCQdBybDXUeGcvbDYAyEGpBfbECIiBGJxBfbFITkCnybF" ++
    "IWxBUIaBhbHDGc").toList)

/-- The code point of the lower case of `n`, looked up in the runs. -/
def lowerCode (n : Nat) : List (Nat × Nat × Nat × Nat) → Nat
  | [] => n
  | (first, last, step, low) :: runs =>
    if first ≤ n ∧ n ≤ last ∧ (n - first) % step = 0 then low + (n - first)
    else lowerCode n runs

/-- The lower case of one character. U+0130 is written as two. -/
def lowerChar (c : Char) : List Char :=
  if c.toNat < 128 then [c.toLower]
  else if c.toNat = 0x130 then ['i', Char.ofNat 0x307]
  else [Char.ofNat (lowerCode c.toNat lowerRuns)]

/-- After the characters that are passed over, is there a cased one? -/
def casedNext (cs : List Char) : Bool :=
  match cs.dropWhile CharSet.caseIgnorable.contains with
  | [] => false
  | c :: _ => CharSet.cased.contains c

/-- The lower case of a text, where `before` holds the characters already read, in reverse. -/
def lowerFrom (before : List Char) : List Char → List Char
  | [] => []
  | c :: cs =>
    let low :=
      if c.toNat = 0x3A3 then
        if casedNext before && !casedNext cs then [Char.ofNat 0x3C2] else [Char.ofNat 0x3C3]
      else lowerChar c
    low ++ lowerFrom (c :: before) cs

/-- The lower case of a text. -/
def lowercase (s : String) : String :=
  String.ofList (lowerFrom [] s.toList)

/-! ## Judging one character -/

/-- Is `c` a capital? -/
def isUppercase (c : Char) : Bool :=
  if c.toNat < 128 then c.isUpper else CharSet.uppercase.contains c

/-- Is `c` a letter or a numeral? -/
def isAlphanumeric (c : Char) : Bool :=
  if c.toNat < 128 then c.isAlphanum
  else CharSet.alphabetic.contains c || CharSet.numeric.contains c

end CallOrigins.Text
