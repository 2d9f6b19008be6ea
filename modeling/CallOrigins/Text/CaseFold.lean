import CallOrigins.Text.Lowercase

/-!
# Ignoring case

Two characters are the same but for their case when they have one *key*. The key of a character
is the lower case of its folding; folding differs from lower case for few characters.
-/

namespace CallOrigins.Text

/-- **Runs of characters whose folding is not their lower case**: the first and the last
character of a run, the step between its members, and the folding of the first. -/
def foldRuns : List (Nat × Nat × Nat × Nat) :=
  runsFrom 0 (CharSet.numbersFrom 0 (
    "GzabBKuHuabElRmabBKrEvabBLboabBKkbabBKqeabBLebabBKyBaabBKsbabBKzeabBKnGBrfbHOiDFvabBPibabBPk" ++
    "babBPubbbBPxbabBPybabBQgbabBRfbabCKZjUlabLNdLfabBKrvabBJcqabBKiCAWbDbbHLgBEAoabDRBq").toList)

/-- The key of a code point. -/
def caseKey (n : Nat) : Nat :=
  lowerCode (lowerCode n foldRuns) lowerRuns

/-- The members of a run, each with its image. -/
def runPairs (run : Nat × Nat × Nat × Nat) : List (Nat × Nat) :=
  let (first, last, step, image) := run
  (List.range ((last - first) / step + 1)).map
    (fun i => (first + i * step, image + i * step))

/-- The code points that differ from their key, each with its key. -/
def caseKeys (_ : Unit) : List (Nat × Nat) :=
  (lowerRuns ++ foldRuns).flatMap (fun run => (runPairs run).map (fun p => (p.1, caseKey p.1)))

/-- **The same set, whatever the case of letters**: with a character it has all those of the
same key. -/
def CharSet.anyCase (s : CharSet) : CharSet :=
  let pairs := caseKeys ()
  let keys := CharSet.ofPoints ((pairs.filter (fun p => s.has p.1 || s.has p.2)).map Prod.snd)
  let others := CharSet.ofPoints ((pairs.filter (fun p => keys.has p.2)).map Prod.fst)
  s.union (keys.union others)

end CallOrigins.Text
