import CallOrigins.Java.Terminal
import CallOrigins.Java.Token.Quoted
import CallOrigins.Text.CharSet.Identifier

/-!
# The next token

What the next token is depends on which terminals are expected. Of the expected ones, the one
with the longest text is read: a word is a keyword only where this keyword is expected, and where
type arguments may end, two closing marks are not read as one.
-/

namespace CallOrigins.Java.Scanner

open CallOrigins.Text

/-- May `c` start a word? -/
def startsWord (c : Char) : Bool :=
  if c.toNat < 128 then c.isAlpha || c = '_' || c = '$'
  else CharSet.xidStart.contains c

/-- May `c` stand in a word? -/
def continuesWord (c : Char) : Bool :=
  if c.toNat < 128 then c.isAlphanum || c = '_' || c = '$'
  else CharSet.xidContinue.contains c || c.toNat = 0xA2

/-- The length of the blanks and comments at the front. Each turn takes at least one character,
so `fuel` of the text's length is enough. -/
def gapLength : Nat → List Char → Nat
  | 0, _ => 0
  | fuel + 1, cs =>
    match runLength isGapBlank cs + Comment.length (cs.drop (runLength isGapBlank cs)) with
    | 0 => 0
    | n + 1 => n + 1 + gapLength fuel (cs.drop (n + 1))

/-- The numbers of the keywords. -/
def wordTable : List (String × Nat) :=
  Terminal.words.map fun w => (w, (Terminal.word w).index)

/-- The marks and their numbers. -/
def markTable : List (List Char × Nat) :=
  Terminal.marks.map fun m => (m.toList, (Terminal.mark m).index)

/-- A terminal and the length of its text. -/
structure Match where
  terminal : Nat
  length : Nat
  deriving DecidableEq, Repr

/-- The longest mark that is expected. -/
def mark? (expected : TerminalSet) (cs : List Char) : Option Match :=
  (markTable.find? fun (m, n) => expected.has n && startsWith m cs).map fun (m, n) =>
    ⟨n, m.length⟩

/-- A keyword or a name. -/
def word? (expected : TerminalSet) (cs : List Char) : Option Match :=
  let text := cs.takeWhile continuesWord
  if text.isEmpty then none
  else
    match wordTable.lookup (String.ofList text) with
    | some n =>
      if expected.has n then some ⟨n, text.length⟩
      else if expected.has Terminal.name.index then some ⟨Terminal.name.index, text.length⟩
      else none
    | none =>
      if expected.has Terminal.name.index then some ⟨Terminal.name.index, text.length⟩ else none

/-- A stretch of a string, as one terminal or another. -/
def stretch (last embedding : Terminal) (s : Stretch) : Match :=
  ⟨if s.embeds then embedding.index else last.index, s.length⟩

/-- A string or text block, from its quotes on. -/
def quoted? (fuel : Nat) (cs : List Char) : Option Match :=
  if startsWith ['"', '"', '"'] cs then
    (Stretch.inBlock? fuel 3 (cs.drop 3)).map (stretch .textBlock .blockHead)
  else (Stretch.inString? 1 (cs.drop 1)).map (stretch .string .stringHead)

/-- A string or text block after an embedded expression, from the closing brace on. -/
def resumed? (fuel : Nat) (expected : TerminalSet) (cs : List Char) : Option Match :=
  if expected.has Terminal.stringTail.index then
    (Stretch.inString? 1 (cs.drop 1)).map (stretch .stringTail .stringPart)
  else if expected.has Terminal.blockTail.index then
    (Stretch.inBlock? fuel 1 (cs.drop 1)).map (stretch .blockTail .blockPart)
  else none

/-- **The terminal at the front**, where there is no gap. -/
def match? (fuel : Nat) (expected : TerminalSet) (cs : List Char) : Option Match :=
  match cs with
  | [] => if expected.has Terminal.finish.index then some ⟨Terminal.finish.index, 0⟩ else none
  | c :: rest =>
    if startsWord c then (mark? expected cs).or (word? expected cs)
    else if c = '"' && expected.has Terminal.string.index then quoted? fuel cs
    else if c = '\'' && expected.has Terminal.character.index then
      (characterRest? 0 rest).map fun n => ⟨Terminal.character.index, n + 1⟩
    else if expected.has Terminal.number.index && 0 < Number.length cs then
      some ⟨Terminal.number.index, Number.length cs⟩
    else if c = Char.ofNat 0x7D then (resumed? fuel expected cs).or (mark? expected cs)
    else mark? expected cs

/-- A token with its terminal, and the characters after it. -/
structure Scanned where
  terminal : Nat
  token : Token
  rest : List Char

/-- **The next token** at an offset. A byte order mark at the very front counts as blank. `fuel`
is at least the number of characters. -/
def next? (fuel : Nat) (expected : TerminalSet) (offset : Nat) (cs : List Char) : Option Scanned :=
  let lead : Nat :=
    match cs with
    | c :: _ => if offset = 0 && c.toNat = 0xFEFF then 1 else 0
    | [] => 0
  let n := lead + gapLength fuel (cs.drop lead)
  let front := cs.drop n
  (match? fuel expected front).map fun m =>
    let gap := String.ofList (cs.take n)
    ⟨m.terminal, ⟨gap, String.ofList (front.take m.length), offset + gap.utf8ByteSize, false⟩,
      front.drop m.length⟩

/-- May a terminal also be read as a name? -/
def isWord (terminal : Nat) : Bool :=
  wordTable.any fun (_, n) => n == terminal

end CallOrigins.Java.Scanner
