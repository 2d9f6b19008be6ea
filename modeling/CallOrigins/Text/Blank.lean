/-!
# Blank characters

The characters with the Unicode property White_Space, and the four ways in which this
library treats them: a text is *trimmed* (blanks at both ends dropped), *compacted* (all
blanks dropped), cut into *words* (maximal runs without blanks), or *collapsed* (its words
joined by one space).

Two characters that look blank have not got the property and are kept everywhere:
U+200B and U+FEFF.
-/

namespace CallOrigins.Text

/-- **The property White_Space.** -/
def isBlank (c : Char) : Bool :=
  let n := c.toNat
  (9 ≤ n && n ≤ 13) || n == 0x20 || n == 0x85 || n == 0xA0 || n == 0x1680 ||
    (0x2000 ≤ n && n ≤ 0x200A) || n == 0x2028 || n == 0x2029 || n == 0x202F || n == 0x205F ||
    n == 0x3000

/-! ## Trimming -/

/-- Drops the blanks at the front. -/
def trimFront (cs : List Char) : List Char :=
  cs.dropWhile isBlank

/-- Drops the blanks at the back. -/
def trimBack (cs : List Char) : List Char :=
  (cs.reverse.dropWhile isBlank).reverse

/-- Drops the blanks at both ends. -/
def trimChars (cs : List Char) : List Char :=
  trimBack (trimFront cs)

/-- A text without the blanks at its ends. -/
def trim (s : String) : String :=
  String.ofList (trimChars s.toList)

/-! ## Compacting and collapsing -/

/-- Drops every blank. -/
def compactChars (cs : List Char) : List Char :=
  cs.filter (fun c => !isBlank c)

/-- A text without its blanks. -/
def compact (s : String) : String :=
  String.ofList (compactChars s.toList)

/-- The maximal runs of characters that are not blank, in order. `word` is the run being
read, in reverse. -/
def wordsFrom (word : List Char) : List Char → List (List Char)
  | [] => if word.isEmpty then [] else [word.reverse]
  | c :: cs =>
    if isBlank c then
      if word.isEmpty then wordsFrom [] cs else word.reverse :: wordsFrom [] cs
    else wordsFrom (c :: word) cs

/-- The words of a text. -/
def words (s : String) : List String :=
  (wordsFrom [] s.toList).map String.ofList

/-- The words of a text, joined by one space. -/
def collapse (s : String) : String :=
  " ".intercalate (words s)

end CallOrigins.Text
