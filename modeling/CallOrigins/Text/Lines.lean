import CallOrigins.Number.Word

/-!
# Lines

A line ends with a line feed. Lines are counted from one, and an offset into a text is counted
in bytes of its UTF-8 form.
-/

namespace CallOrigins.Text

/-- The offsets, ascending, at which the lines after the first one start. `offset` bytes stand
before the given characters. -/
def laterLineStarts (offset : Nat) : List Char → List Nat
  | [] => []
  | c :: cs =>
    let next := offset + c.utf8Size
    if c = '\n' then next :: laterLineStarts next cs else laterLineStarts next cs

/-- The offsets at which lines start. -/
def lineStarts (s : String) : List Nat :=
  0 :: laterLineStarts 0 s.toList

/-- Where a number is to be found in an ascending list. -/
inductive Place where
  /-- It is the entry behind this many others. -/
  | entry (before : Nat)
  /-- It is no entry, and would have to be put behind this many of them. -/
  | between (before : Nat)
  deriving DecidableEq, Repr

/-- The place of a number in an ascending list, of which `before` entries have been passed. -/
def placeFrom (n before : Nat) : List Nat → Place
  | [] => .between before
  | m :: ms =>
    if m < n then placeFrom n (before + 1) ms
    else if m = n then .entry before
    else .between before

/-- The number of the line of an offset with this place among the line starts. -/
def Place.line : Place → Nat
  | entry before => before + 1
  | between before => before

/-- The number of the line of an offset, in a text of `size` bytes with the given line starts;
`none` past its end. Lines are counted in words of 32 bits. -/
def lineIn (starts : List Nat) (size offset : Nat) : Option Nat :=
  if size < offset then none
  else some ((placeFrom offset 0 starts).line % halfWordCount)

/-- The number of the line of an offset. -/
def lineOf (s : String) (offset : Nat) : Option Nat :=
  lineIn (lineStarts s) s.utf8ByteSize offset

end CallOrigins.Text
