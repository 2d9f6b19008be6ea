import CallOrigins.Regex

/-!
# The memory of regular expressions

To be matched byte by byte, an expression is laid out as a machine of states, once for reading
forwards and once for reading backwards. How large these machines are limits the expressions that
can be used: a repetition is laid out as often as it is counted.

A character beyond ASCII is a sequence of bytes. A set with such characters is cut into sequences
of ranges of bytes. Forwards, states that go on in the same way are shared; backwards, those that
are reached in the same way.
-/

namespace CallOrigins.Regex

open Text

/-- The most bytes that a machine may take. -/
def memoryLimit : Nat := 10485760

/-- The bytes of a state. -/
def stateSize : Nat := 32

/-- The bytes of a step from a state that has several, by a range of bytes. -/
def stepSize : Nat := 8

/-- The bytes of a link from a state that has several. -/
def linkSize : Nat := 4

/-- Which way a machine reads. -/
inductive Direction where
  | forwards
  | backwards
  deriving DecidableEq, Repr

/-! ## Sets of characters -/

/-- A range of bytes. -/
abbrev ByteRange := Nat × Nat

/-- Where a range of code points is cut in two: at the gap in them, where the number of bytes
changes, and where a byte changes before the bytes behind it have gone all the way round. The
first part ends, and the second starts, at the code points that are given. -/
def cut? (low high : Nat) : Option (Nat × Nat) :=
  if low < 0xE000 && 0xD7FF < high then some (0xD7FF, 0xE000)
  else
    match [0x7F, 0x7FF, 0xFFFF].find? (fun top => low ≤ top && top < high) with
    | some top => some (top, top + 1)
    | none =>
      if high ≤ 0x7F then none
      else
        [0x40, 0x1000, 0x40000].findSome? (fun span =>
          if low / span == high / span then none
          else if low % span != 0 then
            some ((low / span) * span + span - 1, (low / span) * span + span)
          else if high % span != span - 1 then
            some ((high / span) * span - 1, (high / span) * span)
          else none)

/-- The bytes of a code point. -/
def codeBytes (n : Nat) : List Nat :=
  if n < 0x80 then [n]
  else if n < 0x800 then [0xC0 + n / 0x40, 0x80 + n % 0x40]
  else if n < 0x10000 then [0xE0 + n / 0x1000, 0x80 + n / 0x40 % 0x40, 0x80 + n % 0x40]
  else
    [0xF0 + n / 0x40000, 0x80 + n / 0x1000 % 0x40, 0x80 + n / 0x40 % 0x40, 0x80 + n % 0x40]

/-- The sequences of ranges of bytes for a range of code points, after at most so many cuts one
inside of the other. -/
def byteSequences : Nat → Nat → Nat → List (List ByteRange)
  | 0, low, high => [(codeBytes low).zip (codeBytes high)]
  | fuel + 1, low, high =>
    if high < low then []
    else
      match cut? low high with
      | some (stop, start) => byteSequences fuel low stop ++ byteSequences fuel start high
      | none => [(codeBytes low).zip (codeBytes high)]

/-- The sequences of a set. -/
def setSequences (s : CharSet) : List (List ByteRange) :=
  s.ranges.flatMap (fun (low, high) => byteSequences 40 low high)

/-- Sequences by their first range, with what follows it. -/
def byFirst : List (List ByteRange) → List (ByteRange × List (List ByteRange))
  | [] => []
  | [] :: rest => byFirst rest
  | (r :: tail) :: rest =>
    match byFirst rest with
    | (r', tails) :: groups =>
      if r == r' then (r, tail :: tails) :: groups else (r, [tail]) :: (r', tails) :: groups
    | [] => [(r, [tail])]

/-- The states of a machine that reads sequences forwards: each of them is what is still to be
read. -/
def openStates : Nat → List (List ByteRange) → List (List (List ByteRange))
  | 0, _ => []
  | fuel + 1, sequences =>
    if sequences.all List.isEmpty then []
    else sequences :: (byFirst sequences).flatMap (fun g => openStates fuel g.2)

/-- The number of states of a machine that reads sequences backwards: those for their fronts. -/
def frontCount : Nat → List (List ByteRange) → Nat
  | 0, _ => 0
  | fuel + 1, sequences =>
    ((byFirst sequences).map (fun g => 1 + frontCount fuel g.2)).foldl (· + ·) 0

/-- The memory of a set. -/
def setMemory (d : Direction) (s : CharSet) : Nat :=
  match s.ranges with
  | [] => stateSize
  | [(low, high)] =>
    if low == high then stateSize * (codeBytes low).length else rangesMemory [(low, high)]
  | ranges => rangesMemory ranges
where
  /-- The memory of a set of several characters. -/
  rangesMemory (ranges : List (Nat × Nat)) : Nat :=
    if ranges.all (fun r => r.2 < 0x80) then 2 * stateSize + stepSize * ranges.length
    else
      let sequences := setSequences s
      match d with
      | .forwards =>
        (openStates 4 sequences).eraseDups.foldl
          (fun n state => n + stateSize + stepSize * (byFirst state).length) stateSize
      | .backwards =>
        (2 + frontCount 4 sequences) * stateSize + linkSize * sequences.length

/-! ## Expressions -/

/-- What the memory of an expression depends on. -/
structure Layout where
  memory : Nat
  /-- Is it laid out as nothing where something stands beside it? -/
  isNothing : Bool := false
  /-- Can it match without a character? -/
  canBeEmpty : Bool := false
  /-- Can it only match without a character? -/
  onlyEmpty : Bool := false
  /-- The set, where it is one character of a set. -/
  set : Option CharSet := none
  /-- The number of alternatives that it has. -/
  branches : Nat := 1
  /-- The memory of its alternatives. -/
  branchMemory : Nat

namespace Layout

/-- A layout that has no alternatives. -/
def plain (memory : Nat) (canBeEmpty onlyEmpty : Bool) : Layout :=
  { memory, canBeEmpty, onlyEmpty, branchMemory := memory }

/-- The layout of nothing. -/
def nothing : Layout :=
  { plain stateSize true true with isNothing := true }

/-- The layout of a set. -/
def ofSet (d : Direction) (s : CharSet) : Layout :=
  { plain (setMemory d s) false false with set := some s }

/-- One after the other. -/
def seq (a b : Layout) : Layout :=
  if a.isNothing then b
  else if b.isNothing then a
  else plain (a.memory + b.memory) (a.canBeEmpty && b.canBeEmpty) (a.onlyEmpty && b.onlyEmpty)

/-- One or the other. Sets are put together. -/
def alt (d : Direction) (a b : Layout) : Layout :=
  match a.set, b.set with
  | some s, some t => ofSet d (s.union t)
  | _, _ =>
    let branches := a.branches + b.branches
    let branchMemory := a.branchMemory + b.branchMemory
    { memory := 2 * stateSize + linkSize * branches + branchMemory
      canBeEmpty := a.canBeEmpty || b.canBeEmpty
      onlyEmpty := a.onlyEmpty && b.onlyEmpty
      branches, branchMemory }

/-- A state with two links. -/
def fork : Nat :=
  stateSize + 2 * linkSize

/-- Repeated, with the counts as they are. -/
def repeated (a : Layout) (least : Nat) : Option Nat → Nat
  | none =>
    match least with
    | 0 => if a.canBeEmpty then a.memory + 2 * fork + stateSize else a.memory + fork
    | least => least * a.memory + fork
  | some most =>
    if most == least then least * a.memory
    else if least == 0 && most == 1 then fork + a.memory + stateSize
    else
      let front := if least == 0 then stateSize else least * a.memory
      front + stateSize + (most - least) * (fork + a.memory)

/-- Repeated. What can only match without a character need not be repeated. -/
def times (a : Layout) (least : Nat) (most : Option Nat) : Layout :=
  let (least, most) :=
    if a.onlyEmpty then (min least 1, some (min (most.getD 1) 1)) else (least, most)
  match least, most with
  | 0, some 0 => nothing
  | 1, some 1 => a
  | least, most =>
    plain (a.repeated least most) (a.canBeEmpty || least == 0) a.onlyEmpty

/-- As a group that can be referred to; only a machine that reads forwards keeps its ends. -/
def group (d : Direction) (a : Layout) : Layout :=
  match d with
  | .forwards => plain (2 * stateSize + a.memory) a.canBeEmpty a.onlyEmpty
  | .backwards => a

end Layout

/-- **The layout of an expression.** -/
def layout (d : Direction) : Regex → Layout
  | empty => .nothing
  | one s => .ofSet d s
  | anchor _ => .plain stateSize true true
  | seq a b => (a.layout d).seq (b.layout d)
  | alt a b => (a.layout d).alt d (b.layout d)
  | times r least most => (r.layout d).times least most
  | group r => (r.layout d).group d

/-- The memory of a machine besides that of its expression: a start anywhere, an end, and
forwards the ends of the match. -/
def frameMemory : Direction → Nat
  | .forwards => Layout.fork + 3 * stateSize + stepSize + 2 * stateSize
  | .backwards => Layout.fork + 3 * stateSize + stepSize

/-- **Does an expression need too much memory?** -/
def isTooLarge (r : Regex) : Bool :=
  [Direction.forwards, .backwards].any
    (fun d => memoryLimit < frameMemory d + (r.layout d).memory)

end CallOrigins.Regex
