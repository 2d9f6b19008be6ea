import CallOrigins.Regex.Escape

/-!
# Sets in brackets

Sets of characters as they are written between brackets: characters, ranges, escapes, sets with a
name, further brackets, and the operators `&&`, `--` and `~~` between what stands before and after
them. The operators bind alike and group to the left. Where the case of letters does not count, it
does not count for each operand.

With a set goes the depth to which its written form is nested.
-/

namespace CallOrigins.Regex

open Text

/-- A set that has been read, and the depth of its written form. -/
structure NestedSet where
  set : CharSet := .empty
  depth : Nat := 0

/-! ## Sets with a name -/

/-- The sets that have a name between colons. -/
def colonSet? (name : String) : Option CharSet :=
  let small := CharSet.range 0x61 0x7A
  let capital := CharSet.range 0x41 0x5A
  let numeral := CharSet.range 0x30 0x39
  let letter := small.union capital
  let either := letter.union numeral
  match name with
  | "alnum" => some either
  | "alpha" => some letter
  | "ascii" => some .ascii
  | "blank" => some (.union (.single '\t') (.single ' '))
  | "cntrl" => some (.union (.range 0 0x1F) (.range 0x7F 0x7F))
  | "digit" => some numeral
  | "graph" => some (.range 0x21 0x7E)
  | "lower" => some small
  | "print" => some (.range 0x20 0x7E)
  | "punct" => some (.diff (.range 0x21 0x7E) either)
  | "space" => some (.union (.range 0x09 0x0D) (.single ' '))
  | "upper" => some capital
  | "word" => some (either.union (.single '_'))
  | "xdigit" => some (.unions [numeral, .range 0x41 0x46, .range 0x61 0x66])
  | _ => none

/-- A set with a name: the name stands between `[:` and `:]`, perhaps after `^`. The opening
bracket has been read. Where there is none, the brackets are read as others. -/
def colonSetAt? (cs : List Char) : Option (CharSet × Bool × List Char) :=
  match cs with
  | ':' :: rest =>
    let (negated, rest) :=
      match rest with
      | '^' :: rest => (true, rest)
      | rest => (false, rest)
    match cutFirst ':' rest with
    | some (name, ']' :: rest) =>
      (colonSet? (String.ofList name)).map (fun s => (s, negated, rest))
    | _ => none
  | _ => none

/-! ## Operators -/

/-- How two sets are put together. -/
inductive SetOp where
  | inter
  | diff
  | symmDiff
  deriving DecidableEq, Repr

/-- Two sets put together. -/
def SetOp.apply (a b : CharSet) : SetOp → CharSet
  | inter => a.inter b
  | diff => a.diff b
  | symmDiff => a.symmDiff b

/-- The operator at the front. -/
def setOp? : List Char → Option (SetOp × List Char)
  | '&' :: '&' :: rest => some (.inter, rest)
  | '-' :: '-' :: rest => some (.diff, rest)
  | '~' :: '~' :: rest => some (.symmDiff, rest)
  | _ => none

/-- What has been read of a set: what stands before the last operator, with that operator, and
the items after it with their number. -/
structure SetState where
  before : Option (NestedSet × SetOp) := none
  items : NestedSet := {}
  count : Nat := 0

namespace SetState

/-- Adds an item. -/
def add (s : SetState) (item : NestedSet) : SetState :=
  { s with
    items := ⟨s.items.set.union item.set, max s.items.depth item.depth⟩
    count := s.count + 1 }

/-- Adds an item that is not nested. -/
def addSet (s : SetState) (set : CharSet) : SetState :=
  s.add ⟨set, 0⟩

/-- The items after the last operator; more than one of them make a level of their own. -/
def operand (s : SetState) : NestedSet :=
  if s.count ≤ 1 then s.items else { s.items with depth := s.items.depth + 1 }

/-- The set that has been read. -/
def total (f : Flags) (s : SetState) : NestedSet :=
  match s.before with
  | none => s.operand
  | some (a, op) =>
    let b := s.operand
    ⟨op.apply (f.fold a.set) (f.fold b.set), max a.depth b.depth + 1⟩

/-- Adds an operator. -/
def operator (f : Flags) (s : SetState) (op : SetOp) : SetState :=
  { before := some (s.total f, op) }

/-- The set between brackets. -/
def close? (f : Flags) (negated : Bool) (s : SetState) : Option NestedSet :=
  let t := s.total f
  (f.negate? negated (f.fold t.set)).map (fun set => ⟨set, t.depth + 1⟩)

end SetState

/-! ## Items -/

/-- A character as a member of a set. -/
def member? (f : Flags) (c : Char) : Option Char :=
  if !f.unicode && 128 ≤ c.toNat then none else some c

/-- One character or escape at the front. -/
def item? (f : Flags) (cs : List Char) : Option (Escape × List Char) :=
  match cs with
  | [] => none
  | '\\' :: rest =>
    match escape? f rest with
    | some (.anchor _, _) => none
    | e => e
  | c :: rest => some (.char c, rest)

/-- The character behind a hyphen. The first one of a comment is taken for it. -/
def peekBehind (f : Flags) (cs : List Char) : Option Char :=
  if !f.verbose then cs.head?
  else
    match trimFront cs with
    | '#' :: rest => (trimFront rest).head?
    | rest => rest.head?

/-- Does a hyphen make a range? The text behind it is given. -/
def makesRange (f : Flags) (cs : List Char) : Bool :=
  match peekBehind f cs with
  | some c => c != ']' && c != '-'
  | none => true

/-- An item or a range of two characters. -/
def itemOrRange? (f : Flags) (cs : List Char) : Option (CharSet × List Char) := do
  let (low, rest) ← item? f cs
  let alone : Option CharSet :=
    match low with
    | .char c => (member? f c).map CharSet.single
    | .set s => some s
    | .anchor _ => none
  match skip f rest with
  | '-' :: behind =>
    if makesRange f behind then
      match low, ← item? f (skip f behind) with
      | .char low, (.char high, rest) =>
        let low ← member? f low
        let high ← member? f high
        if low.toNat ≤ high.toNat then some (.range low.toNat high.toNat, rest) else none
      | _, _ => none
    else return (← alone, '-' :: behind)
  | rest => return (← alone, rest)

/-! ## Brackets -/

/-- Hyphens at the front of a set are members. -/
def leadingHyphens (f : Flags) (s : SetState) : Nat → List Char → SetState × List Char
  | fuel + 1, '-' :: rest => leadingHyphens f (s.addSet (.single '-')) fuel (skip f rest)
  | _, rest => (s, rest)

/-- What stands at the front of a set: a sign of negation, and then hyphens or a closing bracket
as a member. -/
def setStart (f : Flags) (cs : List Char) : Bool × SetState × List Char :=
  let (negated, cs) :=
    match skip f cs with
    | '^' :: rest => (true, skip f rest)
    | rest => (false, rest)
  let (s, cs) := leadingHyphens f {} cs.length cs
  match s.count, cs with
  | 0, ']' :: rest => (negated, s.addSet (.single ']'), rest)
  | _, rest => (negated, s, rest)

/-- The items of a set up to the closing bracket. -/
def setItems? (f : Flags) (negated : Bool) :
    Nat → SetState → List Char → Option (NestedSet × List Char)
  | 0, _, _ => none
  | fuel + 1, s, cs =>
    match skip f cs with
    | [] => none
    | ']' :: rest => (s.close? f negated).map (fun set => (set, rest))
    | '[' :: rest =>
      match colonSetAt? rest with
      | some (set, negatedName, rest) => do
        let set ← f.negate? negatedName (f.fold set)
        setItems? f negated fuel (s.addSet set) rest
      | none => do
        let (negatedInner, inner, rest) := setStart f rest
        let (set, rest) ← setItems? f negatedInner fuel inner rest
        setItems? f negated fuel (s.add set) rest
    | cs =>
      match setOp? cs with
      | some (op, rest) => setItems? f negated fuel (s.operator f op) rest
      | none => do
        let (set, rest) ← itemOrRange? f cs
        setItems? f negated fuel (s.addSet set) rest

/-- **A set in brackets**; the opening one has been read. Every step of the reading takes a
character at least. -/
def bracketed? (f : Flags) (cs : List Char) : Option (NestedSet × List Char) :=
  let (negated, s, rest) := setStart f cs
  setItems? f negated (cs.length + 1) s rest

end CallOrigins.Regex
