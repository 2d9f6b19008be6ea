import CallOrigins.Regex
import CallOrigins.Text.Utf8

/-!
# Globs

The patterns in files of ignore rules. A glob is matched against a whole path, byte by byte: a
question mark is one byte and a star any number of bytes that are no slash. Two stars that stand
alone between slashes are any number of directories. Braces give alternatives, brackets a class
of bytes, and a backslash takes the meaning of the next character away. A bracket that is not
closed stands for itself.
-/

namespace CallOrigins

open Text

/-- A part of a glob. -/
inductive GlobPart where
  | literal (c : Char)
  /-- One byte but a slash. -/
  | any
  /-- Any number of bytes but slashes. -/
  | anyRun
  /-- Any number of directories at the front. -/
  | dirsFront
  /-- Everything below a directory. -/
  | dirsBack
  /-- Any number of directories, between two slashes. -/
  | dirsBetween
  /-- A class, given by ranges. -/
  | oneOf (negated : Bool) (ranges : List (Char × Char))
  | either (branches : List (List GlobPart))
  deriving Repr

/-- A glob. -/
abbrev Glob := List GlobPart

namespace Glob

/-! ## Reading -/

/-- What can become of brackets. -/
inductive ClassOutcome where
  | closed (ranges : List (Char × Char)) (rest : List Char)
  /-- The text ends before they are closed. -/
  | unclosed
  /-- A range goes backwards. -/
  | fault

/-- Reads a class after its bracket. `inRange` is set after a hyphen that may make a range of
what comes next; `first` until something has been read. The ranges are in reverse order. -/
def readClass (ranges : List (Char × Char)) (first inRange : Bool) : List Char → ClassOutcome
  | [] => .unclosed
  | c :: cs =>
    if c == ']' && !first then
      .closed (if inRange then ('-', '-') :: ranges else ranges).reverse cs
    else if c == '-' && !first && !inRange then readClass ranges false true cs
    else if inRange then
      match ranges with
      | (low, _) :: ranges =>
        if c < low then .fault else readClass ((low, c) :: ranges) false false cs
      | [] => .fault
    else readClass ((c, c) :: ranges) false false cs

/-- Is the class after a bracket negated? Gives also the text of its members. -/
def classFront : List Char → Bool × List Char
  | '!' :: rest => (true, rest)
  | '^' :: rest => (true, rest)
  | rest => (false, rest)

/-- The levels of braces that are open. The parts of a branch and the branches of a level are in
reverse order. -/
structure Level where
  branches : List Glob := []
  parts : Glob := []

/-- What has been read: the innermost level and those around it, and the character before. -/
structure State where
  level : Level := {}
  outer : List Level := []
  before : Option Char := none
  /-- Was there a bracket that is not closed? All further ones stand for themselves. -/
  unclosed : Bool := false

namespace State

/-- Adds a part. -/
def add (s : State) (p : GlobPart) : State :=
  { s with level := { s.level with parts := p :: s.level.parts } }

/-- Opens a level. -/
def push (s : State) : State :=
  { s with level := {}, outer := s.level :: s.outer }

/-- Ends a branch. -/
def nextBranch (s : State) : State :=
  { s with level := { branches := s.level.parts.reverse :: s.level.branches, parts := [] } }

/-- Closes a level. -/
def pop? (s : State) : Option State :=
  match s.outer with
  | [] => none
  | around :: outer =>
    let branches := (s.level.parts.reverse :: s.level.branches).reverse
    some { s with level := { around with parts := .either branches :: around.parts }, outer }

/-- Replaces the last part by one for directories, unless that is one for all of them already. -/
def becomeDirs (s : State) (p : GlobPart) : State :=
  match s.level.parts with
  | .dirsFront :: _ => s
  | .dirsBack :: _ => s
  | _ :: parts => { s with level := { s.level with parts := p :: parts } }
  | [] => s.add p

/-- Adds two stars without a meaning of their own. -/
def addStars (s : State) : State :=
  (s.add .anyRun).add .anyRun

/-- Can two stars that are not the first of their branch stand for directories? They follow a
slash, or inside of braces a brace or comma that has lost its meaning. -/
def mayBeDirs (s : State) : Bool :=
  s.before == some '/' ||
    (!s.outer.isEmpty && (s.before == some ',' || s.before == some '\x7b'))

/-- After two stars: what they mean depends on what stands before and after them. Gives the
rest of the text too. -/
def doubleStar (s : State) (rest : List Char) : State × List Char :=
  if s.level.parts.isEmpty then
    match rest with
    | [] => (s.add .dirsFront, [])
    | c :: cs => if c == '/' then (s.add .dirsFront, cs) else (s.addStars, rest)
  else if !s.mayBeDirs then (s.addStars, rest)
  else
    match rest with
    | [] => (s.becomeDirs .dirsBack, [])
    | c :: cs =>
      if c == '/' then (s.becomeDirs .dirsBetween, cs)
      else if (c == ',' || c == '\x7d') && !s.outer.isEmpty then (s.becomeDirs .dirsBack, rest)
      else (s.addStars, rest)

end State

/-- Reads the parts of a glob. -/
def readParts : Nat → State → List Char → Option State
  | _, s, [] => some s
  | 0, _, _ => none
  | fuel + 1, s, c :: cs =>
    match c, cs with
    | '?', _ => readParts fuel { s.add .any with before := some c } cs
    | '*', '*' :: rest =>
      let (s, rest') := s.doubleStar rest
      let before := if rest'.length < rest.length then '/' else '*'
      readParts fuel { s with before := some before } rest'
    | '*', _ => readParts fuel { s.add .anyRun with before := some c } cs
    | '[', _ =>
      let (negated, members) := classFront cs
      match if s.unclosed then .unclosed else readClass [] true false members with
      | .closed ranges rest =>
        readParts fuel { s.add (.oneOf negated ranges) with before := some ']' } rest
      | .unclosed =>
        readParts fuel { s.add (.literal '[') with before := some c, unclosed := true } cs
      | .fault => none
    | '\x7b', _ => readParts fuel { s.push with before := some c } cs
    | '\x7d', _ => do readParts fuel { (← s.pop?) with before := some c } cs
    | ',', _ =>
      if s.outer.isEmpty then readParts fuel { s.add (.literal ',') with before := some c } cs
      else readParts fuel { s.nextBranch with before := some c } cs
    | '\\', x :: rest => readParts fuel { s.add (.literal x) with before := some x } rest
    | '\\', [] => none
    | _, _ => readParts fuel { s.add (.literal c) with before := some c } cs

/-- **The glob of a text.** -/
def read? (text : List Char) : Option Glob := do
  let s ← readParts text.length {} text
  if s.outer.isEmpty then some s.level.parts.reverse else none

/-! ## Matching -/

/-- The bytes of a character, as code points. -/
def charBytes (c : Char) : List Nat :=
  (Utf8.bytes (String.singleton c)).map UInt8.toNat

/-- A literal character, by its bytes. -/
def literalRegex (c : Char) : Regex :=
  (charBytes c).foldr (fun b r => .seq (.one (.range b b)) r) .empty

/-- A slash. -/
def slash : Regex :=
  .one (.single '/')

/-- Any bytes. -/
def anything : Regex :=
  .times (.one .all) 0 none

/-- Any byte but a slash. -/
def notSlash : CharSet :=
  .compl (.single '/')

/-- A range of characters as a set of bytes: the last byte of the lower end up to the first
byte of the upper one, and the other bytes of both. -/
def rangeSet (r : Char × Char) : CharSet :=
  let low := charBytes r.1
  let high := charBytes r.2
  if r.1 == r.2 then .ofPoints low
  else
    .union (.ofPoints (low.dropLast ++ high.tail))
      (.range (low.getLast?.getD 0) (high.head?.getD 0))

mutual
/-- Is nothing written in a part? So it is where all its branches are empty. -/
def isVoidPart : GlobPart → Bool
  | .either branches => areVoidBranches branches
  | _ => false
/-- Is nothing written in parts? -/
def isVoid : List GlobPart → Bool
  | [] => true
  | p :: ps => isVoidPart p && isVoid ps
/-- Is nothing written in any branch? -/
def areVoidBranches : List (List GlobPart) → Bool
  | [] => true
  | b :: bs => isVoid b && areVoidBranches bs
end

mutual
/-- The expression of a part. -/
def partRegex : GlobPart → Regex
  | .literal c => literalRegex c
  | .any => .one notSlash
  | .anyRun => .times (.one notSlash) 0 none
  | .dirsFront => .alt (.times slash 0 (some 1)) (.seq anything slash)
  | .dirsBack => .seq slash anything
  | .dirsBetween => .alt slash (.seq slash (.seq anything slash))
  | .oneOf negated ranges =>
    let set := CharSet.unions (ranges.map rangeSet)
    .one (if negated then set.compl else set)
  | .either branches =>
    match branchRegexes branches with
    | [] => .empty
    | r :: rs => rs.foldl .alt r
/-- The expression of a sequence of parts. -/
def partsRegex : List GlobPart → Regex
  | [] => .empty
  | p :: ps => .seq (partRegex p) (partsRegex ps)
/-- The expressions of those branches in which something is written. -/
def branchRegexes : List (List GlobPart) → List Regex
  | [] => []
  | b :: bs => if isVoid b then branchRegexes bs else partsRegex b :: branchRegexes bs
end

/-- The expression of a glob: it has to match from the start of a text to its end. A glob of
directories only matches everything. -/
def regex (g : Glob) : Regex :=
  match g with
  | [.dirsFront] => .empty
  | _ => .seq (.anchor .textStart) (.seq (partsRegex g) (.anchor .textEnd))

/-- A text whose characters are the bytes of another one. -/
def byteText (s : String) : String :=
  String.ofList ((Utf8.bytes s).map (fun b => Char.ofNat b.toNat))

/-- The literal characters that parts consist of, if there is nothing else. -/
def literals? : List GlobPart → Option (List Char)
  | [] => some []
  | .literal c :: ps => (literals? ps).map (c :: ·)
  | _ => none

/-- Does a glob that ends with a point match by the whole path? It does where it is a literal
path, or a literal path of several parts at any depth. Others match by the last name and its
extension, and a path that ends with a point has neither. -/
def isWhole (g : Glob) : Bool :=
  match g with
  | .dirsFront :: ps => (literals? ps).any (fun cs => cs.contains '/')
  | ps => (literals? ps).isSome

/-- Does a glob not match a path because the path ends with a point? -/
def isBarred (g : Glob) (path : String) : Bool :=
  match path.toList.getLast?, g.getLast? with
  | some '.', some (.literal '.') => !g.isWhole
  | _, _ => false

/-- **Does a glob match a path?** -/
def fits (g : Glob) (path : String) : Bool :=
  !g.isBarred path && g.regex.matchesIn (byteText path)

end Glob
end CallOrigins
