import CallOrigins.Regex.Brackets
import CallOrigins.Regex.Memory

/-!
# Reading regular expressions

The written form of regular expressions. A text that is none has no meaning; why it is none is
not told apart. Neither has one that is nested too deeply, or that would need too much memory.

The functions take the text that is still to be read and give the rest of it. Groups nest, so
they are driven by a fuel of which every step uses one; the length of the text bounds it.
-/

namespace CallOrigins.Regex

open Text

/-! ## Depth

Of a written expression are levels: a group, a repetition, brackets, a sequence of several parts,
and several alternatives. -/

/-- An expression that has been read, and the depth of its written form. -/
structure Part where
  regex : Regex
  depth : Nat := 0

/-- The greatest depth of an expression. -/
def depthLimit : Nat := 250

/-- What has been read of a sequence. -/
structure Sequence where
  regex : Regex := .empty
  depth : Nat := 0
  /-- The number of its parts. -/
  count : Nat := 0

namespace Sequence

/-- Adds a part. -/
def add (s : Sequence) (p : Part) : Sequence :=
  ⟨.seq s.regex p.regex, max s.depth p.depth, s.count + 1⟩

/-- Counts a part that matches everywhere. -/
def addNothing (s : Sequence) : Sequence :=
  { s with count := s.count + 1 }

/-- The sequence as a part. -/
def part (s : Sequence) : Part :=
  ⟨s.regex, if s.count ≤ 1 then s.depth else s.depth + 1⟩

end Sequence

/-- A part with a level around it. -/
def Part.raise (p : Part) (regex : Regex) : Part :=
  ⟨regex, p.depth + 1⟩

/-- One or several alternatives as a part. -/
def Part.ofAlternatives (first : Part) : List Part → Part
  | [] => first
  | second :: rest =>
    let all := second :: rest
    ⟨.alt first.regex (altAll second.regex (rest.map Part.regex)),
      all.foldl (fun d p => max d p.depth) first.depth + 1⟩
where
  /-- An alternative and those after it. -/
  altAll (r : Regex) : List Regex → Regex
    | [] => r
    | next :: rest => .alt r (altAll next rest)

/-! ## Repetitions -/

/-- The bounds of a counted repetition; the opening brace has been read. -/
def counts? (f : Flags) (cs : List Char) : Option ((Nat × Option Nat) × List Char) :=
  match decimal? f (skip f cs) with
  | (some least, '\x7d' :: rest) => some ((least, some least), rest)
  | (some least, ',' :: rest) =>
    match skip f rest with
    | '\x7d' :: rest => some ((least, none), rest)
    | rest =>
      match decimal? f rest with
      | (some most, '\x7d' :: rest) =>
        if least ≤ most then some ((least, some most), rest) else none
      | _ => none
  | _ => none

/-- What follows an expression: a repetition, nothing, or a fault. -/
inductive Suffix where
  | repeated (least : Nat) (most : Option Nat) (rest : List Char)
  | none
  | fault

/-- Passes over the mark for as few times as possible: it does not matter for whether there is a
match. -/
def dropLazy : List Char → List Char
  | '?' :: rest => rest
  | rest => rest

/-- The repetition at the front. -/
def suffixAt (f : Flags) (cs : List Char) : Suffix :=
  match skip f cs with
  | '*' :: rest => .repeated 0 Option.none (dropLazy rest)
  | '+' :: rest => .repeated 1 Option.none (dropLazy rest)
  | '?' :: rest => .repeated 0 (some 1) (dropLazy rest)
  | '\x7b' :: rest =>
    match counts? f rest with
    | some ((least, most), rest) => .repeated least most (dropLazy (skip f rest))
    | Option.none => .fault
  | _ => .none

/-! ## Groups -/

/-- Sets a flag. A letter that is no flag has no meaning. -/
def Flags.set? (f : Flags) (on : Bool) : Char → Option Flags
  | 'i' => some { f with anyCase := on }
  | 'm' => some { f with multiLine := on }
  | 's' => some { f with dotAll := on }
  | 'x' => some { f with verbose := on }
  | 'u' => some { f with unicode := on }
  | 'R' => some { f with returns := on }
  | 'U' => some f
  | _ => none

/-- Flags up to a colon or a closing parenthesis, which is given back. `seen` are the letters
that have been read; a letter must not be read twice, and some must follow a hyphen. -/
def flags? (f : Flags) (on : Bool) (seen : List Char) :
    List Char → Option (Flags × Char × List Char)
  | [] => none
  | c :: rest =>
    if c = ':' || c = ')' then
      if seen.head? = some '-' then none else some (f, c, rest)
    else if c = '-' then if on then flags? f false ('-' :: seen) rest else none
    else if seen.contains c then none
    else
      match f.set? on c with
      | some f => flags? f on (c :: seen) rest
      | none => none

/-- The name of a group up to the closing angle bracket. -/
def groupName? (cs : List Char) : Option (String × List Char) :=
  let isFirst (c : Char) : Bool := c = '_' || CharSet.alphabetic.contains c
  let isLater (c : Char) : Bool :=
    c = '_' || c = '.' || c = '[' || c = ']' || isAlphanumeric c
  match cutFirst '>' cs with
  | some (c :: name, rest) =>
    if isFirst c && name.all isLater then some (String.ofList (c :: name), rest) else none
  | _ => none

/-- What the front of a group is; the opening parenthesis has been read. -/
inductive GroupStart where
  /-- A group that can be referred to, perhaps by a name. -/
  | numbered (name : Option String) (rest : List Char)
  /-- A group that cannot, with the flags in it. -/
  | plain (f : Flags) (rest : List Char)
  /-- Flags for what follows. -/
  | flags (f : Flags) (rest : List Char)
  | fault

/-- The front of a group. -/
def groupStart (f : Flags) (cs : List Char) : GroupStart :=
  let named (cs : List Char) : GroupStart :=
    match groupName? cs with
    | some (name, rest) => .numbered (some name) rest
    | none => .fault
  match skip f cs with
  | '?' :: '=' :: _ => .fault
  | '?' :: '!' :: _ => .fault
  | '?' :: '<' :: '=' :: _ => .fault
  | '?' :: '<' :: '!' :: _ => .fault
  | '?' :: 'P' :: '<' :: rest => named rest
  | '?' :: '<' :: rest => named rest
  | '?' :: ')' :: _ => .fault
  | '?' :: rest =>
    match flags? f true [] rest with
    | some (f', c, rest) => if c = ':' then .plain f' rest else .flags f' rest
    | none => .fault
  | rest => .numbered none rest

/-! ## Expressions -/

/-- A character that stands for itself. -/
def literal (f : Flags) (c : Char) : Regex :=
  .one (f.fold (.single c))

/-- The point: any character but those that end lines, or all of them. -/
def point? (f : Flags) : Option Regex :=
  if !f.unicode then none
  else if f.dotAll then some (.one .all)
  else if f.returns then some (.one (.compl (.union (.single '\n') (.single '\r'))))
  else some (.one (.compl (.single '\n')))

/-- A character that stands for itself or has a meaning of its own. -/
def plainChar? (f : Flags) (c : Char) : Option Regex :=
  match c with
  | '.' => point? f
  | '^' => some (.anchor (if f.multiLine then .lineStart f.returns else .textStart))
  | '$' => some (.anchor (if f.multiLine then .lineEnd f.returns else .textEnd))
  | '*' | '+' | '?' | '\x7b' => none
  | c => some (literal f c)

/-- An escape as an expression. -/
def Escape.regex (f : Flags) : Escape → Regex
  | .char c => literal f c
  | .set s => .one s
  | .anchor a => .anchor a

/-- One character, escape or set. -/
def atom? (f : Flags) : List Char → Option (Part × List Char)
  | [] => none
  | '\\' :: rest => (escape? f rest).map (fun (e, rest) => (⟨e.regex f, 0⟩, rest))
  | '[' :: rest => (bracketed? f rest).map (fun (s, rest) => (⟨.one s.set, s.depth⟩, rest))
  | c :: rest => (plainChar? f c).map (fun r => (⟨r, 0⟩, rest))

/-- What is in force while a text is read: flags, and the names of groups that are taken. -/
structure Reading where
  flags : Flags := {}
  names : List String := []
  rest : List Char

mutual
/-- Alternatives up to a closing parenthesis or the end. -/
def alternatives? : Nat → Reading → Option (List Part × Reading)
  | 0, _ => none
  | fuel + 1, s =>
    match sequence? fuel {} s with
    | none => none
    | some (a, s) =>
      match s.rest with
      | '|' :: rest =>
        match alternatives? fuel { s with rest } with
        | none => none
        | some (as, s) => some (a :: as, s)
      | _ => some ([a], s)

/-- A sequence up to a bar, a closing parenthesis or the end, after what has been read. -/
def sequence? : Nat → Sequence → Reading → Option (Part × Reading)
  | 0, _, _ => none
  | fuel + 1, done, s =>
    match skip s.flags s.rest with
    | [] => some (done.part, { s with rest := [] })
    | c :: rest =>
      if c = '|' || c = ')' then some (done.part, { s with rest := c :: rest })
      else if c = '(' then
        match groupStart s.flags rest with
        | .fault => none
        | .flags f rest =>
          match suffixAt f rest with
          | .none => sequence? fuel done.addNothing { s with flags := f, rest }
          | _ => none
        | .plain f rest => group? fuel done id s { s with flags := f, rest }
        | .numbered none rest => group? fuel done .group s { s with rest }
        | .numbered (some name) rest =>
          if s.names.contains name then none
          else group? fuel done .group s { s with names := name :: s.names, rest }
      else
        match atom? s.flags (c :: rest) with
        | none => none
        | some (p, rest) => repeated? fuel done p { s with rest }

/-- A group whose front has been read, and what follows it: `outer` is in force after it, and
`inner` inside of it. -/
def group? : Nat → Sequence → (Regex → Regex) → Reading → Reading → Option (Part × Reading)
  | 0, _, _, _, _ => none
  | fuel + 1, done, kind, outer, inner =>
    match alternatives? fuel inner with
    | some (a :: as, ⟨_, names, ')' :: rest⟩) =>
      let p := Part.ofAlternatives a as
      repeated? fuel done (p.raise (kind p.regex)) { outer with names, rest }
    | _ => none

/-- An expression that has been read, with the repetitions after it, and what follows. -/
def repeated? : Nat → Sequence → Part → Reading → Option (Part × Reading)
  | 0, _, _, _ => none
  | fuel + 1, done, p, s =>
    match suffixAt s.flags s.rest with
    | .fault => none
    | .none => sequence? fuel (done.add p) s
    | .repeated least most rest =>
      repeated? fuel done (p.raise (.times p.regex least most)) { s with rest }
end

/-- Why a text is no regular expression. -/
inductive Fault where
  | malformed
  | tooLarge
  deriving DecidableEq, Repr

/-- The wording of a fault. -/
def Fault.message : Fault → String
  | malformed => "regex parse error:"
  | tooLarge =>
    "Compiled regex exceeds size limit of " ++ toString memoryLimit ++ " bytes."

/-- **Reading a regular expression.** -/
def read (s : String) : Except Fault Regex :=
  match alternatives? (4 * s.length + 8) { rest := s.toList } with
  | some (a :: as, ⟨_, _, []⟩) =>
    let p := Part.ofAlternatives a as
    if depthLimit < p.depth then .error .malformed
    else if p.regex.isTooLarge then .error .tooLarge
    else .ok p.regex
  | _ => .error .malformed

end CallOrigins.Regex
