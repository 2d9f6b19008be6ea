import CallOrigins.Regex
import CallOrigins.Text.Blank
import CallOrigins.Text.CaseFold
import CallOrigins.Text.CharSet.Named
import CallOrigins.Text.Cut

/-!
# Flags and escapes

What the flags of an expression change, and what a backslash means. A text without a meaning
gives `none`.

Without the flag for all characters, an expression speaks of texts as bytes. Only the bytes of
ASCII are characters then, and a set with others has no meaning.
-/

namespace CallOrigins.Regex

open Text

/-! ## Flags -/

/-- What the flags in force are. -/
structure Flags where
  anyCase : Bool := false
  multiLine : Bool := false
  dotAll : Bool := false
  /-- Blanks and comments between the parts are passed over. -/
  verbose : Bool := false
  /-- Characters beyond ASCII count. -/
  unicode : Bool := true
  /-- A carriage return ends a line too. -/
  returns : Bool := false
  deriving DecidableEq, Repr

namespace Flags

/-- A set as it counts under flags. -/
def fold (f : Flags) (s : CharSet) : CharSet :=
  if !f.anyCase then s
  else if f.unicode then s.anyCase
  else s.union ((s.inter .ascii).anyCase.inter .ascii)

/-- A set, negated if need be; without characters beyond ASCII it must not have other bytes. -/
def negate? (f : Flags) (negated : Bool) (s : CharSet) : Option CharSet :=
  if f.unicode then some (if negated then s.compl else s)
  else
    let s := if negated then s.compl.inter (.range 0 0xFF) else s
    if s.within .ascii then some s else none

/-- The characters of words. -/
def letters (f : Flags) : CharSet :=
  if f.unicode then .word
  else .unions [.range 0x30 0x39, .range 0x41 0x5A, .range 0x5F 0x5F, .range 0x61 0x7A]

/-- The digits. -/
def digits (f : Flags) : CharSet :=
  if f.unicode then .decimalDigit else .range 0x30 0x39

/-- The blanks. -/
def blanks (f : Flags) : CharSet :=
  if f.unicode then .whiteSpace else .union (.range 0x9 0xD) (.range 0x20 0x20)

end Flags

/-- Passes over blanks and comments, where this is called for. -/
def skip (f : Flags) (cs : List Char) : List Char :=
  if f.verbose then skipFrom false cs else cs
where
  /-- The same; `comment` is set inside of a comment. -/
  skipFrom (comment : Bool) : List Char → List Char
    | [] => []
    | c :: cs =>
      if comment then skipFrom (c != '\n') cs
      else if isBlank c then skipFrom false cs
      else if c = '#' then skipFrom true cs
      else c :: cs

/-- The characters at the front that satisfy `p`, where what is passed over may stand after each
of them, and the rest. -/
def gather (f : Flags) (p : Char → Bool) : Nat → List Char → List Char × List Char
  | 0, cs => ([], cs)
  | _, [] => ([], [])
  | fuel + 1, c :: cs =>
    if p c then
      let (found, rest) := gather f p fuel (skip f cs)
      (c :: found, rest)
    else ([], c :: cs)

/-- What stands between braces, and the rest; the opening brace has been read. -/
def braced? (f : Flags) (cs : List Char) : Option (List Char × List Char) :=
  match gather f (· != '\x7d') cs.length (skip f cs) with
  | (inner, '\x7d' :: rest) => some (inner, rest)
  | _ => none

/-! ## Numbers -/

/-- The decimal digits at the front, as a number. Blanks may stand around them. -/
def decimal? (f : Flags) (cs : List Char) : Option Nat × List Char :=
  let (digits, rest) := gather f Char.isDigit cs.length (trimFront cs)
  let rest := trimAfter rest.length rest
  let n := digits.foldl (fun n c => 10 * n + (c.toNat - '0'.toNat)) 0
  (if digits.isEmpty || 0x100000000 ≤ n then none else some n, rest)
where
  /-- Passes over blanks, and over what is passed over behind them. -/
  trimAfter : Nat → List Char → List Char
    | 0, cs => cs
    | _, [] => []
    | fuel + 1, c :: cs => if isBlank c then trimAfter fuel (skip f cs) else c :: cs

/-- The value of a hexadecimal digit. -/
def hexValue? (c : Char) : Option Nat :=
  if c.isDigit then some (c.toNat - '0'.toNat)
  else if 'a' ≤ c && c ≤ 'f' then some (c.toNat - 'a'.toNat + 10)
  else if 'A' ≤ c && c ≤ 'F' then some (c.toNat - 'A'.toNat + 10)
  else none

/-- The character with a hexadecimal code. -/
def hexChar? (digits : List Char) : Option Char :=
  match digits.mapM hexValue? with
  | none => none
  | some [] => none
  | some values =>
    let n := values.foldl (fun n v => 16 * n + v) 0
    if n.isValidChar then some (Char.ofNat n) else none

/-- A hexadecimal code of a fixed length, or of any length between braces. Tells also whether it
was of a fixed length. -/
def hexEscape? (f : Flags) (length : Nat) (cs : List Char) : Option (Char × Bool × List Char) :=
  match skip f cs with
  | '\x7b' :: rest =>
    match braced? f rest with
    | some (digits, rest) => (hexChar? digits).map (fun c => (c, false, skip f rest))
    | none => none
  | cs =>
    match gather f (fun c => (hexValue? c).isSome) length cs with
    | (digits, rest) =>
      if digits.length = length then (hexChar? digits).map (fun c => (c, true, rest)) else none

/-! ## Escapes -/

/-- What stands after a backslash. -/
inductive Escape where
  | char (c : Char)
  | set (s : CharSet)
  | anchor (a : Anchor)
  deriving Repr

/-- The sets that have a letter. -/
def letterSet? (f : Flags) : Char → Option (CharSet × Bool)
  | 'd' => some (f.digits, false)
  | 'D' => some (f.digits, true)
  | 'w' => some (f.letters, false)
  | 'W' => some (f.letters, true)
  | 's' => some (f.blanks, false)
  | 'S' => some (f.blanks, true)
  | _ => none

/-- The characters that have a letter. -/
def letterChar? : Char → Option Char
  | 'a' => some '\x07'
  | 'f' => some '\x0c'
  | 't' => some '\t'
  | 'n' => some '\n'
  | 'r' => some '\r'
  | 'v' => some '\x0b'
  | _ => none

/-- The kinds of edges of words that have a name. -/
def namedEdge? (name : String) : Option WordEdge :=
  if name == "start" then some .start
  else if name == "end" then some .stop
  else if name == "start-half" then some .startHalf
  else if name == "end-half" then some .stopHalf
  else none

/-- The edge of a word, with its kind between braces if it is given. Braces that cannot hold a
kind hold a count, which is read later. -/
def wordEdge? (f : Flags) (cs : List Char) : Option (WordEdge × List Char) :=
  let isNameChar (c : Char) : Bool := c.isAlpha || c = '-'
  match cs with
  | '\x7b' :: rest =>
    match gather f isNameChar rest.length (skip f rest) with
    | ([], []) => none
    | ([], _) => some (.edge, cs)
    | (name, '\x7d' :: rest) => (namedEdge? (String.ofList name)).map (fun e => (e, rest))
    | _ => none
  | cs => some (.edge, cs)

/-- What stands before and after the first occurrence of two characters. -/
def cutPair (a b : Char) : List Char → Option (List Char × List Char)
  | x :: y :: rest =>
    if x = a && y = b then some ([], rest)
    else (cutPair a b (y :: rest)).map (fun (before, after) => (x :: before, after))
  | _ => none

/-- The set of a property as it is written between braces: a name, or a name and a value. Tells
also whether it is negated. -/
def propertySet? (text : List Char) : Option (CharSet × Bool) :=
  match cutPair '!' '=' text with
  | some (name, value) => (CharSet.valued? name value).map (fun s => (s, true))
  | none =>
    match cutFirst ':' text <|> cutFirst '=' text with
    | some (name, value) => (CharSet.valued? name value).map (fun s => (s, false))
    | none => (CharSet.named? text).map (fun s => (s, false))

/-- The set of a property; its letter has been read. -/
def property? (f : Flags) (negated : Bool) (cs : List Char) : Option (CharSet × List Char) := do
  let (found, rest) ←
    match skip f cs with
    | [] => none
    | '\x7b' :: rest => do
      let (text, rest) ← braced? f rest
      some (propertySet? text, rest)
    | c :: rest => some ((CharSet.named? [c]).map (fun s => (s, false)), skip f rest)
  let (s, other) ← found
  if f.unicode then
    let s := f.fold s
    some (if negated != other then s.compl else s, rest)
  else none

/-- The character of a hexadecimal code, where it has a meaning. -/
def hexChar (f : Flags) (length : Nat) (cs : List Char) : Option (Escape × List Char) := do
  let (c, fixed, rest) ← hexEscape? f length cs
  if !f.unicode && fixed && length == 2 && 128 ≤ c.toNat then none else some (.char c, rest)

/-- What stands after a backslash, and the rest. -/
def escape? (f : Flags) (cs : List Char) : Option (Escape × List Char) :=
  match cs with
  | [] => none
  | c :: rest =>
    match letterSet? f c, letterChar? c with
    | some (s, negated), _ => (f.negate? negated s).map (fun s => (.set s, rest))
    | none, some x => some (.char x, rest)
    | none, none =>
      if c = 'A' then some (.anchor .textStart, rest)
      else if c = 'z' then some (.anchor .textEnd, rest)
      else if c = 'B' then some (.anchor (.word .noEdge f.letters), rest)
      else if c = 'b' then
        (wordEdge? f rest).map (fun (e, rest) => (.anchor (.word e f.letters), rest))
      else if c = '<' then some (.anchor (.word .start f.letters), rest)
      else if c = '>' then some (.anchor (.word .stop f.letters), rest)
      else if c = 'x' then hexChar f 2 rest
      else if c = 'u' then hexChar f 4 rest
      else if c = 'U' then hexChar f 8 rest
      else if c = 'p' then (property? f false rest).map (fun (s, rest) => (.set s, rest))
      else if c = 'P' then (property? f true rest).map (fun (s, rest) => (.set s, rest))
      else if c.toNat < 128 && !c.isAlphanum then some (.char c, rest)
      else none

end CallOrigins.Regex
