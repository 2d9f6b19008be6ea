import CallOrigins.Java.Token.Number
import CallOrigins.Text.Cut

/-!
# Comments, characters, strings

How many characters each of them takes at the front of a text.

An expression may be embedded in a string or text block, between a backslash with an opening
brace and a closing brace. So a string is read in stretches, each of which ends with the string
or with the start of an embedded expression.

The character U+0000 belongs to none of them: it ends a comment to the end of the line, and
nothing else that would hold it can be read.
-/

namespace CallOrigins.Java

open CallOrigins.Text

/-- The character U+0000. -/
def nul : Char := Char.ofNat 0

/-- Blanks between tokens. -/
def isGapBlank (c : Char) : Bool :=
  c = ' ' || ('\t' ≤ c && c ≤ '\r')

/-- The length of the front part that satisfies `p`. -/
def runLength (p : Char → Bool) (cs : List Char) : Nat :=
  (cs.takeWhile p).length

namespace Comment

/-- The length of a comment's rest up to and with its closing mark. -/
def closingMark? : List Char → Option Nat
  | [] => none
  | '*' :: '/' :: _ => some 2
  | c :: cs => if c = nul then none else (closingMark? cs).map (· + 1)

/-- The length of a comment, to the end of the line or to its closing mark; zero where there is
none. -/
def length (cs : List Char) : Nat :=
  match cs with
  | '/' :: '/' :: more => 2 + runLength (fun c => c != '\n' && c != nul) more
  | '/' :: '*' :: more => ((closingMark? more).map (· + 2)).getD 0
  | _ => 0

end Comment

/-- The length of a character literal after its first apostrophe, `n` characters of which were
read. -/
def characterRest? (n : Nat) : List Char → Option Nat
  | [] => none
  | '\'' :: _ => if n = 0 then none else some (n + 1)
  | '\n' :: _ => none
  | '\\' :: c :: cs => if c = nul then none else characterRest? (n + 2) cs
  | '\\' :: [] => none
  | c :: cs => if c = nul then none else characterRest? (n + 1) cs

/-! ## Strings -/

/-- A stretch of a string: its length, and whether an embedded expression follows. -/
structure Stretch where
  length : Nat
  embeds : Bool
  deriving DecidableEq, Repr

namespace Stretch

/-- The length of an escape after its backslash, from its letter `c` on; `none` where it is not
complete. -/
def escape? (c : Char) (cs : List Char) : Option Nat :=
  let hexes := runLength Number.isHex
  if c = 'u' then
    match cs with
    | o :: more =>
      if o = Char.ofNat 0x7B then
        if 0 < hexes more && (more.drop (hexes more)).head? = some (Char.ofNat 0x7D) then
          some (hexes more + 3)
        else none
      else if 4 ≤ hexes cs then some 5
      else none
    | [] => none
  else if c = 'x' then if 2 ≤ hexes cs then some 3 else none
  else if Number.isOctal c then some (1 + min 2 (runLength Number.isOctal cs))
  else some 1

/-- A stretch of a string, `n` characters of which were read. -/
def inString? (n : Nat) : List Char → Option Stretch
  | [] => none
  | '\\' :: [] => none
  | '\\' :: c :: cs =>
    if c = Char.ofNat 0x7B then some ⟨n + 2, true⟩
    else if c != nul && (escape? c cs).isSome then inString? (n + 2) cs
    else none
  | '"' :: _ => some ⟨n + 1, false⟩
  | c :: cs => if c = nul then none else inString? (n + 1) cs

/-- The length of the text after a quote in a text block, up to the next quote or backslash; a
quote after a backslash does not count. -/
def afterQuote : List Char → Nat
  | [] => 0
  | '"' :: _ => 0
  | '\\' :: '"' :: cs => 2 + afterQuote cs
  | '\\' :: _ => 0
  | c :: cs => if c = nul then 0 else 1 + afterQuote cs

/-- The length of plain text in a text block. After blanks a comment counts too, if it takes
more than the text up to the next quote or backslash. -/
def plainText (cs : List Char) : Nat :=
  let text := runLength (fun c => c != '"' && c != '\\' && c != nul) cs
  let blanks := runLength isGapBlank cs
  let comment := Comment.length (cs.drop blanks)
  if comment = 0 then text else max text (blanks + comment)

/-- A stretch of a text block, `n` characters of which were read. Each turn takes at least one
character, so `fuel` of the text's length is enough. -/
def inBlock? : Nat → Nat → List Char → Option Stretch
  | 0, _, _ => none
  | fuel + 1, n, cs =>
    match cs with
    | [] => none
    | '\\' :: [] => none
    | '\\' :: c :: rest =>
      if c = Char.ofNat 0x7B then some ⟨n + 2, true⟩
      else if c = nul then none
      else
        let length := (escape? c rest).getD 1
        inBlock? fuel (n + 1 + length) ((c :: rest).drop length)
    | '"' :: rest =>
      if startsWith ['"', '"'] rest then some ⟨n + 3, false⟩
      else inBlock? fuel (n + 1 + afterQuote rest) (rest.drop (afterQuote rest))
    | c :: rest =>
      if c = nul then none
      else inBlock? fuel (n + plainText (c :: rest)) ((c :: rest).drop (plainText (c :: rest)))

end Stretch
end CallOrigins.Java
