/-!
# Numbers

How many characters a number takes at the front of a text. Digits may be grouped by single
underscores. A decimal integer other than zero does not start with a zero, and its groups may
also be set off by several underscores, except from its first digit.
-/

namespace CallOrigins.Java.Number

/-- A decimal digit. -/
def isDecimal (c : Char) : Bool := '0' ≤ c && c ≤ '9'

/-- A hexadecimal digit. -/
def isHex (c : Char) : Bool :=
  isDecimal c || ('a' ≤ c && c ≤ 'f') || ('A' ≤ c && c ≤ 'F')

/-- An octal digit. -/
def isOctal (c : Char) : Bool := '0' ≤ c && c ≤ '7'

/-- A binary digit. -/
def isBinary (c : Char) : Bool := c == '0' || c == '1'

/-- The length of the digits and digit groups that follow a digit. -/
def moreDigits (p : Char → Bool) : List Char → Nat
  | [] => 0
  | '_' :: d :: ds => if p d then 2 + moreDigits p ds else 0
  | d :: ds => if p d then 1 + moreDigits p ds else 0

/-- The length of a run of digits, grouped or not; zero where there is none. -/
def digits (p : Char → Bool) : List Char → Nat
  | [] => 0
  | d :: ds => if p d then 1 + moreDigits p ds else 0

/-- The length of the decimal digits at the front and of the groups after them, where `n`
underscores stand in front. -/
def moreGroups (n : Nat) : List Char → Nat
  | [] => 0
  | '_' :: ds => moreGroups (n + 1) ds
  | d :: ds => if isDecimal d then n + 1 + moreGroups 0 ds else 0

/-- The digits of a decimal integer: a zero, or digits that start with another one. -/
def wholeDigits : List Char → Nat
  | [] => 0
  | '0' :: _ => 1
  | d :: ds =>
    if !isDecimal d then 0
    else
      match ds with
      | '_' :: '_' :: _ => 1
      | _ => 1 + moreGroups 0 ds

/-- Is the first character one of `ls`? -/
def startsWithOneOf (ls : List Char) : List Char → Bool
  | [] => false
  | c :: _ => ls.contains c

/-- The length of an optional one-letter ending. -/
def ending (ls : List Char) (cs : List Char) : Nat :=
  if startsWithOneOf ls cs then 1 else 0

/-- The length of an exponent that starts with one of `ls`, its digits read by `ds`; zero where
there is none. -/
def exponent (ls : List Char) (ds : List Char → Nat) : List Char → Nat
  | [] => 0
  | c :: cs =>
    if ls.contains c then
      let sign := ending ['+', '-'] cs
      let n := ds (cs.drop sign)
      if n = 0 then 0 else 1 + sign + n
    else 0

/-- The endings of a whole number. -/
def longEnding (cs : List Char) : Nat := ending ['l', 'L'] cs

/-- The endings of a fractional number. -/
def floatEnding (cs : List Char) : Nat := ending ['f', 'F', 'd', 'D'] cs

/-- The length of a whole number: decimal, octal, hexadecimal or binary. -/
def whole (cs : List Char) : Nat :=
  let sized (lead n : Nat) : Nat :=
    if n = 0 then 0 else lead + n + longEnding (cs.drop (lead + n))
  let marked : Nat :=
    match cs with
    | '0' :: c :: rest =>
      if c = 'x' || c = 'X' then sized 2 (digits isHex rest)
      else if c = 'b' || c = 'B' then sized 2 (digits isBinary rest)
      else if c = 'o' || c = 'O' then sized 2 (digits isOctal rest)
      else sized 1 (digits isOctal (c :: rest))
    | _ => 0
  max (sized 0 (wholeDigits cs)) marked

/-- What may stand after the digits of a decimal fraction: an exponent and an ending. -/
def fractionRest (cs : List Char) : Nat :=
  let e := exponent ['e', 'E'] (digits isDecimal) cs
  e + floatEnding (cs.drop e)

/-- The length of a decimal fraction: digits with a point, or a whole number with an exponent
or an ending. -/
def fraction (cs : List Char) : Nat :=
  let n := digits isDecimal cs
  let pointed : Nat :=
    match cs.drop n with
    | '.' :: rest =>
      let m := digits isDecimal rest
      if n = 0 && m = 0 then 0 else n + 1 + m + fractionRest (rest.drop m)
    | _ => 0
  let w := wholeDigits cs
  let plain : Nat :=
    let r := fractionRest (cs.drop w)
    if w = 0 || r = 0 then 0 else w + r
  max pointed plain

/-- The length of a hexadecimal fraction: digits on one side of a point at least, or without a
point, and an exponent or none. -/
def hexFraction : List Char → Nat
  | '0' :: c :: cs =>
    if c = 'x' || c = 'X' then
      let n := digits isHex cs
      let m : Nat :=
        match cs.drop n with
        | '.' :: more => 1 + digits isHex more
        | _ => 0
      if n = 0 && m ≤ 1 then 0
      else
        let tail := cs.drop (n + m)
        let e := exponent ['p', 'P'] wholeDigits tail
        2 + n + m + if e = 0 then 0 else e + floatEnding (tail.drop e)
    else 0
  | _ => 0

/-- The length of the longest number at the front; zero where there is none. -/
def length (cs : List Char) : Nat :=
  max (whole cs) (max (fraction cs) (hexFraction cs))

end CallOrigins.Java.Number
