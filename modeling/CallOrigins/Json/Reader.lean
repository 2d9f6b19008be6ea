import CallOrigins.Json

/-!
# Reading JSON

The reader of JSON texts. It is strict: blanks are the four of the format, nothing may follow the
value, a comma must be followed by an item, and a string holds neither control characters nor a
lone half of a surrogate pair. Which fault a text has is not said.
-/

namespace CallOrigins.Json

/-- A reader gives a value and the rest of the text. -/
abbrev Reader (α : Type) := List Char → Option (α × List Char)

/-- Blanks between the parts of a text. -/
def isSpace (c : Char) : Bool :=
  c == ' ' || c == '\n' || c == '\t' || c == '\r'

/-- Drops blanks. -/
def skipSpace (cs : List Char) : List Char :=
  cs.dropWhile isSpace

/-! ## Strings -/

/-- The value of a hexadecimal digit. -/
def hexValue? (c : Char) : Option Nat :=
  if c.isDigit then some (c.toNat - '0'.toNat)
  else if 'a' ≤ c && c ≤ 'f' then some (c.toNat - 'a'.toNat + 10)
  else if 'A' ≤ c && c ≤ 'F' then some (c.toNat - 'A'.toNat + 10)
  else none

/-- The value of four hexadecimal digits. -/
def hex4? (a b c d : Char) : Option Nat := do
  let a ← hexValue? a
  let b ← hexValue? b
  let c ← hexValue? c
  let d ← hexValue? d
  return ((a * 16 + b) * 16 + c) * 16 + d

/-- The character of an escape by one letter. -/
def escaped? (c : Char) : Option Char :=
  if c == '"' || c == '\\' || c == '/' then some c
  else if c == 'b' then some '\x08'
  else if c == 'f' then some '\x0c'
  else if c == 'n' then some '\n'
  else if c == 'r' then some '\r'
  else if c == 't' then some '\t'
  else none

/-- A piece of a string: a character, or a unit of UTF-16 that was written by its number. -/
inductive Piece where
  | char (c : Char)
  | unit (n : Nat)
  deriving DecidableEq, Repr

/-- The pieces up to the closing quote. -/
def stringPieces : Reader (List Piece)
  | [] => none
  | '"' :: rest => some ([], rest)
  | '\\' :: 'u' :: a :: b :: c :: d :: rest => do
    let n ← hex4? a b c d
    let (ps, rest) ← stringPieces rest
    return (.unit n :: ps, rest)
  | '\\' :: c :: rest => do
    let c ← escaped? c
    let (ps, rest) ← stringPieces rest
    return (.char c :: ps, rest)
  | c :: rest =>
    if c.toNat < 0x20 || c == '\\' then none
    else do
      let (ps, rest) ← stringPieces rest
      return (.char c :: ps, rest)

/-- Is a unit the first half of a pair? -/
def isHighHalf (n : Nat) : Bool :=
  0xD800 ≤ n && n ≤ 0xDBFF

/-- Is a unit the second half of a pair? -/
def isLowHalf (n : Nat) : Bool :=
  0xDC00 ≤ n && n ≤ 0xDFFF

/-- Joins the halves of pairs. -/
def joinPieces : List Piece → Option (List Char)
  | [] => some []
  | .char c :: ps => (joinPieces ps).map (c :: ·)
  | .unit n :: ps =>
    if isHighHalf n then
      match ps with
      | .unit m :: ps =>
        if isLowHalf m then
          (joinPieces ps).map (Char.ofNat (0x10000 + (n - 0xD800) * 0x400 + (m - 0xDC00)) :: ·)
        else none
      | _ => none
    else if isLowHalf n then none
    else (joinPieces ps).map (Char.ofNat n :: ·)

/-- A string, after its opening quote. -/
def readString : Reader String := fun cs => do
  let (ps, rest) ← stringPieces cs
  let text ← joinPieces ps
  return (String.ofList text, rest)

/-! ## Numbers -/

/-- At least one digit. -/
def readDigits : Reader (List Char) := fun cs =>
  let ds := cs.takeWhile Char.isDigit
  if ds.isEmpty then none else some (ds, cs.dropWhile Char.isDigit)

/-- The digits before the point: no digit follows a zero at the front. -/
def readWhole : Reader (List Char)
  | '0' :: rest => if rest.head?.any Char.isDigit then none else some (['0'], rest)
  | cs => readDigits cs

/-- The part after the point, where there is a point. -/
def readFraction : Reader (List Char)
  | '.' :: rest => (readDigits rest).map (fun (ds, rest) => ('.' :: ds, rest))
  | cs => some ([], cs)

/-- The sign of an exponent, where there is one. -/
def readSign : List Char → List Char × List Char
  | '+' :: rest => (['+'], rest)
  | '-' :: rest => (['-'], rest)
  | cs => ([], cs)

/-- The exponent, where there is one. -/
def readExponent : Reader (List Char)
  | cs@(e :: rest) =>
    if e == 'e' || e == 'E' then
      let (sign, rest) := readSign rest
      (readDigits rest).map (fun (ds, rest) => (e :: sign ++ ds, rest))
    else some ([], cs)
  | [] => some ([], [])

/-- A number without its sign. -/
def readUnsigned : Reader (List Char) := fun cs => do
  let (whole, rest) ← readWhole cs
  let (fraction, rest) ← readFraction rest
  let (exponent, rest) ← readExponent rest
  return (whole ++ fraction ++ exponent, rest)

/-- A number. -/
def readNumber : Reader Json
  | '-' :: rest =>
    (readUnsigned rest).map (fun (t, rest) => (number (String.ofList ('-' :: t)), rest))
  | cs => (readUnsigned cs).map (fun (t, rest) => (number (String.ofList t), rest))

/-! ## Values -/

mutual
/-- A value. -/
def readValue : Nat → Reader Json
  | 0, _ => none
  | fuel + 1, cs =>
    match skipSpace cs with
    | 'n' :: 'u' :: 'l' :: 'l' :: rest => some (null, rest)
    | 't' :: 'r' :: 'u' :: 'e' :: rest => some (bool true, rest)
    | 'f' :: 'a' :: 'l' :: 's' :: 'e' :: rest => some (bool false, rest)
    | '"' :: rest => (readString rest).map (fun (s, rest) => (string s, rest))
    | '[' :: rest =>
      match skipSpace rest with
      | ']' :: rest => some (array [], rest)
      | rest => (readItems fuel rest).map (fun (vs, rest) => (array vs, rest))
    | '\x7b' :: rest =>
      match skipSpace rest with
      | '\x7d' :: rest => some (object [], rest)
      | rest => (readFields fuel rest).map (fun (fs, rest) => (object fs, rest))
    | rest => readNumber rest
/-- The items of an array that has some. -/
def readItems : Nat → Reader (List Json)
  | 0, _ => none
  | fuel + 1, cs => do
    let (v, rest) ← readValue fuel cs
    match skipSpace rest with
    | ']' :: rest => some ([v], rest)
    | ',' :: rest => (readItems fuel rest).map (fun (vs, rest) => (v :: vs, rest))
    | _ => none
/-- The fields of an object that has some. -/
def readFields : Nat → Reader (List (String × Json))
  | 0, _ => none
  | fuel + 1, cs =>
    match skipSpace cs with
    | '"' :: rest => do
      let (name, rest) ← readString rest
      match skipSpace rest with
      | ':' :: rest =>
        let (v, rest) ← readValue fuel rest
        match skipSpace rest with
        | '\x7d' :: rest => some ([(name, v)], rest)
        | ',' :: rest => (readFields fuel rest).map (fun (fs, rest) => ((name, v) :: fs, rest))
        | _ => none
      | _ => none
    | _ => none
end

/-- **The value of a JSON text.** Each level of a value takes at least one character, so twice
the length of the text is fuel enough. -/
def read? (s : String) : Option Json :=
  let cs := s.toList
  match readValue (2 * cs.length + 1) cs with
  | some (v, rest) => if (skipSpace rest).isEmpty then some v else none
  | none => none

end CallOrigins.Json
