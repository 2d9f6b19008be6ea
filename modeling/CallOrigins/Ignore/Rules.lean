import CallOrigins.Ignore.Glob
import CallOrigins.Text.Blank
import CallOrigins.Text.Cut

/-!
# Ignore rules

A file of ignore rules holds one rule a line. A rule says of the paths that its glob matches
that they are ignored or, with an exclamation mark, that they are kept. Of the rules in a file
the last one that speaks of a path decides. A line that is no glob is passed over.
-/

namespace CallOrigins.Ignore

open Text

/-- What rules say of a path. -/
inductive Verdict where
  | ignored
  | kept
  deriving DecidableEq, Repr

/-- A rule. -/
structure Rule where
  glob : Glob
  verdict : Verdict
  /-- Does it speak of directories only? -/
  dirsOnly : Bool
  deriving Repr

/-! ## Reading -/

/-- The text of a glob that is matched against a whole path. Without a slash in it, and unless
`anchored`, it may match at any depth. What stands below a directory does not include the
directory. -/
def wholePath (anchored : Bool) (text : List Char) : List Char :=
  let deep := "**/".toList
  let spread :=
    if anchored || text.contains '/' || startsWith deep text || text == ['*', '*'] then text
    else deep ++ text
  if endsWith "/**".toList spread then spread ++ "/*".toList else spread

/-- The rule of a line whose marks at the front have been taken off. -/
def ruleOf? (verdict : Verdict) (anchored : Bool) (text : List Char) : Option Rule :=
  match dropBack? ['/'] text with
  | some stem =>
    let stem := (dropBack? ['\\'] stem).getD stem
    (Glob.read? (wholePath anchored stem)).map (fun g => ⟨g, verdict, true⟩)
  | none => (Glob.read? (wholePath anchored text)).map (fun g => ⟨g, verdict, false⟩)

/-- Takes off the slash that ties a rule to the directory of its file. -/
def anchoredRule? (verdict : Verdict) : List Char → Option Rule
  | '/' :: text => ruleOf? verdict true text
  | text => ruleOf? verdict false text

/-- **The rule of a line**, if it is one. -/
def readRule? (line : List Char) : Option Rule :=
  if line.head? == some '#' then none
  else
    match if endsWith "\\ ".toList line then line else trimBack line with
    | [] => none
    | '\\' :: '!' :: text => ruleOf? .ignored false ('!' :: text)
    | '\\' :: '#' :: text => ruleOf? .ignored false ('#' :: text)
    | '!' :: text => anchoredRule? .kept text
    | text => anchoredRule? .ignored text

/-- The lines of bytes. -/
def byteLines : List UInt8 → List (List UInt8)
  | [] => [[]]
  | b :: bs =>
    if b == 10 then [] :: byteLines bs
    else
      match byteLines bs with
      | [] => [[b]]
      | l :: ls => (b :: l) :: ls

/-- A line without the carriage return at its end. -/
def withoutReturn (line : List Char) : List Char :=
  (dropBack? ['\r'] line).getD line

/-- The texts of lines, up to the first one that is not UTF-8. -/
def readableLines : List (List UInt8) → List (List Char)
  | [] => []
  | l :: ls =>
    match Utf8.text? l with
    | some text => withoutReturn text.toList :: readableLines ls
    | none => []

/-- Drops marks of the byte order at the front of the first line. -/
def dropMark : List (List Char) → List (List Char)
  | [] => []
  | l :: ls => l.dropWhile (fun c => c.toNat == 0xFEFF) :: ls

/-- **The rules in a file.** -/
def readRules (bytes : List UInt8) : List Rule :=
  (dropMark (readableLines (byteLines bytes))).filterMap readRule?

/-! ## Applying -/

/-- Does a rule speak of a path? The path is seen from the directory of the file of rules. -/
def Rule.fits (r : Rule) (path : String) (isDir : Bool) : Bool :=
  (!r.dirsOnly || isDir) && r.glob.fits path

/-- **What rules say of a path.** -/
def verdict? (rules : List Rule) (path : String) (isDir : Bool) : Option Verdict :=
  (rules.reverse.find? (fun r => r.fits path isDir)).map Rule.verdict

end CallOrigins.Ignore
