import CallOrigins.Text.CharSet.Letter
import CallOrigins.Text.CharSet.Script

/-!
# Properties of characters by name

Sets of characters are asked for by the name of a general category, of a script or of a property
that characters have or have not. In a name the case of letters, blanks, hyphens and low lines do
not count, and it may start with "is".
-/

namespace CallOrigins.Text.CharSet

/-! ## Names -/

/-- The letters of a name that count. -/
def plainName (name : List Char) : List Char :=
  (name.filter (fun c => c.toNat < 128 && c != ' ' && c != '_' && c != '-')).map Char.toLower

/-- **A name in its plain form.** What starts with "is" has lost that; only "isc" keeps it. -/
def propertyName (name : List Char) : String :=
  match name.take 2 |>.map Char.toLower with
  | ['i', 's'] =>
    let rest := String.ofList (plainName (name.drop 2))
    if rest == "c" then "isc" else rest
  | _ => String.ofList (plainName name)

/-! ## Categories -/

/-- **The general category of a plain name.** -/
def category? (name : String) : Option CharSet :=
  match name with
  | "any" => some all
  | "assigned" => some assigned
  | "ascii" => some ascii
  | "l" | "letter" => some letter
  | "lc" | "casedletter" => some casedLetter
  | "lu" | "uppercaseletter" => some uppercaseLetter
  | "ll" | "lowercaseletter" => some lowercaseLetter
  | "lt" | "titlecaseletter" => some titlecaseLetter
  | "lm" | "modifierletter" => some modifierLetter
  | "lo" | "otherletter" => some otherLetter
  | "m" | "mark" | "combiningmark" => some mark
  | "mn" | "nonspacingmark" => some nonspacingMark
  | "mc" | "spacingmark" => some spacingMark
  | "me" | "enclosingmark" => some enclosingMark
  | "n" | "number" => some number
  | "nd" | "decimalnumber" | "digit" => some decimalDigit
  | "nl" | "letternumber" => some letterNumber
  | "no" | "othernumber" => some otherNumber
  | "p" | "punctuation" | "punct" => some punctuation
  | "pc" | "connectorpunctuation" => some connectorPunctuation
  | "pd" | "dashpunctuation" => some dashPunctuation
  | "ps" | "openpunctuation" => some openPunctuation
  | "pe" | "closepunctuation" => some closePunctuation
  | "pi" | "initialpunctuation" => some initialPunctuation
  | "pf" | "finalpunctuation" => some finalPunctuation
  | "po" | "otherpunctuation" => some otherPunctuation
  | "s" | "symbol" => some symbol
  | "sm" | "mathsymbol" => some mathSymbol
  | "sc" | "currencysymbol" => some currencySymbol
  | "sk" | "modifiersymbol" => some modifierSymbol
  | "so" | "othersymbol" => some otherSymbol
  | "z" | "separator" => some separator
  | "zs" | "spaceseparator" => some spaceSeparator
  | "zl" | "lineseparator" => some lineSeparator
  | "zp" | "paragraphseparator" => some paragraphSeparator
  | "c" | "other" => some other
  | "cc" | "control" | "cntrl" => some control
  | "cf" | "format" => some format
  | "co" | "privateuse" => some privateUse
  | "cn" | "unassigned" => some unassigned
  | _ => none

/-- **The script of a plain name.** -/
def script? (name : String) : Option CharSet :=
  (scripts.find? (fun s => s.1.contains name)).map Prod.snd

/-! ## Properties -/

/-- The blanks. -/
def whiteSpace : CharSet :=
  ⟨[0x9, 0xE, 0x20, 0x21, 0x85, 0x86, 0xA0, 0xA1, 0x1680, 0x1681, 0x2000, 0x200B, 0x2028, 0x202A,
    0x202F, 0x2030, 0x205F, 0x2060, 0x3000, 0x3001]⟩

/-- The small letters, with those marks and numerals that look like them. -/
def lowercaseProperty : CharSet :=
  lowercaseLetter.union
    ⟨[0xAA, 0xAB, 0xBA, 0xBB, 0x2B0, 0x2B9, 0x2C0, 0x2C2, 0x2E0, 0x2E5, 0x345, 0x346, 0x37A, 0x37B,
      0x10FC, 0x10FD, 0x1D2C, 0x1D6B, 0x1D78, 0x1D79, 0x1D9B, 0x1DC0, 0x2071, 0x2072, 0x207F,
      0x2080, 0x2090, 0x209D, 0x2170, 0x2180, 0x24D0, 0x24EA, 0x2C7C, 0x2C7E, 0xA69C, 0xA69E,
      0xA770, 0xA771, 0xA7F2, 0xA7F5, 0xA7F8, 0xA7FA, 0xAB5C, 0xAB60, 0xAB69, 0xAB6A, 0x10780,
      0x10781, 0x10783, 0x10786, 0x10787, 0x107B1, 0x107B2, 0x107BB, 0x1E030, 0x1E06E]⟩

/-- The property of a plain name that characters have or have not. -/
def property? (name : String) : Option CharSet :=
  match name with
  | "alphabetic" | "alpha" => some (alphabetic.inter assigned)
  | "uppercase" | "upper" => some (uppercase.inter assigned)
  | "lowercase" | "lower" => some lowercaseProperty
  | "cased" => some (cased.inter assigned)
  | "caseignorable" | "ci" => some (caseIgnorable.inter assigned)
  | "whitespace" | "wspace" | "space" => some whiteSpace
  | "asciihexdigit" | "ahex" =>
    some (unions [range 0x30 0x39, range 0x41 0x46, range 0x61 0x66])
  | _ => none

/-- **The set of a name**: a property, a general category or a script. -/
def named? (name : List Char) : Option CharSet :=
  let plain := propertyName name
  property? plain <|> category? plain <|> script? plain

/-- **The set of a value** of the general category or of the script. -/
def valued? (name value : List Char) : Option CharSet :=
  match propertyName name with
  | "gc" | "generalcategory" => category? (propertyName value)
  | "sc" | "script" => script? (propertyName value)
  | _ => none

end CallOrigins.Text.CharSet
