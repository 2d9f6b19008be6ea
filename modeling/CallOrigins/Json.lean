/-!
# JSON values

Values of the data format JSON, and their text on several lines, indented by two spaces.
-/

namespace CallOrigins

/-- A JSON value. -/
inductive Json where
  | null
  | bool (b : Bool)
  /-- A number, as it is written. -/
  | number (text : String)
  | string (s : String)
  | array (items : List Json)
  /-- The fields in the order in which they are written; a name may occur twice. -/
  | object (fields : List (String × Json))
  deriving Repr

namespace Json

/-- A natural number. -/
def nat (n : Nat) : Json :=
  number (toString n)

/-- Strings. -/
def strings (ss : List String) : Json :=
  array (ss.map string)

/-! ## Text -/

/-- The hexadecimal digit of a number below sixteen. -/
def hexDigit (n : Nat) : Char :=
  (Nat.toDigits 16 n).headD '0'

/-- A character inside of a string: quotes, backslashes and control characters are escaped. -/
def escapeChar (c : Char) : List Char :=
  if c = '"' then ['\\', '"']
  else if c = '\\' then ['\\', '\\']
  else if c = '\x08' then ['\\', 'b']
  else if c = '\x0c' then ['\\', 'f']
  else if c = '\n' then ['\\', 'n']
  else if c = '\r' then ['\\', 'r']
  else if c = '\t' then ['\\', 't']
  else if c.toNat < 0x20 then
    ['\\', 'u', '0', '0', hexDigit (c.toNat / 16), hexDigit (c.toNat % 16)]
  else [c]

/-- A string with its quotes. -/
def quoted (s : String) : String :=
  "\"" ++ String.ofList (s.toList.flatMap escapeChar) ++ "\""

/-- A new line, indented. -/
def newLine (depth : Nat) : String :=
  "\n" ++ String.ofList (List.replicate (2 * depth) ' ')

mutual
/-- The text of a value at a depth. -/
def renderAt (depth : Nat) : Json → String
  | null => "null"
  | bool b => if b then "true" else "false"
  | number text => text
  | string s => quoted s
  | array [] => "[]"
  | array (v :: vs) =>
    "[" ++ newLine (depth + 1) ++ v.renderAt (depth + 1) ++ renderItems (depth + 1) vs ++
      newLine depth ++ "]"
  | object [] => "\x7b\x7d"
  | object ((name, v) :: fields) =>
    "\x7b" ++ newLine (depth + 1) ++ quoted name ++ ": " ++ v.renderAt (depth + 1) ++
      renderFields (depth + 1) fields ++ newLine depth ++ "\x7d"
/-- The text of further items of an array. -/
def renderItems (depth : Nat) : List Json → String
  | [] => ""
  | v :: vs => "," ++ newLine depth ++ v.renderAt depth ++ renderItems depth vs
/-- The text of further fields of an object. -/
def renderFields (depth : Nat) : List (String × Json) → String
  | [] => ""
  | (name, v) :: fields =>
    "," ++ newLine depth ++ quoted name ++ ": " ++ v.renderAt depth ++ renderFields depth fields
end

/-- **The text of a value.** -/
def render (v : Json) : String :=
  v.renderAt 0

end Json
end CallOrigins
