import CallOrigins.Row

/-!
# Rows as comma-separated values

Every field is quoted, a quote inside of a field is written twice, and every record ends with
a line feed. The text starts with a byte order mark.
-/

namespace CallOrigins.Csv

/-- A character inside of a quoted field. -/
def escapeChar (c : Char) : List Char :=
  if c = '"' then ['"', '"'] else [c]

/-- A field in quotes. -/
def quote (field : String) : String :=
  "\"" ++ String.ofList (field.toList.flatMap escapeChar) ++ "\""

/-- A record. -/
def record (fields : List String) : String :=
  ",".intercalate (fields.map quote) ++ "\n"

/-- The names of the fields. -/
def header : List String :=
  ["origin", "direct_caller", "line", "arguments"]

/-- The fields of a row. -/
def fieldsOf (r : Row) : List String :=
  [r.origin.displayName, r.directCaller.displayName, (r.line.map toString).getD "",
    r.argumentsText]

/-- The byte order mark. -/
def byteOrderMark : String :=
  String.ofList [Char.ofNat 0xFEFF]

/-- **The text of rows.** -/
def render (rows : List Row) : String :=
  byteOrderMark ++ record header ++ String.join (rows.map (fun r => record (fieldsOf r)))

end CallOrigins.Csv
