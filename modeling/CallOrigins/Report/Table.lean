import CallOrigins.Row

/-!
# Rows as an aligned table

One line for each row, the origins padded to the width of the widest one. A width is a number
of characters.
-/

namespace CallOrigins.Table

/-- The width of the widest of some texts. -/
def widest (texts : List String) : Nat :=
  (texts.map String.length).foldl max 0

/-- A text with spaces after it up to a width. -/
def padded (width : Nat) (s : String) : String :=
  s ++ String.ofList (List.replicate (width - s.length) ' ')

/-- The line of a call. -/
def lineText (line : Option Nat) : String :=
  match line with
  | some n => "L" ++ toString n
  | none => "N/A"

/-- The text of a row. -/
def rowText (width : Nat) (r : Row) : String :=
  padded width r.origin.displayName ++ " <- " ++ r.directCaller.displayName ++ " (" ++
    lineText r.line ++ ") [" ++
    (if r.arguments.isEmpty then "(none)" else r.argumentsText) ++ "]\n"

/-- **The text of rows.** -/
def render (rows : List Row) : String :=
  let width := widest (rows.map (fun r => r.origin.displayName))
  String.join (rows.map (rowText width))

end CallOrigins.Table
