import CallOrigins.Json
import CallOrigins.Number.Shortest
import CallOrigins.Search

/-!
# A report as a JSON document

The fields of every object are in the order of their names. The time of the search is given in
milliseconds, computed with binary numbers of 53 digits.
-/

namespace CallOrigins.Document

/-- A row as a value. -/
def ofRow (r : Row) : Json :=
  .object
    [("arguments", .strings r.arguments),
      ("directCaller", .string r.directCaller.text),
      ("line", (r.line.map Json.nat).getD .null),
      ("origin", .string r.origin.displayName),
      ("originalCaller", .string r.origin.text)]

/-- The milliseconds in a number of nanoseconds: the seconds are rounded, and again their
thousandfold. -/
def milliseconds (nanoseconds : Nat) : Binary :=
  let whole := Binary.nearest ⟨nanoseconds / 1000000000, 1⟩
  let rest := Binary.nearest ⟨nanoseconds % 1000000000, 1000000000⟩
  let seconds := Binary.nearest (whole.toFraction.add rest.toFraction)
  Binary.nearest (seconds.toFraction.scale 1000)

/-- **The document of a report.** -/
def ofReport (target : MethodId) (r : Report) (nanoseconds : Nat) : Json :=
  .object
    [("results", .array (r.rows.map ofRow)),
      ("summary",
        .object
          [("directCalls", .nat r.directCalls),
            ("edges", .nat r.edges),
            ("methodsSearched", .nat r.methodsSearched),
            ("rows", .nat r.rows.length),
            ("searchTimeMs", .number (Decimal.shortest (milliseconds nanoseconds)).text)]),
      ("target", .string target.text)]

/-- The text of the document. -/
def render (target : MethodId) (r : Report) (nanoseconds : Nat) : String :=
  (ofReport target r nanoseconds).render ++ "\n"

end CallOrigins.Document
