import CallOrigins.Report.Csv

/-!
# Reading comma-separated values

A reader that knows nothing of rows: it takes one character at a time and is always in one of four
modes. A field is plain or quoted, a comma ends a field, a line feed ends a record, and a quote
inside of quotes is written twice. So after a quote inside of quotes the reader cannot tell yet
whether the field has ended (`Mode.closing`); the next character decides.

**The law** (`read_render`): the text of rows, without its byte order mark, is read back as the
header and one record of four fields for each row, whatever characters the fields hold. Each piece
of the text takes the reader from one mode to another and adds what was written, and nothing else:
first the characters of a field (`run_escaped`), then a field in its quotes (`run_quote`), then a
record (`run_record`).
-/

namespace CallOrigins.Csv

/-! ## The reader -/

/-- Where a reader stands in a record. -/
inductive Mode where
  /-- Before the first character of a field. -/
  | start
  /-- In a field without quotes. -/
  | plain
  /-- Inside of the quotes of a field. -/
  | quoted
  /-- After a quote inside of quotes: it ends the field, or it is the first of two. -/
  | closing
  deriving DecidableEq, Repr

/-- What has been read. -/
structure Reader where
  mode : Mode := .start
  /-- The characters of the field that the reader is in. -/
  field : List Char := []
  /-- The fields before it in its record. -/
  fields : List String := []
  /-- The records before that one. -/
  records : List (List String) := []
  deriving DecidableEq, Repr

namespace Reader

/-- The reader after one more character of the field, in a mode. -/
def take (r : Reader) (mode : Mode) (c : Char) : Reader :=
  { r with mode, field := r.field ++ [c] }

/-- The reader after the end of a field. -/
def endField (r : Reader) : Reader :=
  { r with mode := .start, field := [], fields := r.fields ++ [String.ofList r.field] }

/-- The reader after the end of a record. -/
def endRecord (r : Reader) : Reader :=
  { records := r.records ++ [r.endField.fields] }

/-- What a character means that may end a field; `none` where it may not stand there. -/
def outside (r : Reader) (other : Option Reader) (c : Char) : Option Reader :=
  if c = ',' then some r.endField else if c = '\n' then some r.endRecord else other

/-- **One character.** A quote may stand only at the front of a field and inside of quotes, and
nothing but the end of the field may follow the quotes. -/
def step (r : Reader) (c : Char) : Option Reader :=
  match r.mode with
  | .start => if c = '"' then some { r with mode := .quoted } else r.outside (r.take .plain c) c
  | .plain => r.outside (if c = '"' then none else r.take .plain c) c
  | .quoted => if c = '"' then some { r with mode := .closing } else r.take .quoted c
  | .closing => if c = '"' then some (r.take .quoted '"') else r.outside none c

/-- All characters of a text, one after the other. -/
def run (r : Reader) (cs : List Char) : Option Reader :=
  cs.foldlM step r

/-- The records at the end of a text. The last line feed may be missing, closing quotes may not. -/
def finish (r : Reader) : Option (List (List String)) :=
  match r.mode with
  | .quoted => none
  | .start => some (if r.fields.isEmpty then r.records else r.endRecord.records)
  | _ => some r.endRecord.records

end Reader

/-- **The records of a text**; `none` where quotes do not fit together. -/
def read (text : String) : Option (List (List String)) :=
  (Reader.run {} text.toList).bind Reader.finish

-- plain and quoted fields, a comma, a quote and a line feed in quotes, no line feed at the end
example : read "a,\"b,\"\"\n\"\n,\"\"" = some [["a", "b,\"\n"], ["", ""]] := by decide

/-! ## What is written is read -/

namespace Reader

theorem run_append (r : Reader) (cs ds : List Char) :
    r.run (cs ++ ds) = (r.run cs).bind fun r' => r'.run ds :=
  List.foldlM_append

theorem run_cons (r : Reader) (c : Char) (cs : List Char) :
    r.run (c :: cs) = (r.step c).bind fun r' => r'.run cs :=
  List.foldlM_cons

/-- A character is read back as it was, quotes included. -/
theorem run_escapeChar {r : Reader} (hr : r.mode = .quoted) (c : Char) :
    r.run (escapeChar c) = some (r.take .quoted c) := by
  unfold escapeChar
  by_cases hc : c = '"'
  · subst hc
    have hfirst : r.step '"' = some { r with mode := .closing } := by simp [step, hr]
    rw [if_pos rfl, run_cons, hfirst, Option.bind_some, run_cons]
    simp [step, take, run]
  · rw [if_neg hc, run_cons]
    simp [step, hr, hc, run]

/-- **The characters of a field** are read back, and the reader is still inside of the quotes. -/
theorem run_escaped {r : Reader} (hr : r.mode = .quoted) (cs : List Char) :
    r.run (cs.flatMap escapeChar) = some { r with field := r.field ++ cs } := by
  induction cs generalizing r with
  | nil =>
    rw [List.flatMap_nil, List.append_nil]
    rfl
  | cons c cs ih =>
    have htaken : (r.take .quoted c).mode = .quoted := rfl
    rw [List.flatMap_cons, run_append, run_escapeChar hr, Option.bind_some, ih htaken]
    simp [take, hr]

/-- **A field in its quotes** is read back, and its end is the next thing to come. -/
theorem run_quote {r : Reader} (hr : r.mode = .start) (hfield : r.field = []) (field : String) :
    r.run (quote field).toList = some { r with mode := .closing, field := field.toList } := by
  have htext : (quote field).toList = '"' :: (field.toList.flatMap escapeChar ++ ['"']) := by
    simp [quote]
  have hopen : r.step '"' = some { r with mode := .quoted } := by simp [step, hr]
  rw [htext, run_cons, hopen, Option.bind_some, run_append, run_escaped rfl, Option.bind_some,
    run_cons]
  simp [step, hfield, run]

/-- The text of a record, from the field on that comes next. -/
theorem run_fields {r : Reader} (hr : r.mode = .start) (hfield : r.field = []) (field : String)
    (rest : List String) :
    r.run (record (field :: rest)).toList =
      some { records := r.records ++ [r.fields ++ field :: rest] } := by
  induction rest generalizing r field with
  | nil =>
    have htext : (record [field]).toList = (quote field).toList ++ ['\n'] := by
      simp [record]
    rw [htext, run_append, run_quote hr hfield, Option.bind_some, run_cons]
    simp [step, outside, endRecord, endField, run]
  | cons next rest ih =>
    have htext : (record (field :: next :: rest)).toList =
        (quote field).toList ++ ',' :: (record (next :: rest)).toList := by
      simp [record]
    rw [htext, run_append, run_quote hr hfield, Option.bind_some, run_cons]
    have hcomma : step { r with mode := .closing, field := field.toList } ',' =
        some { r with mode := .start, field := [], fields := r.fields ++ [field] } := by
      simp [step, outside, endField]
    rw [hcomma, Option.bind_some, ih rfl rfl]
    simp

/-- **A record** is read back, and the reader is where it was before. -/
theorem run_record (records : List (List String)) {fields : List String} (hne : fields ≠ []) :
    run { records } (record fields).toList = some { records := records ++ [fields] } := by
  cases fields with
  | nil => exact absurd rfl hne
  | cons field rest => exact run_fields rfl rfl field rest

/-- All records, one after the other. -/
theorem run_records (records : List (List String)) {written : List (List String)}
    (hne : ∀ fields ∈ written, fields ≠ []) :
    run { records } (written.flatMap fun fields => (record fields).toList) =
      some { records := records ++ written } := by
  induction written generalizing records with
  | nil =>
    rw [List.flatMap_nil, List.append_nil]
    rfl
  | cons fields written ih =>
    simp only [List.forall_mem_cons] at hne
    rw [List.flatMap_cons, run_append, run_record records hne.1, Option.bind_some, ih _ hne.2,
      List.append_assoc]
    rfl

end Reader

/-- **The text of rows is read back**: after the byte order mark come the header and one record for
each row, in order, with the short forms of the origin and of the direct caller, the number of the
line or nothing, and the arguments with a comma and a blank between them. -/
theorem read_render (rows : List Row) :
    ∃ text, render rows = byteOrderMark ++ text ∧
      read text = some (["origin", "direct_caller", "line", "arguments"] ::
        rows.map fun r =>
          [r.origin.displayName, r.directCaller.displayName, r.line.elim "" toString,
            ", ".intercalate r.arguments]) := by
  refine ⟨record header ++ String.join (rows.map fun r => record (fieldsOf r)), ?_, ?_⟩
  · rw [render, String.append_assoc]
  · have hrecords : (record header ++ String.join (rows.map fun r => record (fieldsOf r))).toList =
        (header :: rows.map fieldsOf).flatMap fun fields => (record fields).toList := by
      simp [List.flatMap_map]
    have hne : ∀ fields ∈ header :: rows.map fieldsOf, fields ≠ [] := by
      intro fields hfields
      rcases List.mem_cons.1 hfields with rfl | hfields
      · decide
      · obtain ⟨r, -, rfl⟩ := List.mem_map.1 hfields
        exact List.cons_ne_nil _ _
    rw [read, hrecords, Reader.run_records [] hne, Option.bind_some, List.nil_append]
    show some (header :: rows.map fieldsOf) = _
    congr 2
    refine List.map_congr_left fun r _ => ?_
    cases hline : r.line with
    | none => simp [fieldsOf, hline, Row.argumentsText]
    | some line => simp [fieldsOf, hline, Row.argumentsText]

end CallOrigins.Csv
