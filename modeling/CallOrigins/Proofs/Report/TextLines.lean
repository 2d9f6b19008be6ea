import CallOrigins.Proofs.Text.Blank
import CallOrigins.Report.Table

/-!
# The lines of a table

The text of rows is made of one piece for each row, ended by a line feed. The pieces are aligned: the
origin is padded to one width, and the arrow follows it (`Table.length_padded_origin`).

Whether they are lines depends on what is in them. The text has as many line feeds as there are rows
just if every piece is in one line (`Text.lineFeeds_ofLines_eq_iff`), and then the pieces are its
lines, in turn (`Text.lines_ofLines`). Of a row whose methods are shown in one line, these are the
rows whose arguments are (`Table.oneLine_line_iff`).
-/

namespace CallOrigins

open Text

/-! ## Texts made of lines -/

namespace Text

/-- The number of line feeds in a text. -/
def lineFeeds (s : String) : Nat :=
  s.toList.count '\n'

/-- What stands between the line feeds of a text, and before and after them. -/
def lines (s : String) : List String :=
  (s.toList.splitOn '\n').map String.ofList

/-- Texts one after the other, each ended by a line feed. -/
def ofLines (texts : List String) : String :=
  String.join (texts.map (· ++ "\n"))

theorem lineFeeds_eq_zero_iff {s : String} : lineFeeds s = 0 ↔ OneLine s := by
  rw [lineFeeds, List.count_eq_zero]
  constructor
  · rintro h c hc rfl
    exact h hc
  · exact fun h hc => h _ hc rfl

@[simp] theorem lineFeeds_append (s t : String) : lineFeeds (s ++ t) = lineFeeds s + lineFeeds t := by
  simp [lineFeeds]

@[simp] theorem ofLines_nil : ofLines [] = "" := rfl

theorem ofLines_cons (s : String) (texts : List String) :
    ofLines (s :: texts) = s ++ "\n" ++ ofLines texts := by
  simp [ofLines, String.join_cons]

/-- Each text brings its own line feeds and one more. -/
theorem lineFeeds_ofLines_cons (s : String) (texts : List String) :
    lineFeeds (ofLines (s :: texts)) = lineFeeds s + 1 + lineFeeds (ofLines texts) := by
  have hone : lineFeeds "\n" = 1 := by decide
  rw [ofLines_cons, lineFeeds_append, lineFeeds_append, hone]

theorem length_le_lineFeeds_ofLines (texts : List String) :
    texts.length ≤ lineFeeds (ofLines texts) := by
  induction texts with
  | nil => exact Nat.zero_le _
  | cons s texts ih =>
    rw [List.length_cons, lineFeeds_ofLines_cons]
    omega

/-- **As many line feeds as texts**, just if each of the texts is in one line. -/
theorem lineFeeds_ofLines_eq_iff {texts : List String} :
    lineFeeds (ofLines texts) = texts.length ↔ ∀ s ∈ texts, OneLine s := by
  induction texts with
  | nil => simp [lineFeeds]
  | cons s texts ih =>
    -- the texts after the first have at least their own line feeds, so it can make up for none
    have hle := length_le_lineFeeds_ofLines texts
    rw [List.forall_mem_cons, ← ih, ← lineFeeds_eq_zero_iff, lineFeeds_ofLines_cons,
      List.length_cons]
    omega

/-- **Texts in one line are the lines of what they make up**, and nothing stands after the last. -/
theorem lines_ofLines {texts : List String} (h : ∀ s ∈ texts, OneLine s) :
    lines (ofLines texts) = texts ++ [""] := by
  induction texts with
  | nil => rfl
  | cons s texts ih =>
    rw [List.forall_mem_cons] at h
    have hfirst : ∀ c ∈ s.toList, (c == '\n') = false := by
      intro c hc
      simpa using h.1 c hc
    have htext : (ofLines (s :: texts)).toList = s.toList ++ '\n' :: (ofLines texts).toList := by
      simp [ofLines_cons]
    rw [lines, htext, List.splitOn,
      List.splitOnP_append_cons_of_forall_mem hfirst '\n' (by simp), List.map_cons,
      String.ofList_toList, List.cons_append, ← ih h.2]
    rfl

end Text

/-! ## Rows -/

namespace Table

/-- What the text of a row says after the arrow. -/
def details (r : Row) : String :=
  r.directCaller.displayName ++ " (" ++ lineText r.line ++ ") [" ++
    (if r.arguments.isEmpty then "(none)" else r.argumentsText) ++ "]"

/-- The text of a row without the line feed at its end. -/
def line (width : Nat) (r : Row) : String :=
  padded width r.origin.displayName ++ " <- " ++ details r

/-- The width of the widest origin. -/
def originWidth (rows : List Row) : Nat :=
  widest (rows.map fun r => r.origin.displayName)

theorem rowText_eq (width : Nat) (r : Row) : rowText width r = line width r ++ "\n" := by
  have hend : "]\n" = "]" ++ "\n" := rfl
  simp only [rowText, line, details, hend, String.append_assoc]

/-- The text of rows is that of their lines. -/
theorem render_eq (rows : List Row) :
    render rows = ofLines (rows.map (line (originWidth rows))) := by
  have hrows : rowText (originWidth rows) = (· ++ "\n") ∘ line (originWidth rows) :=
    funext (rowText_eq _)
  show String.join (rows.map (rowText (originWidth rows))) = _
  rw [ofLines, List.map_map, hrows]

/-- Every row ends with a line feed. -/
theorem length_le_lineFeeds_render (rows : List Row) : rows.length ≤ lineFeeds (render rows) := by
  have hle := length_le_lineFeeds_ofLines (rows.map (line (originWidth rows)))
  rwa [List.length_map, ← render_eq] at hle

/-! ## Columns -/

theorem length_le_widest {texts : List String} {s : String} (h : s ∈ texts) :
    s.length ≤ widest texts := by
  have hmax : ∀ (ns : List Nat) (least : Nat), least ≤ ns.foldl max least ∧
      ∀ n ∈ ns, n ≤ ns.foldl max least := by
    intro ns
    induction ns with
    | nil => simp
    | cons m ns ih =>
      intro least
      obtain ⟨hleast, hns⟩ := ih (max least m)
      rw [List.foldl_cons, List.forall_mem_cons]
      exact ⟨by omega, by omega, hns⟩
  exact (hmax _ 0).2 _ (List.mem_map_of_mem h)

theorem length_padded {width : Nat} {s : String} (h : s.length ≤ width) :
    (padded width s).length = width := by
  simp [padded]
  omega

/-- **The arrow stands in one column**, after as many characters as the widest origin has. -/
theorem length_padded_origin {rows : List Row} {r : Row} (h : r ∈ rows) :
    (padded (originWidth rows) r.origin.displayName).length = originWidth rows :=
  length_padded (length_le_widest (List.mem_map_of_mem h))

/-! ## Rows in one line -/

theorem oneLine_padded_iff {width : Nat} {s : String} : OneLine (padded width s) ↔ OneLine s := by
  have hspaces : OneLine (String.ofList (List.replicate (width - s.length) ' ')) := by
    refine only_ofList.2 fun c hc => ?_
    rw [List.eq_of_mem_replicate hc]
    decide
  simp only [padded, only_append, hspaces, and_true]

theorem oneLine_lineText (line : Option Nat) : OneLine (lineText line) := by
  cases line with
  | none => decide
  | some n => exact only_append.2 ⟨by decide, (solid_toString n).oneLine⟩

/-- **A row is in one line just if its arguments are**, given that its methods are. -/
theorem oneLine_line_iff {width : Nat} {r : Row} (horigin : OneLine r.origin.displayName)
    (hcaller : OneLine r.directCaller.displayName) :
    OneLine (line width r) ↔ ∀ a ∈ r.arguments, OneLine a := by
  have hpadded : OneLine (padded width r.origin.displayName) := oneLine_padded_iff.2 horigin
  have hplace := oneLine_lineText r.line
  have harguments : OneLine (if r.arguments.isEmpty then "(none)" else r.argumentsText) ↔
      ∀ a ∈ r.arguments, OneLine a := by
    by_cases hnone : r.arguments = []
    · have hshown : OneLine "(none)" := by decide
      simpa [hnone] using hshown
    · rw [if_neg (by simpa using hnone)]
      exact only_intercalate_iff (by decide)
  rw [← harguments]
  simp only [line, details, only_append]
  constructor
  · rintro ⟨-, ⟨-, h⟩, -⟩
    exact h
  · intro h
    exact ⟨⟨hpadded, by decide⟩, ⟨⟨⟨⟨hcaller, by decide⟩, hplace⟩, by decide⟩, h⟩, by decide⟩

end Table
end CallOrigins
