import CallOrigins.Proofs.Java.CallOrder
import CallOrigins.Proofs.Java.Rendering
import CallOrigins.Proofs.Java.SolidNames
import CallOrigins.Proofs.Report.TextLines
import CallOrigins.Proofs.Search.Rows

/-!
# A report as text

The text of a report is aligned, and names nothing but methods of the index, whose identifiers have
no blanks. What it shows of the arguments is in one line, but for literals that are not.

**The law** (`text_lines`): for every index of spelled files, each row is a piece of the text, ended by
a line feed and with its arrow in the column of all others. There are as many line feeds as rows just
if all arguments are in one line, and the rows are then the lines of the text. An argument that is not
in one line shows a literal that is not.

The exception is real (`textBlock_spills`): a text block is a literal that goes over several lines,
and a row that shows one is cut into as many.
-/

namespace CallOrigins

open Text

/-- What is shown where arguments could not be read is in one line. -/
theorem Traversal.oneLine_shownArguments_error (e : ExtractionFailure) :
    ∀ a ∈ shownArguments (.error e), OneLine a := by
  cases e <;> decide

namespace Java.Index

variable {ix : Index} {files : List SourceFile} {target caller : MethodId} {offset length : Nat}

/-! ## Where arguments come from -/

theorem holds_of_callCovering {call : Node}
    (h : ix.callCovering caller target offset length = .ok call) :
    ∃ f ∈ ix.files, call.kind.isCall = true ∧ f.tree.Holds call := by
  unfold callCovering at h
  cases hfile : (ix.method? caller).bind ix.fileOf? with
  | none =>
    rw [hfile] at h
    cases h
  | some f =>
    rw [hfile] at h
    obtain ⟨d, -, hd⟩ := Option.bind_eq_some_iff.1 hfile
    refine ⟨f, Array.mem_of_getElem? hd, ?_⟩
    dsimp only at h
    by_cases hsize : f.source.content.utf8ByteSize < offset + length
    · rw [if_pos hsize] at h
      cases h
    · rw [if_neg hsize] at h
      cases hcall : coveringCall? f.tree offset (offset + length) with
      | none =>
        rw [hcall] at h
        cases h
      | some n =>
        rw [hcall] at h
        dsimp only at h
        by_cases hwritten : writtenFor n target = true
        · rw [if_pos hwritten] at h
          cases h
          exact isCall_and_holds_of_coveringCall? hcall
        · rw [if_neg hwritten] at h
          cases h

/-- The list of arguments is that of a call without errors in the tree of a file. -/
theorem holds_of_argumentList {list : Node}
    (h : ix.argumentList caller target offset length = .ok list) :
    ∃ f ∈ ix.files, ∃ call : Node, f.tree.Holds call ∧ call.kind.isCall = true ∧
      call.hasError = false ∧ call.child? .arguments = some list := by
  unfold argumentList at h
  cases hcall : ix.callCovering caller target offset length with
  | error e =>
    rw [hcall] at h
    cases h
  | ok call =>
    rw [hcall] at h
    obtain ⟨f, hf, hkind, hholds⟩ := holds_of_callCovering hcall
    refine ⟨f, hf, call, hholds, hkind, ?_⟩
    dsimp only at h
    by_cases herror : call.hasError = true
    · rw [if_pos herror] at h
      cases h
    · rw [if_neg herror] at h
      cases hlist : call.child? .arguments with
      | none =>
        rw [hlist] at h
        cases h
      | some arguments =>
        rw [hlist] at h
        cases h
        exact ⟨by simpa using herror, rfl⟩

/-- **An argument that is not in one line shows a literal that is not.** -/
theorem exists_literal_of_shownArguments (spelled : ∀ f ∈ files, f.IsSpelled) {a : String}
    (ha : a ∈ Traversal.shownArguments ((ofFiles files).arguments caller target offset length))
    (hlines : ¬ OneLine a) :
    ∃ list literal, (ofFiles files).argumentList caller target offset length = .ok list ∧
      a ∈ renderArguments list ∧ list.Holds literal ∧ literal.kind.isLiteral = true ∧
      ¬ OneLine literal.text := by
  rw [arguments] at ha
  cases hlist : (ofFiles files).argumentList caller target offset length with
  | error e =>
    rw [hlist] at ha
    exact absurd (Traversal.oneLine_shownArguments_error e a ha) hlines
  | ok list =>
    rw [hlist] at ha
    obtain ⟨f, hf, call, hcall, -, -, harguments⟩ := holds_of_argumentList hlist
    have hholds : f.tree.Holds list := hcall.part (List.mem_of_find?_eq_some harguments)
    rw [files_ofFiles, List.mem_toArray] at hf
    obtain ⟨literal, hliteral, hkind, htext⟩ := exists_literal_of_renderArguments
      (fun m hm => spelled f hf m (hholds.trans hm)) ha hlines
    exact ⟨list, literal, rfl, ha, hliteral, hkind, htext⟩

/-! ## The report on an index -/

/-- The search for a method of an index ends with a report. -/
theorem exists_report (read : ∀ f ∈ files, f.IsRead) (h : target ∈ (ofFiles files).identifiers) :
    ∃ f : Findings, ((ofFiles files).codebase.search .never target).outcome = .finished f.reported ∧
      f.Complete (ofFiles files).codebase target := by
  have present : (ofFiles files).codebase.isPresent target = true := by
    obtain ⟨d, hd, rfl⟩ := List.mem_map.1 h
    show ((ofFiles files).method? d.decl.id).isSome = true
    rw [(wellFormed_ofFiles read).method?_eq (Array.mem_toList_iff.1 hd)]
    rfl
  have harmless := List.findSome?_eq_none_iff.2 fun m
    (_ : m ∈ (ofFiles files).codebase.breadthFirst target) => (ofFiles files).fatal?_codebase m
  obtain ⟨f, hcomplete, heval⟩ := Search.eval_script_of_none present harmless
  refine ⟨f, ?_, hcomplete⟩
  rw [Codebase.search_never_outcome, heval]
  rfl

section Rows

variable {f : Findings} (read : ∀ f ∈ files, f.IsRead) (spelled : ∀ f ∈ files, f.IsSpelled)
  (complete : f.Complete (ofFiles files).codebase target)

include read spelled complete

/-- The methods of a row are shown in one line. -/
theorem oneLine_of_mem_rows {r : Row} (hr : r ∈ f.reported.rows) :
    OneLine r.origin.displayName ∧ OneLine r.directCaller.displayName := by
  have hname : ∀ m ∈ (ofFiles files).identifiers, OneLine m.displayName := by
    intro m hm
    exact (MethodId.solid_displayName (solid_identifiers read spelled hm)).oneLine
  obtain ⟨horigin, hcaller, -⟩ := complete.of_mem_rows hr
  exact ⟨hname _ horigin, hname _ hcaller⟩

/-- A row is in one line just if its arguments are. -/
theorem oneLine_row_iff {width : Nat} {r : Row} (hr : r ∈ f.reported.rows) :
    OneLine (Table.line width r) ↔ ∀ a ∈ r.arguments, OneLine a := by
  obtain ⟨horigin, hcaller⟩ := oneLine_of_mem_rows read spelled complete hr
  exact Table.oneLine_line_iff horigin hcaller

/-- There are as many line feeds as rows just if all arguments are in one line. -/
theorem lineFeeds_render_eq_iff :
    lineFeeds (Table.render f.reported.rows) = f.reported.rows.length ↔
      ∀ r ∈ f.reported.rows, ∀ a ∈ r.arguments, OneLine a := by
  have hcount := @lineFeeds_ofLines_eq_iff
    (f.reported.rows.map (Table.line (Table.originWidth f.reported.rows)))
  rw [List.length_map, List.forall_mem_map, ← Table.render_eq] at hcount
  rw [hcount]
  exact forall₂_congr fun r hr => oneLine_row_iff read spelled complete hr

end Rows

/-- **The text of a report, line by line.** For every index of spelled files and every method of it,
the search ends with a report. Its text is made of one piece for each row, in their order, each ended
by a line feed. In all of them the origin is padded, in one line, to one number of characters, and the
arrow follows. There are as many line feeds as rows just if all arguments are in one line, and the
rows are then the lines of the text. An argument that is not in one line is that of a call in whose
list of arguments there is a literal that is not. -/
theorem text_lines (files : List SourceFile) (read : ∀ f ∈ files, f.IsRead)
    (spelled : ∀ f ∈ files, f.IsSpelled) (target : MethodId)
    (indexed : target ∈ (ofFiles files).identifiers) :
    ∃ (report : Report) (width : Nat),
      ((ofFiles files).codebase.search .never target).outcome = .finished report ∧
      Table.render report.rows = ofLines (report.rows.map fun r =>
        Table.padded width r.origin.displayName ++ " <- " ++ Table.details r) ∧
      (∀ r ∈ report.rows, (Table.padded width r.origin.displayName).length = width ∧
        OneLine (Table.padded width r.origin.displayName)) ∧
      (lineFeeds (Table.render report.rows) = report.rows.length ↔
        ∀ r ∈ report.rows, ∀ a ∈ r.arguments, OneLine a) ∧
      ((∀ r ∈ report.rows, ∀ a ∈ r.arguments, OneLine a) →
        lines (Table.render report.rows) = report.rows.map (fun r =>
          Table.padded width r.origin.displayName ++ " <- " ++ Table.details r) ++ [""]) ∧
      ∀ r ∈ report.rows, ∀ a ∈ r.arguments, ¬ OneLine a →
        ∃ site ∈ (ofFiles files).codebase.callSites target, site.1 = r.directCaller ∧
          ∃ list literal, (ofFiles files).argumentList site.1 target site.2.offset site.2.length =
              .ok list ∧
            a ∈ renderArguments list ∧ list.Holds literal ∧ literal.kind.isLiteral = true ∧
            ¬ OneLine literal.text := by
  obtain ⟨f, houtcome, hcomplete⟩ := exists_report read indexed
  refine ⟨f.reported, Table.originWidth f.reported.rows, houtcome, Table.render_eq _, ?_, ?_, ?_, ?_⟩
  · intro r hr
    obtain ⟨horigin, -⟩ := oneLine_of_mem_rows read spelled hcomplete hr
    exact ⟨Table.length_padded_origin hr, Table.oneLine_padded_iff.2 horigin⟩
  · exact lineFeeds_render_eq_iff read spelled hcomplete
  · intro h
    rw [Table.render_eq]
    apply lines_ofLines
    rw [List.forall_mem_map]
    exact fun r hr => (oneLine_row_iff read spelled hcomplete hr).2 (h r hr)
  · intro r hr a ha hlines
    obtain ⟨-, -, site, hsite, hcaller, harguments⟩ := hcomplete.of_mem_rows hr
    rw [harguments, ← hcaller] at ha
    exact ⟨site, hsite, hcaller, exists_literal_of_shownArguments spelled ha hlines⟩

/-! ## A row over three lines -/

/-- A class with a method that calls another one with a text block. -/
def textBlockTree : Node :=
  .branch none .program [
    .branch none .classDeclaration [
      sign "" "class" 0,
      token (some .name) .identifier " " "A" 6,
      braced .classBody 8 [
        .branch none .methodDeclaration [
          token (some .type) .voidType " " "void" 10,
          token (some .name) .identifier " " "foo" 15,
          .branch (some .parameters) .formalParameters [
            sign "" "(" 18,
            .branch none .formalParameter [
              token (some .type) .typeIdentifier "" "String" 19,
              token (some .name) .identifier " " "s" 26],
            sign "" ")" 27],
          braced .block 29 [] 31],
        .branch none .methodDeclaration [
          token (some .type) .voidType " " "void" 33,
          token (some .name) .identifier " " "f" 38,
          noParameters 39,
          braced .block 42 [
            .branch none .expressionStatement [
              .branch none .methodInvocation [
                token (some .name) .identifier " " "foo" 44,
                .branch (some .arguments) .argumentList [
                  sign "" "(" 47,
                  .branch none .stringLiteral [
                    sign "" "\"\"\"\n  x\n  \"\"\"" 48],
                  sign "" ")" 61]],
              sign "" ";" 62]] 64]] 66]]

def textBlockSource : Source where
  path := "A.java"
  content := "class A \x7b void foo(String s) \x7b \x7d void f() \x7b " ++
    "foo(\"\"\"\n  x\n  \"\"\"); \x7d \x7d"
  external := false

def textBlockFile : SourceFile where
  source := textBlockSource
  lineStarts := [0, 52, 56]
  tree := textBlockTree
  outline := Outline.ofTree (fun offset => (lineIn [0, 52, 56] 67 offset).getD 0) textBlockTree

theorem isRead_textBlockFile : ∀ f ∈ [textBlockFile], f.IsRead :=
  List.forall_mem_singleton.2 ⟨_, rfl⟩

theorem isSpelled_textBlockFile : ∀ f ∈ [textBlockFile], f.IsSpelled := by
  rw [List.forall_mem_singleton]
  show ∀ n, textBlockTree.Holds n → n.IsSpelled
  decide +kernel

/-- The method that is called. -/
def textBlockTarget : IndexedMethod :=
  ⟨⟨⟨"A#foo(String)"⟩, 0, 10, 32, 1, 1, []⟩, 0⟩

/-- The only call. -/
def textBlockCall : Call :=
  ⟨.method, "foo", .implicit, some 1, 44, 18, 1⟩

/-- The method that calls it. -/
def textBlockCaller : IndexedMethod :=
  ⟨⟨⟨"A#f()"⟩, 0, 33, 65, 1, 3, [textBlockCall]⟩, 0⟩

theorem methods_textBlockFile :
    (ofFiles [textBlockFile]).methods = #[textBlockTarget, textBlockCaller] := by
  decide +kernel

theorem textBlockTarget_mem_identifiers :
    ⟨"A#foo(String)"⟩ ∈ (ofFiles [textBlockFile]).identifiers := by
  rw [identifiers, methods_textBlockFile]
  exact .head _

/-- There is no call but the one. -/
theorem eq_of_callAt?_textBlockFile {s : Site} {d : IndexedMethod} {c : Call}
    (h : (ofFiles [textBlockFile]).callAt? s = some (d, c)) :
    d = textBlockCaller ∧ c = textBlockCall := by
  obtain ⟨hd, hc⟩ := callAt?_eq_some.1 h
  have hmethods : ∀ d ∈ #[textBlockTarget, textBlockCaller], ∀ c ∈ d.decl.calls,
      d = textBlockCaller ∧ c = textBlockCall := by
    decide
  exact hmethods d (methods_textBlockFile ▸ Array.mem_of_getElem? hd) c (List.mem_of_getElem? hc)

/-- The call is reported for the method that is called. -/
theorem mem_reported_textBlockFile :
    (⟨1, 0⟩, ⟨"A.java", 44, 18, .exact, some ⟨"A#f()"⟩⟩) ∈
      (ofFiles [textBlockFile]).reported ⟨"A#foo(String)"⟩ := by
  have hnumber : (ofFiles [textBlockFile]).methodNumber? ⟨"A#foo(String)"⟩ = some 0 := by
    decide +kernel
  have hpath : (ofFiles [textBlockFile]).pathOf textBlockCaller = "A.java" := by decide +kernel
  have hbind : (ofFiles [textBlockFile]).bind? 0 textBlockTarget textBlockCaller textBlockCall =
      some .exact := by
    decide +kernel
  have hcall : (ofFiles [textBlockFile]).callAt? ⟨1, 0⟩ = some (textBlockCaller, textBlockCall) :=
    callAt?_eq_some.2 ⟨by rw [methods_textBlockFile]; rfl, rfl⟩
  refine mem_reported.2 ⟨0, textBlockTarget, textBlockCaller, textBlockCall, .exact, hnumber, ?_, ?_,
    hcall, by decide, hbind, ?_⟩
  · rw [methods_textBlockFile]
    rfl
  · exact mem_candidateSites.2 ⟨_, _, hcall, by decide⟩
  · rw [hpath]
    rfl

/-- A row of the report shows the text block as it stands. -/
theorem exists_row_textBlockFile {f : Findings}
    (h : f.Complete (ofFiles [textBlockFile]).codebase ⟨"A#foo(String)"⟩) :
    ∃ r ∈ f.reported.rows, r.arguments = ["\"\"\"\n  x\n  \"\"\""] := by
  obtain ⟨⟨caller, r⟩, hsite, -⟩ := exists_mem_freshBy Codebase.siteKey
    (mem_sites_found.2 ⟨⟨_, mem_reported_textBlockFile⟩, rfl, rfl⟩)
  obtain ⟨⟨s, hs⟩, -, helement⟩ := mem_sites_found.1 ((freshBy_sublist ..).subset hsite)
  obtain ⟨_, _, d, c, _, _, _, _, hcall, _, _, rfl⟩ := mem_reported.1 hs
  obtain ⟨rfl, rfl⟩ := eq_of_callAt?_textBlockFile hcall
  cases helement
  obtain ⟨row, hrow, harguments⟩ := h.exists_row hsite
  have hshown : (ofFiles [textBlockFile]).codebase.arguments textBlockCaller.decl.id
      ⟨"A#foo(String)"⟩ textBlockCall.offset textBlockCall.length =
        .ok ["\"\"\"\n  x\n  \"\"\""] := by
    decide +kernel
  refine ⟨row, hrow, ?_⟩
  rw [harguments, hshown]
  rfl

/-- The text block is found again behind the row that it spills. -/
theorem textBlockFile_lines :
    (∀ f ∈ [textBlockFile], f.IsRead) ∧ (∀ f ∈ [textBlockFile], f.IsSpelled) ∧
    ⟨"A#foo(String)"⟩ ∈ (ofFiles [textBlockFile]).identifiers ∧
    ∃ report, ((ofFiles [textBlockFile]).codebase.search .never ⟨"A#foo(String)"⟩).outcome =
        .finished report ∧
      lineFeeds (Table.render report.rows) ≠ report.rows.length ∧
      ∃ r ∈ report.rows, ∃ a ∈ r.arguments, ∃ list literal : Node, a ∈ renderArguments list ∧
        list.Holds literal ∧ literal.kind.isLiteral = true ∧ ¬ OneLine literal.text := by
  have read := isRead_textBlockFile
  have spelled := isSpelled_textBlockFile
  have indexed := textBlockTarget_mem_identifiers
  obtain ⟨report, width, houtcome, -, -, hcount, -, hliteral⟩ :=
    text_lines [textBlockFile] read spelled ⟨"A#foo(String)"⟩ indexed
  obtain ⟨f, hfinished, hcomplete⟩ := exists_report read indexed
  cases houtcome.symm.trans hfinished
  obtain ⟨r, hr, harguments⟩ := exists_row_textBlockFile hcomplete
  have ha : "\"\"\"\n  x\n  \"\"\"" ∈ r.arguments := harguments ▸ .head _
  have hlines : ¬ OneLine "\"\"\"\n  x\n  \"\"\"" := by decide
  obtain ⟨-, -, -, list, literal, -, h⟩ := hliteral r hr _ ha hlines
  refine ⟨read, spelled, indexed, f.reported, houtcome, fun heq => ?_, r, hr, _, ha, list, literal, h⟩
  exact hlines (hcount.1 heq r hr _ ha)

/-- **A row is cut into several lines.** A call whose argument is a text block is reported with more
line feeds than there are rows. -/
theorem textBlock_spills :
    ∃ files target report, (∀ f ∈ files, SourceFile.IsRead f) ∧
      (∀ f ∈ files, SourceFile.IsSpelled f) ∧ target ∈ (ofFiles files).identifiers ∧
      ((ofFiles files).codebase.search .never target).outcome = .finished report ∧
      report.rows.length < lineFeeds (Table.render report.rows) := by
  have read := isRead_textBlockFile
  have spelled := isSpelled_textBlockFile
  have indexed := textBlockTarget_mem_identifiers
  obtain ⟨f, hfinished, hcomplete⟩ := exists_report read indexed
  refine ⟨[textBlockFile], ⟨"A#foo(String)"⟩, f.reported, read, spelled, indexed, hfinished, ?_⟩
  apply Nat.lt_of_le_of_ne (Table.length_le_lineFeeds_render _)
  intro heq
  obtain ⟨r, hr, harguments⟩ := exists_row_textBlockFile hcomplete
  have hone := (lineFeeds_render_eq_iff read spelled hcomplete).1 heq.symm r hr
  rw [harguments] at hone
  exact absurd hone (by decide)

end Java.Index
end CallOrigins
