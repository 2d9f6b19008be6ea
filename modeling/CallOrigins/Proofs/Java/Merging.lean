import CallOrigins.Java.Index.Codebase
import CallOrigins.Proofs.Java.Naming
import CallOrigins.Proofs.Levels

/-!
# Merging files

What a file adds to an index: itself, its types in their order, and its methods in their order, the
first one for each identifier that was not taken before. So an index of files has the types and
methods of all its files in one row (`parsedTypes`, `parsedMethods`), but for the methods whose
identifier was taken. All numbers inside of an outline are
smaller than the numbers they are used at, or point into the types of the outline, and this
survives the merging (`Index.WellFormed`).
-/

namespace CallOrigins

namespace Java

/-! ## Nested types -/

/-- The type around another one was found before it. -/
def Found.Nested (f : Found) : Prop :=
  ∀ (i : Nat) (t : TypeDecl) (o : Nat), f.types[i]? = some t → t.outer = some o → o < i

namespace Found

theorem Nested.pushType {f : Found} (h : f.Nested) {decl : TypeDecl}
    (hdecl : ∀ o, decl.outer = some o → o < f.types.size) :
    Nested { f with types := f.types.push decl } := by
  intro i t o ht ho
  rw [Array.getElem?_push] at ht
  split at ht
  next hi =>
    cases ht
    exact hi ▸ hdecl o ho
  next => exact h i t o ht ho

theorem Nested.step {root : Node} {f f' : Found} (h : f.Nested) (step : f.Step root f') :
    f'.Nested := by
  cases step with
  | type within held entered =>
    obtain ⟨decl, rfl, hdecl⟩ := Surroundings.enterType_eq entered
    refine h.pushType fun o ho => ?_
    rw [hdecl.outer] at ho
    obtain ⟨scope, hscope, rfl⟩ := Option.map_eq_some_iff.1 ho
    exact within.types scope (Surroundings.mem_of_innermost? hscope)
  | anonymous within based entered =>
    obtain ⟨decl, scope, rfl, hdecl⟩ := Surroundings.enterAnonymous_eq entered
    refine h.pushType fun o ho => ?_
    cases hdecl.outer.symm.trans ho
    exact within.types scope (Surroundings.mem_of_innermost? hdecl.innermost)
  | method within held declared entered =>
    obtain ⟨decl, -, -, -, rfl, -⟩ := Surroundings.enterMethod_eq entered
    exact h
  | calls => exact h

end Found

/-- **The types of an outline are nested**, whatever tree it is of. -/
theorem Outline.nested_ofTree (line : Nat → Nat) (root : Node) :
    (Outline.ofTree line root).found.Nested :=
  (Outline.grows_ofTree line root).keeps (fun _ _ step h => h.step step) (by simp [Found.Nested])

theorem SourceFile.IsRead.nested {f : SourceFile} (h : f.IsRead) : f.outline.found.Nested := by
  obtain ⟨line, hline⟩ := h
  rw [hline]
  exact Outline.nested_ofTree line f.tree

/-- The types of a file point to types of the file. -/
theorem SourceFile.IsRead.outer_lt {f : SourceFile} (h : f.IsRead) {t : TypeDecl} {o : Nat}
    (ht : t ∈ f.outline.types) (ho : t.outer = some o) : o < f.outline.types.size := by
  obtain ⟨i, hi⟩ := Array.mem_iff_getElem?.1 ht
  exact Nat.lt_trans (h.nested i t o hi ho) (Array.getElem?_eq_some_iff.1 hi).1

/-- The methods of a file that an index takes: the first one for each identifier. -/
def SourceFile.kept (f : SourceFile) : List MethodDecl :=
  freshBy MethodDecl.id [] f.outline.methods.toList

namespace Index

variable {ix : Index} {f : SourceFile}

/-! ## What a file adds -/

theorem files_foldl_addMethod (ds : List IndexedMethod) (ix : Index) :
    (ds.foldl addMethod ix).files = ix.files := by
  induction ds generalizing ix with
  | nil => rfl
  | cons d ds ih =>
    rw [List.foldl_cons, ih, addMethod]
    split <;> rfl

theorem types_foldl_addMethod (ds : List IndexedMethod) (ix : Index) :
    (ds.foldl addMethod ix).types = ix.types := by
  induction ds generalizing ix with
  | nil => rfl
  | cons d ds ih => rw [List.foldl_cons, ih, types_addMethod]

/-- Methods are added where their identifiers are fresh. -/
theorem methods_foldl_addMethod {met : List MethodId} (ds : List IndexedMethod)
    (hmet : ∀ m, m ∈ met ↔ m ∈ ix.identifiers) :
    (ds.foldl addMethod ix).methods =
      ix.methods ++ (freshBy (fun d => d.decl.id) met ds).toArray := by
  induction ds generalizing ix met with
  | nil => simp [freshBy]
  | cons d ds ih =>
    have htaken : ix.methods.any (fun e => e.decl.id == d.decl.id) = true ↔ d.decl.id ∈ met := by
      simp only [hmet, identifiers, Array.any_eq_true', beq_iff_eq, List.mem_map,
        Array.mem_toList_iff]
    rw [List.foldl_cons, freshBy, addMethod]
    split
    next hany =>
      rw [if_pos (htaken.1 hany)]
      exact ih hmet
    next hany =>
      have hmet' : ∀ m, m ∈ d.decl.id :: met ↔
          m ∈ (ix.replace ix.files ix.types (ix.methods.push d)).identifiers := by
        intro m
        simp [hmet, identifiers, or_comm]
      rw [if_neg fun hd => hany (htaken.2 hd), ih hmet', methods_replace, List.toArray_cons,
        ← Array.append_assoc, ← Array.push_eq_append]

theorem files_addFile (ix : Index) (f : SourceFile) : (ix.addFile f).files = ix.files.push f :=
  files_foldl_addMethod _ _

theorem types_addFile (ix : Index) (f : SourceFile) :
    (ix.addFile f).types =
      ix.types ++ f.outline.types.map (shiftType ix.files.size ix.types.size) :=
  types_foldl_addMethod _ _

theorem size_files_addFile (ix : Index) (f : SourceFile) :
    (ix.addFile f).files.size = ix.files.size + 1 := by
  rw [files_addFile, Array.size_push]

theorem size_types_addFile (ix : Index) (f : SourceFile) :
    (ix.addFile f).types.size = ix.types.size + f.outline.types.size := by
  rw [types_addFile, Array.size_append, Array.size_map]

theorem methods_addFile (ix : Index) (f : SourceFile) :
    (ix.addFile f).methods =
      ix.methods ++ (freshBy (fun d => d.decl.id) ix.identifiers
        (f.outline.methods.toList.map (shiftMethod ix.files.size ix.types.size))).toArray :=
  methods_foldl_addMethod _ fun _ => Iff.rfl

/-- A method was there, or it is one of the file. -/
theorem mem_methods_addFile {d : IndexedMethod} (h : d ∈ (ix.addFile f).methods) :
    d ∈ ix.methods ∨ ∃ m ∈ f.outline.methods, d = shiftMethod ix.files.size ix.types.size m := by
  rw [methods_addFile] at h
  rcases Array.mem_append.1 h with h | h
  · exact .inl h
  · obtain ⟨m, hm, rfl⟩ := List.mem_map.1 ((freshBy_sublist ..).subset (List.mem_toArray.1 h))
    exact .inr ⟨m, Array.mem_toList_iff.1 hm, rfl⟩

theorem files_ofFiles (files : List SourceFile) : (ofFiles files).files = files.toArray := by
  suffices h : ∀ ix : Index, (files.foldl addFile ix).files = ix.files ++ files.toArray from
    (h {}).trans (by simp)
  induction files with
  | nil => simp
  | cons f fs ih =>
    intro ix
    rw [List.foldl_cons, ih, files_addFile]
    simp

/-- The file has no method whose identifier is taken. -/
def Admits (ix : Index) (f : SourceFile) : Prop :=
  ∀ d ∈ ix.methods, ∀ m ∈ f.outline.methods, d.decl.id ≠ m.id

/-- **The methods that a file adds**, where none of its identifiers is taken. -/
theorem Admits.methods_addFile (h : ix.Admits f) :
    (ix.addFile f).methods =
      ix.methods ++ (f.kept.map (shiftMethod ix.files.size ix.types.size)).toArray := by
  have hfresh : ∀ m ∈ f.outline.methods.toList, m.id ∈ ix.identifiers ↔ m.id ∈ [] := by
    intro m hm
    simp only [List.not_mem_nil, iff_false]
    intro hmem
    obtain ⟨d, hd, hid⟩ := List.mem_map.1 hmem
    exact h d (Array.mem_toList_iff.1 hd) m (Array.mem_toList_iff.1 hm) hid
  have hkept : freshBy ((fun d : IndexedMethod => d.decl.id) ∘
      shiftMethod ix.files.size ix.types.size) ix.identifiers f.outline.methods.toList = f.kept :=
    freshBy_congr hfresh
  rw [Index.methods_addFile, freshBy_map, hkept]

/-! ## What files declare -/

/-- The types of files, one file after the other: the first of the files has this number, and
`base` types are there before it. -/
def parsedTypes (file base : Nat) : List SourceFile → List IndexedType
  | [] => []
  | f :: fs =>
    f.outline.types.toList.map (shiftType file base) ++
      parsedTypes (file + 1) (base + f.outline.types.size) fs

/-- The methods of files, one file after the other, before any of them is left out. -/
def parsedMethods (file base : Nat) : List SourceFile → List IndexedMethod
  | [] => []
  | f :: fs =>
    f.outline.methods.toList.map (shiftMethod file base) ++
      parsedMethods (file + 1) (base + f.outline.types.size) fs

theorem types_foldl_addFile (files : List SourceFile) (ix : Index) :
    (files.foldl addFile ix).types.toList =
      ix.types.toList ++ parsedTypes ix.files.size ix.types.size files := by
  induction files generalizing ix with
  | nil => simp [parsedTypes]
  | cons f files ih =>
    rw [List.foldl_cons, ih, size_files_addFile, size_types_addFile, types_addFile]
    simp [parsedTypes]

/-- **The methods of an index** are those that were parsed, the first one for each identifier. -/
theorem methods_foldl_addFile (files : List SourceFile) (ix : Index) :
    (files.foldl addFile ix).methods.toList =
      ix.methods.toList ++ freshBy (fun d => d.decl.id) ix.identifiers
        (parsedMethods ix.files.size ix.types.size files) := by
  induction files generalizing ix with
  | nil => simp [parsedMethods, freshBy]
  | cons f files ih =>
    -- what was met after the first file: what was there, and what this file has added
    have hmet : ∀ m, m ∈ (ix.addFile f).identifiers ↔
        m ∈ ((freshBy (fun d => d.decl.id) ix.identifiers (f.outline.methods.toList.map
          (shiftMethod ix.files.size ix.types.size))).map (fun d => d.decl.id)).reverse ++
            ix.identifiers := by
      intro m
      simp only [identifiers, methods_addFile, Array.toList_append, List.map_append,
        List.mem_append, List.mem_reverse]
      exact or_comm
    rw [List.foldl_cons, ih, size_files_addFile, size_types_addFile, parsedMethods,
      freshBy_append, freshBy_congr fun d _ => hmet d.decl.id, methods_addFile,
      Array.toList_append, List.append_assoc]

theorem duplicates_foldl_addMethod (ds : List IndexedMethod) (ix : Index) :
    (ds.foldl addMethod ix).methods.size + (ds.foldl addMethod ix).duplicates =
      ix.methods.size + ix.duplicates + ds.length := by
  induction ds generalizing ix with
  | nil => rfl
  | cons d ds ih =>
    have hstep : (ix.addMethod d).methods.size + (ix.addMethod d).duplicates =
        ix.methods.size + ix.duplicates + 1 := by
      unfold addMethod
      split
      · rfl
      · rw [methods_replace, Array.size_push]
        exact Nat.add_right_comm ..
    rw [List.foldl_cons, ih, hstep, List.length_cons]
    omega

/-- Every method that was parsed was taken or counted. -/
theorem duplicates_foldl_addFile (files : List SourceFile) (ix : Index) :
    (files.foldl addFile ix).methods.size + (files.foldl addFile ix).duplicates =
      ix.methods.size + ix.duplicates +
        (parsedMethods ix.files.size ix.types.size files).length := by
  induction files generalizing ix with
  | nil => rfl
  | cons f files ih =>
    have hstep : (ix.addFile f).methods.size + (ix.addFile f).duplicates =
        ix.methods.size + ix.duplicates + f.outline.methods.size :=
      (duplicates_foldl_addMethod _ _).trans (by simp [replace])
    rw [List.foldl_cons, ih, hstep, size_files_addFile, size_types_addFile, parsedMethods]
    simp only [List.length_append, List.length_map, Array.length_toList]
    omega

theorem methods_ofFiles (files : List SourceFile) :
    (ofFiles files).methods.toList =
      freshBy (fun d => d.decl.id) [] (parsedMethods 0 0 files) :=
  methods_foldl_addFile files {}

/-- Every method that was parsed is one of a file. -/
theorem exists_of_mem_parsedMethods {files : List SourceFile} {file base : Nat} {d : IndexedMethod}
    (h : d ∈ parsedMethods file base files) :
    ∃ (i : Nat) (f : SourceFile) (base' : Nat) (m : MethodDecl),
      files[i]? = some f ∧ m ∈ f.outline.methods ∧ d = shiftMethod (file + i) base' m := by
  induction files generalizing file base with
  | nil => exact absurd h List.not_mem_nil
  | cons f files ih =>
    rw [parsedMethods] at h
    rcases List.mem_append.1 h with h | h
    · obtain ⟨m, hm, rfl⟩ := List.mem_map.1 h
      exact ⟨0, f, base, m, rfl, Array.mem_toList_iff.1 hm, rfl⟩
    · obtain ⟨i, g, base', m, hg, hm, rfl⟩ := ih h
      exact ⟨i + 1, g, base', m, hg, hm, by rw [Nat.add_right_comm, Nat.add_assoc]⟩

/-- **Where a method comes from**: it is one of its file, but for the number of its type. -/
theorem exists_of_mem_methods {files : List SourceFile} {d : IndexedMethod}
    (h : d ∈ (ofFiles files).methods) :
    ∃ f ∈ files, (ofFiles files).fileOf? d = some f ∧ ∃ m ∈ f.outline.methods, ∃ base,
      d.decl = { m with type := m.type + base } := by
  rw [← Array.mem_toList_iff, methods_ofFiles] at h
  obtain ⟨i, f, base, m, hf, hm, rfl⟩ :=
    exists_of_mem_parsedMethods ((freshBy_sublist ..).subset h)
  refine ⟨f, List.mem_of_getElem? hf, ?_, m, hm, base, rfl⟩
  rw [fileOf?, files_ofFiles, List.getElem?_toArray]
  change files[0 + i]? = some f
  rw [Nat.zero_add, hf]

/-! ## Where calls come from -/

/-- **The calls of a method of an index** are recorded in the tree of its file. -/
theorem recordedIn_of_mem_methods {files : List SourceFile} (read : ∀ f ∈ files, f.IsRead)
    {d : IndexedMethod} (h : d ∈ (ofFiles files).methods) :
    ∃ f ∈ files, (ofFiles files).fileOf? d = some f ∧ RecordedIn f.tree d.decl.calls := by
  obtain ⟨f, hf, hfile, m, hm, base, hdecl⟩ := exists_of_mem_methods h
  obtain ⟨line, hline⟩ := read f hf
  have hrecorded := Outline.recorded_ofTree line f.tree
  rw [← hline] at hrecorded
  exact ⟨f, hf, hfile, by rw [hdecl]; exact hrecorded m hm⟩

/-- The calls of every method are made in the tree of its file. -/
def Made (ix : Index) : Prop :=
  ∀ d ∈ ix.methods, ∃ f, ix.fileOf? d = some f ∧ ∀ c ∈ d.decl.calls, c.IsMade f.tree

theorem made_ofFiles {files : List SourceFile} (read : ∀ f ∈ files, f.IsRead) :
    (ofFiles files).Made := by
  intro d hd
  obtain ⟨f, -, hfile, hrecorded⟩ := recordedIn_of_mem_methods read hd
  exact ⟨f, hfile, fun c hc => hrecorded.isMade hc⟩

/-! ## Well-formed indexes -/

/-- The numbers in an index point to what is there, and no identifier is taken twice. -/
structure WellFormed (ix : Index) : Prop where
  nested : ∀ (i : Nat) (t : IndexedType) (o : Nat),
    ix.types[i]? = some t → t.decl.outer = some o → o < i
  typeFile : ∀ t ∈ ix.types, t.file < ix.files.size
  methodType : ∀ d ∈ ix.methods, d.decl.type < ix.types.size
  methodFile : ∀ d ∈ ix.methods, d.file < ix.files.size
  distinct : ix.identifiers.Nodup

theorem WellFormed.addFile (h : ix.WellFormed) (hf : f.IsRead) : (ix.addFile f).WellFormed := by
  refine ⟨fun i t o ht ho => ?_, fun t ht => ?_, fun d hd => ?_, fun d hd => ?_, ?_⟩
  · rw [types_addFile, Array.getElem?_append] at ht
    split at ht
    next => exact h.nested i t o ht ho
    next hi =>
      rw [Array.getElem?_map] at ht
      obtain ⟨decl, hdecl, rfl⟩ := Option.map_eq_some_iff.1 ht
      obtain ⟨outer, houter, rfl⟩ := Option.map_eq_some_iff.1 ho
      have hlt := hf.nested _ decl outer hdecl houter
      omega
  · rw [files_addFile, Array.size_push]
    rw [types_addFile] at ht
    rcases Array.mem_append.1 ht with ht | ht
    · exact Nat.lt_succ_of_lt (h.typeFile t ht)
    · obtain ⟨decl, -, rfl⟩ := Array.mem_map.1 ht
      exact Nat.lt_succ_self _
  · rw [size_types_addFile]
    rcases mem_methods_addFile hd with hd | ⟨m, hm, rfl⟩
    · exact Nat.lt_add_right _ (h.methodType d hd)
    · obtain ⟨t, ht, -⟩ := hf.named.methods m hm
      have hlt : m.type < f.outline.types.size := (Array.getElem?_eq_some_iff.1 ht).1
      change m.type + ix.types.size < _
      omega
  · rw [files_addFile, Array.size_push]
    rcases mem_methods_addFile hd with hd | ⟨m, -, rfl⟩
    · exact Nat.lt_succ_of_lt (h.methodFile d hd)
    · exact Nat.lt_succ_self _
  · obtain ⟨hnodup, hfresh⟩ := nodup_freshBy (fun d : IndexedMethod => d.decl.id) ix.identifiers
      (f.outline.methods.toList.map (shiftMethod ix.files.size ix.types.size))
    rw [identifiers, methods_addFile, Array.toList_append, List.map_append, List.nodup_append]
    refine ⟨h.distinct, hnodup, fun m hm m' hm' heq => ?_⟩
    obtain ⟨d, hd, rfl⟩ := List.mem_map.1 hm'
    exact hfresh d hd (heq ▸ hm)

/-- **Merging files gives a well-formed index.** -/
theorem wellFormed_foldl_addFile {files : List SourceFile} (read : ∀ f ∈ files, f.IsRead)
    (h : ix.WellFormed) : (files.foldl Index.addFile ix).WellFormed :=
  foldl_addFile_keeps (fun _ _ hf h => h.addFile hf) read h

theorem wellFormed_empty : WellFormed {} :=
  ⟨by simp, by simp, by simp, by simp, List.nodup_nil⟩

/-- Links do not touch anything else. -/
theorem WellFormed.linkSupers (h : ix.WellFormed) : ix.linkSupers.WellFormed where
  nested i t o ht ho := by
    rw [Index.linkSupers, types_withSupers, Array.getElem?_map] at ht
    obtain ⟨old, hold, rfl⟩ := Option.map_eq_some_iff.1 ht
    exact h.nested i old o hold ho
  typeFile t ht := by
    obtain ⟨old, hold, rfl⟩ := Array.mem_map.1 ht
    exact h.typeFile old hold
  methodType d hd := by
    rw [Index.linkSupers, types_withSupers, Array.size_map]
    exact h.methodType d hd
  methodFile := h.methodFile
  distinct := h.distinct

theorem wellFormed_ofFiles {files : List SourceFile} (read : ∀ f ∈ files, f.IsRead) :
    (ofFiles files).WellFormed :=
  (wellFormed_foldl_addFile read wellFormed_empty).linkSupers

theorem WellFormed.eq_of_id_eq (wf : ix.WellFormed) {i j : Nat} {d e : IndexedMethod}
    (hd : ix.methods[i]? = some d) (he : ix.methods[j]? = some e)
    (hid : d.decl.id = e.decl.id) : i = j := by
  have hget : ∀ {k : Nat} {c : IndexedMethod}, ix.methods[k]? = some c →
      ix.identifiers[k]? = some c.decl.id := by
    intro k c hc
    rw [identifiers, List.getElem?_map, Array.getElem?_toList, hc]
    rfl
  have hlt := (List.getElem?_eq_some_iff.1 (hget hd)).1
  exact (List.getElem?_inj hlt wf.distinct).1 ((hget hd).trans (hid ▸ (hget he).symm))

/-- The method with an identifier is the only one. -/
theorem WellFormed.methodNumber?_eq_some_iff (wf : ix.WellFormed) {m : MethodId} {i : Nat} :
    ix.methodNumber? m = some i ↔ ∃ d, ix.methods[i]? = some d ∧ d.decl.id = m := by
  refine ⟨exists_of_methodNumber?, fun ⟨d, hd, hid⟩ => ?_⟩
  cases hnumber : ix.methodNumber? m with
  | none => exact absurd hid (methodNumber?_eq_none_iff.1 hnumber d (Array.mem_of_getElem? hd))
  | some j =>
    obtain ⟨e, he, hid'⟩ := exists_of_methodNumber? hnumber
    rw [wf.eq_of_id_eq hd he (hid.trans hid'.symm)]

theorem WellFormed.method?_eq (wf : ix.WellFormed) {d : IndexedMethod} (hd : d ∈ ix.methods) :
    ix.method? d.decl.id = some d := by
  obtain ⟨i, hi⟩ := Array.mem_iff_getElem?.1 hd
  have hnumber := wf.methodNumber?_eq_some_iff.2 ⟨d, hi, rfl⟩
  exact Option.bind_eq_some_iff.2 ⟨i, hnumber, hi⟩

theorem WellFormed.method?_eq_find? (wf : ix.WellFormed) (m : MethodId) :
    ix.method? m = ix.methods.toList.find? (fun d => d.decl.id == m) := by
  cases hfound : ix.methods.toList.find? (fun d => d.decl.id == m) with
  | none =>
    have habsent : ix.methodNumber? m = none :=
      methodNumber?_eq_none_iff.2 fun d hd hid =>
        List.find?_eq_none.1 hfound d (Array.mem_toList_iff.2 hd) (beq_iff_eq.2 hid)
    rw [method?, habsent]
    rfl
  | some d =>
    have hid := List.find?_some hfound
    rw [← beq_iff_eq.1 hid]
    exact wf.method?_eq (Array.mem_toList_iff.1 (List.mem_of_find?_eq_some hfound))

end Index
end Java
end CallOrigins
