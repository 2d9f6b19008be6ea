import CallOrigins.Proofs.Java.Renumbering
import CallOrigins.Proofs.Java.Supertypes

/-!
# The invariant of an assembled index

The outlines of files number their types from zero. In an index the types of all files stand in one
row, and so do the methods. After the merging every number points to what it pointed to in its
outline: a type and the type around it, or a method and its type, are of one file (`Homed`).

The invariant itself is `Index.Assembled`: it is about the index and its tables, and the files it is
of. The tables list every method, and every call of a method, once and under its own key. As the type
around another one has the smaller number, the way outward ends at every type.
-/

namespace CallOrigins.Java.Index

variable {ix : Index} {f : SourceFile}

/-! ## One file -/

/-- What a type or method points to is of the same file. -/
structure Homed (ix : Index) : Prop where
  outer : ∀ t ∈ ix.types, ∀ o, t.decl.outer = some o →
    ∃ u, ix.types[o]? = some u ∧ u.file = t.file
  owner : ∀ d ∈ ix.methods, ∃ t, ix.types[d.decl.type]? = some t ∧ t.file = d.file

/-- Types that are there keep their numbers. -/
theorem getElem?_types_addFile {i : Nat} {t : IndexedType} (h : ix.types[i]? = some t) :
    (ix.addFile f).types[i]? = some t := by
  rw [types_addFile, Array.getElem?_append_left (Array.getElem?_eq_some_iff.1 h).1, h]

/-- The types of the file are moved up by the number of types that are there. -/
theorem getElem?_types_addFile_add {i : Nat} {t : TypeDecl} (h : f.outline.types[i]? = some t) :
    (ix.addFile f).types[i + ix.types.size]? =
      some (shiftType ix.files.size ix.types.size t) := by
  rw [types_addFile, Array.getElem?_append_right (Nat.le_add_left ..), Nat.add_sub_cancel,
    Array.getElem?_map, h]
  rfl

theorem Homed.addFile (h : ix.Homed) (hf : f.IsRead) : (ix.addFile f).Homed := by
  refine ⟨fun t ht o ho => ?_, fun d hd => ?_⟩
  · rw [types_addFile] at ht
    rcases Array.mem_append.1 ht with ht | ht
    · obtain ⟨u, hu, hfile⟩ := h.outer t ht o ho
      exact ⟨u, getElem?_types_addFile hu, hfile⟩
    · obtain ⟨decl, hdecl, rfl⟩ := Array.mem_map.1 ht
      obtain ⟨outer, houter, rfl⟩ := Option.map_eq_some_iff.1 ho
      have hget := Array.getElem?_eq_getElem (hf.outer_lt hdecl houter)
      exact ⟨_, getElem?_types_addFile_add hget, rfl⟩
  · rcases mem_methods_addFile hd with hd | ⟨m, hm, rfl⟩
    · obtain ⟨t, ht, hfile⟩ := h.owner d hd
      exact ⟨t, getElem?_types_addFile ht, hfile⟩
    · obtain ⟨t, ht, -⟩ := hf.named.methods m hm
      exact ⟨_, getElem?_types_addFile_add ht, rfl⟩

theorem Homed.linkSupers (h : ix.Homed) : ix.linkSupers.Homed := by
  refine ⟨fun t ht o ho => ?_, fun d hd => ?_⟩
  · obtain ⟨old, hold, rfl⟩ := Array.mem_map.1 ht
    obtain ⟨u, hu, hfile⟩ := h.outer old hold o ho
    exact ⟨_, getElem?_types_linkSupers hu, hfile⟩
  · obtain ⟨t, ht, hfile⟩ := h.owner d hd
    exact ⟨_, getElem?_types_linkSupers ht, hfile⟩

theorem homed_ofFiles {files : List SourceFile} (read : ∀ f ∈ files, f.IsRead) :
    (ofFiles files).Homed := by
  have hmerged : (files.foldl Index.addFile {}).Homed :=
    foldl_addFile_keeps (fun _ _ hf h => h.addFile hf) read ⟨by simp, by simp⟩
  exact hmerged.linkSupers

/-- Links lead to types of the index. -/
theorem supers_lt_size {files : List SourceFile} (read : ∀ f ∈ files, f.IsRead)
    {t : IndexedType} (ht : t ∈ (ofFiles files).types) {s : Nat} (hs : s ∈ t.supers) :
    s < (ofFiles files).types.size := by
  obtain ⟨old, -, rfl⟩ := Array.mem_map.1 ht
  obtain ⟨name, -, hresolved⟩ := List.mem_filterMap.1 hs
  obtain ⟨u, hu, -⟩ := (named_foldl_addFile read).resolveType? hresolved
  rw [ofFiles, linkSupers, types_withSupers, Array.size_map]
  exact (Array.getElem?_eq_some_iff.1 hu).1

/-! ## The tables -/

/-- The numbers are those of the methods that satisfy a condition, each of them once and ascending. -/
def Lists (ix : Index) (numbers : Array Nat) (p : IndexedMethod → Prop) : Prop :=
  numbers.toList.Pairwise (· < ·) ∧ ∀ i, i ∈ numbers ↔ ∃ d, ix.methods[i]? = some d ∧ p d

theorem lists_of_eq {numbers : Array Nat} {p : IndexedMethod → Prop} [DecidablePred p]
    (h : numbers.toList = ix.methodsWhere (fun d => decide (p d))) : ix.Lists numbers p := by
  refine ⟨h ▸ pairwise_methodsWhere .., fun i => ?_⟩
  rw [← Array.mem_toList_iff, h, mem_methodsWhere]
  simp only [decide_eq_true_eq]

/-- Methods of files that are not there are not there. -/
theorem WellFormed.lists_file (wf : ix.WellFormed) (file : Nat) :
    ix.Lists (ix.tables.methodsByFile.getD file #[]) (fun d => d.file = file) := by
  by_cases hfile : file < ix.files.size
  · exact lists_of_eq ((methodsByFile_eq ix file).trans (if_pos hfile))
  · have hempty := (methodsByFile_eq ix file).trans (if_neg hfile)
    constructor
    · rw [hempty]
      exact .nil
    · intro i
      rw [← Array.mem_toList_iff, hempty]
      refine iff_of_false List.not_mem_nil ?_
      rintro ⟨d, hd, rfl⟩
      exact hfile (wf.methodFile d (Array.mem_of_getElem? hd))

/-- The type around a type, by number. -/
def outerOf? (ix : Index) (type : Nat) : Option Nat :=
  ix.types[type]?.bind (fun t => t.decl.outer)

/-! ## The invariant -/

/-- **The index is assembled of the files.** -/
structure Assembled (ix : Index) (files : List SourceFile) : Prop where
  /-- The types are those of the files, in their order. -/
  types : ix.unlinked.types.toList = parsedTypes 0 0 files
  /-- The type around another one was declared before it, in the same file. -/
  outer : ∀ (i : Nat) (t : IndexedType) (o : Nat), ix.types[i]? = some t →
    t.decl.outer = some o → o < i ∧ ∃ u, ix.types[o]? = some u ∧ u.file = t.file
  /-- The type of a method is there, in the file of the method, and gives it its name. -/
  owner : ∀ d ∈ ix.methods, ∃ t, ix.types[d.decl.type]? = some t ∧ t.file = d.file ∧
    IdentifiedBy d.decl.id t.decl
  /-- Links lead to types of the index. -/
  supers : ∀ t ∈ ix.types, ∀ s ∈ t.supers, s < ix.types.size
  distinct : ix.identifiers.Nodup
  /-- The methods stand in the order in which they were parsed. -/
  order : ix.methods.toList.Sublist (parsedMethods 0 0 files)
  /-- For every identifier the first method that was parsed is kept. -/
  first : ∀ m, ix.method? m = (parsedMethods 0 0 files).find? (fun d => d.decl.id == m)
  /-- The others are counted. -/
  counted : ix.methods.size + ix.duplicates = (parsedMethods 0 0 files).length
  /-- For every name the first type that has it is found. -/
  named : ∀ (name : String) (i : Nat), ix.tables.typeByName[name]? = some i ↔
    (∃ t, ix.types[i]? = some t ∧ t.decl.name = name) ∧
      ∀ (j : Nat) (t : IndexedType), ix.types[j]? = some t → t.decl.name = name → i ≤ j
  numbered : ∀ (m : MethodId) (i : Nat), ix.tables.methodById[m]? = some i ↔
    ∃ d, ix.methods[i]? = some d ∧ d.decl.id = m
  members : ∀ type name, ix.Lists (ix.tables.members.getD (type, name) #[])
    (fun d => (d.decl.type, d.decl.id.name) = (type, name))
  byName : ∀ name, ix.Lists (ix.tables.methodsByName.getD name #[]) (fun d => d.decl.id.name = name)
  byFile : ix.tables.methodsByFile.size = ix.files.size ∧
    ∀ file, ix.Lists (ix.tables.methodsByFile.getD file #[]) (fun d => d.file = file)
  calls : ∀ name, (ix.tables.callsByName.getD name #[]).toList.Nodup ∧
    ∀ s, s ∈ ix.tables.callsByName.getD name #[] ↔
      ∃ d c, ix.methods[s.method]? = some d ∧ d.decl.calls[s.place]? = some c ∧ c.name = name
  /-- There is no way outward without an end. -/
  outward : WellFounded fun o i => ix.outerOf? i = some o
  /-- The types around a type are all of those on its way outward. -/
  enclosing : ∀ type,
    ix.enclosingTypes type = type :: (ix.outerOf? type).elim [] ix.enclosingTypes

theorem WellFormed.wellFounded_outerOf? (wf : ix.WellFormed) :
    WellFounded fun o i => ix.outerOf? i = some o := by
  refine Subrelation.wf (fun {o i} h => ?_) Nat.lt_wfRel.wf
  obtain ⟨t, ht, ho⟩ := Option.bind_eq_some_iff.1 h
  exact wf.nested i t o ht ho

theorem WellFormed.enclosingTypes_cons (wf : ix.WellFormed) (type : Nat) :
    ix.enclosingTypes type = type :: (ix.outerOf? type).elim [] ix.enclosingTypes := by
  rw [wf.enclosingTypes_eq, outerOf?]
  cases ix.types[type]?.bind (fun t => t.decl.outer) <;> rfl

theorem assembled_of_read {files : List SourceFile} (read : ∀ f ∈ files, f.IsRead) :
    (ofFiles files).Assembled files := by
  have wf := wellFormed_ofFiles read
  have homed := homed_ofFiles read
  have named := named_ofFiles read
  constructor
  case types =>
    rw [unlinked_ofFiles, types_foldl_addFile]
    simp
  case outer =>
    intro i t o ht ho
    exact ⟨wf.nested i t o ht ho, homed.outer t (Array.mem_of_getElem? ht) o ho⟩
  case owner =>
    intro d hd
    obtain ⟨t, ht, hfile⟩ := homed.owner d hd
    obtain ⟨t', ht', hid⟩ := named.methods d hd
    cases ht.symm.trans ht'
    exact ⟨t, ht, hfile, hid⟩
  case supers =>
    intro t ht s hs
    exact supers_lt_size read ht hs
  case distinct => exact wf.distinct
  case order =>
    rw [methods_ofFiles]
    exact freshBy_sublist ..
  case first =>
    intro m
    rw [wf.method?_eq_find?, methods_ofFiles]
    exact find?_freshBy List.not_mem_nil _
  case counted =>
    show (files.foldl addFile {}).methods.size + (files.foldl addFile {}).duplicates = _
    rw [duplicates_foldl_addFile]
    simp
  case named => exact fun name i => typeNamed?_eq_some_iff
  case numbered => exact fun m i => wf.methodNumber?_eq_some_iff
  case members => exact fun type name => lists_of_eq (members_eq _ type name)
  case byName => exact fun name => lists_of_eq (methodsNamed_eq _ name)
  case byFile => exact ⟨size_methodsByFile _, wf.lists_file⟩
  case calls =>
    refine fun name => ⟨nodup_sitesNamed _ name, fun s => ?_⟩
    rw [← Array.mem_toList_iff]
    refine mem_sitesNamed.trans ?_
    simp only [callAt?_eq_some, and_assoc]
  case outward => exact wf.wellFounded_outerOf?
  case enclosing => exact wf.enclosingTypes_cons

/-- **An index is assembled of its files**, whether these are read from sources or have outlines of
any other trees. -/
theorem assembled_ofFiles :
    (∀ sources, (ofSources sources).Assembled (sources.map SourceFile.read)) ∧
      ∀ files : List SourceFile, (∀ f ∈ files, f.IsRead) → (ofFiles files).Assembled files := by
  refine ⟨fun sources => assembled_of_read fun f hf => ?_, fun files => assembled_of_read⟩
  obtain ⟨source, -, rfl⟩ := List.mem_map.1 hf
  exact SourceFile.isRead_read source

/-- Of a file that is there twice, the constructor is indexed once and counted once. -/
theorem assembled_fooFile_twice :
    (∀ f ∈ [fooFile "", fooFile ""], f.IsRead) ∧
    (ofFiles [fooFile "", fooFile ""]).Assembled [fooFile "", fooFile ""] ∧
    (ofFiles [fooFile "", fooFile ""]).duplicates = 1 ∧
    (ofFiles [fooFile "", fooFile ""]).tables.methodsByName.getD "Foo" #[] = #[0] := by
  have read : ∀ f ∈ [fooFile "", fooFile ""], f.IsRead := by simp [fooFile, isRead_fileOf]
  exact ⟨read, assembled_ofFiles.2 _ read, by decide +kernel, by decide +kernel⟩

end CallOrigins.Java.Index
