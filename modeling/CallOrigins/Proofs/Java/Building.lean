import CallOrigins.Java.Index.Build
import CallOrigins.Proofs.Agreement

/-!
# An index from a disk and one from memory

An index is built from a disk in several steps: the roots are gone through, repeated paths are
dropped, the files are sorted, dealt out in chunks and read by workers, and what the workers have
read is put together. Here all of this is taken back to one list of sources.

**The law** (`build_eq_ofSources`): the index is that of the sources in the order of their paths,
each path once. A source is external where a library root gives its path, or where a pattern marks
it. Neither the order in which a walk finds files nor the number of workers makes a difference.

The two halves meet in the list of files. Chunks are put together to what they were cut from
(`flatten_chunks`), and each worker reads its files one after the other (`Batch.ofFiles_eq`), so
the workers leave no trace in an index (`Index.load_eq`). And the files of a plan are told by what
its roots give, without a word of order (`IndexPlan.mem_files`): library roots come first, so the
first to give a path is a library root wherever there is one.
-/

namespace CallOrigins.Java

/-! ## Chunks and workers -/

/-- **Chunks, put together, are the list**, whatever their size. -/
theorem flatten_chunks {α : Type} (size : Nat) (as : List α) : (chunks size as).flatten = as := by
  fun_induction chunks size as with
  | case1 => rfl
  | case2 a as ih => rw [List.flatten_cons, ih, List.cons_append, List.take_append_drop]

/-- What is read of a file, and whether its bytes are not UTF-8. -/
def FoundFile.load? (read : FileReader) (f : FoundFile) : Option (SourceFile × Bool) :=
  (read f.path).map fun t => (SourceFile.read ⟨f.path, t.content, f.external⟩, t.lossy)

/-- A worker goes on after what it has read. -/
theorem Batch.foldl_add (read : FileReader) (fs : List FoundFile) (b : Batch) :
    fs.foldl (Batch.add read) b =
      { files := b.files ++ fs.filterMap (FoundFile.load? read)
        readErrors := b.readErrors + fs.countP fun f => (f.load? read).isNone } := by
  induction fs generalizing b with
  | nil => simp
  | cons f fs ih =>
    rw [List.foldl_cons, ih]
    cases hread : read f.path with
    | none =>
      have hload : f.load? read = none := by rw [FoundFile.load?, hread, Option.map_none]
      rw [List.filterMap_cons_none hload, List.countP_cons_of_pos (by rw [hload]; rfl), Batch.add,
        hread]
      simp only [Batch.mk.injEq, true_and]
      omega
    | some t =>
      have hload : f.load? read =
          some (SourceFile.read ⟨f.path, t.content, f.external⟩, t.lossy) := by
        rw [FoundFile.load?, hread, Option.map_some]
      rw [List.filterMap_cons_some hload, List.countP_cons_of_neg (by rw [hload]; simp), Batch.add,
        hread]
      simp

/-- **The work of one worker**: the files that can be read, and the number of the others. -/
theorem Batch.ofFiles_eq (read : FileReader) (fs : List FoundFile) :
    Batch.ofFiles read fs =
      { files := fs.filterMap (FoundFile.load? read)
        readErrors := fs.countP fun f => (f.load? read).isNone } := by
  rw [Batch.ofFiles, Batch.foldl_add, List.nil_append, Nat.zero_add]

namespace Index

/-- **Workers leave no trace**: an index is that of all files that can be read, in their order, and
of the numbers of the others and of those whose bytes are not UTF-8. -/
theorem load_eq (read : FileReader) (workers : Nat) (fs : List FoundFile) :
    load read workers fs =
      { ofFiles ((fs.filterMap (FoundFile.load? read)).map Prod.fst) with
        readErrors := fs.countP fun f => (f.load? read).isNone
        lossyFiles := ((fs.filterMap (FoundFile.load? read)).filter Prod.snd).length } := by
  generalize hsize : chunkSize fs.length workers = size
  have hfiles : ((chunks size fs).map (Batch.ofFiles read)).flatMap Batch.files =
      fs.filterMap (FoundFile.load? read) := by
    rw [List.flatMap_map, funext (Batch.ofFiles_eq read), List.flatMap_def, ← List.filterMap_flatten,
      flatten_chunks]
  have herrors : (((chunks size fs).map (Batch.ofFiles read)).map Batch.readErrors).foldr
      (· + ·) 0 = fs.countP fun f => (f.load? read).isNone := by
    rw [List.map_map, ← List.sum_eq_foldr, funext (Batch.ofFiles_eq read)]
    exact List.countP_flatten.symm.trans (by rw [flatten_chunks])
  rw [load, hsize, ofBatches, hfiles, herrors]

theorem faults_addMethod (ix : Index) (d : IndexedMethod) :
    (ix.addMethod d).readErrors = ix.readErrors ∧ (ix.addMethod d).lossyFiles = ix.lossyFiles := by
  unfold addMethod
  split
  · exact ⟨rfl, rfl⟩
  · exact ⟨rfl, rfl⟩

theorem faults_foldl_addMethod (ds : List IndexedMethod) (ix : Index) :
    (ds.foldl addMethod ix).readErrors = ix.readErrors ∧
      (ds.foldl addMethod ix).lossyFiles = ix.lossyFiles := by
  induction ds generalizing ix with
  | nil => exact ⟨rfl, rfl⟩
  | cons d ds ih =>
    rw [List.foldl_cons]
    obtain ⟨hread, hlossy⟩ := faults_addMethod ix d
    exact ⟨(ih _).1.trans hread, (ih _).2.trans hlossy⟩

/-- Merging files counts no faults of reading. -/
theorem faults_ofFiles (files : List SourceFile) :
    (ofFiles files).readErrors = 0 ∧ (ofFiles files).lossyFiles = 0 := by
  suffices h : ∀ ix : Index, (files.foldl addFile ix).readErrors = ix.readErrors ∧
      (files.foldl addFile ix).lossyFiles = ix.lossyFiles from h {}
  induction files with
  | nil => exact fun ix => ⟨rfl, rfl⟩
  | cons f files ih =>
    intro ix
    obtain ⟨hread, hlossy⟩ := ih (ix.addFile f)
    obtain ⟨hread', hlossy'⟩ := faults_foldl_addMethod
      (f.outline.methods.toList.map (shiftMethod ix.files.size ix.types.size))
      (ix.replace (ix.files.push f)
        (ix.types ++ f.outline.types.map (shiftType ix.files.size ix.types.size)) ix.methods)
    exact ⟨hread.trans hread', hlossy.trans hlossy'⟩

theorem eq_of_faults {ix : Index} (h : ix.readErrors = 0 ∧ ix.lossyFiles = 0) :
    { ix with readErrors := 0, lossyFiles := 0 } = ix := by
  cases ix
  obtain ⟨rfl, rfl⟩ := h
  rfl

/-- **Files that can all be read**, of whole UTF-8: their index is that of sources in memory. -/
theorem load_of_readable {read : FileReader} {content : String → String} (workers : Nat)
    {fs : List FoundFile} (readable : ∀ f ∈ fs, read f.path = some ⟨content f.path, false⟩) :
    load read workers fs = ofSources (fs.map fun f => ⟨f.path, content f.path, f.external⟩) := by
  have hload : ∀ f ∈ fs, f.load? read =
      some (SourceFile.read ⟨f.path, content f.path, f.external⟩, false) := by
    intro f hf
    rw [FoundFile.load?, readable f hf, Option.map_some]
  have hfiles : fs.filterMap (FoundFile.load? read) =
      fs.map fun f => (SourceFile.read ⟨f.path, content f.path, f.external⟩, false) := by
    rw [← List.filterMap_eq_map]
    exact List.filterMap_congr hload
  have herrors : (fs.countP fun f => (f.load? read).isNone) = 0 := by
    rw [List.countP_eq_zero]
    intro f hf
    rw [hload f hf]
    simp
  have hlossy : (List.map (fun f : FoundFile =>
      (SourceFile.read ⟨f.path, content f.path, f.external⟩, false)) fs).filter Prod.snd = [] := by
    simp
  rw [load_eq, hfiles, herrors, hlossy, List.map_map, ofSources, List.map_map]
  exact eq_of_faults (faults_ofFiles _)

end Index

/-! ## The files of a plan -/

namespace IndexPlan

variable {plan : IndexPlan}

/-- The file that a root gives with a path. -/
def fileAt (plan : IndexPlan) (external : Bool) (path : String) : FoundFile :=
  ⟨path, external || plan.isLibraryPath path⟩

/-- All that roots give, one after the other, repetitions included. -/
def given (plan : IndexPlan) (ls : List Listing) : List FoundFile :=
  ls.flatMap fun l => l.paths.map (plan.fileAt l.external)

theorem foldl_addPath (plan : IndexPlan) (external : Bool) (paths : List String)
    (found : List FoundFile) :
    paths.foldl (plan.addPath external) found =
      found ++ freshBy FoundFile.path (found.map FoundFile.path)
        (paths.map (plan.fileAt external)) := by
  induction paths generalizing found with
  | nil => simp [freshBy]
  | cons path paths ih =>
    have hany : found.any (fun f => f.path == path) = true ↔
        path ∈ found.map FoundFile.path := by
      simp [List.any_eq_true]
    have hkey : (plan.fileAt external path).path = path := rfl
    rw [List.foldl_cons, List.map_cons, freshBy, addPath, hkey]
    by_cases hpath : path ∈ found.map FoundFile.path
    · rw [if_pos (hany.2 hpath), if_pos hpath, ih]
    · have hmet : freshBy FoundFile.path ((found ++ [plan.fileAt external path]).map FoundFile.path)
          (paths.map (plan.fileAt external)) = freshBy FoundFile.path
            (path :: found.map FoundFile.path) (paths.map (plan.fileAt external)) :=
        freshBy_congr fun f _ => by simp [hkey, or_comm]
      rw [if_neg fun h => hpath (hany.1 h), if_neg hpath, ih, ← hmet, List.append_assoc]
      rfl

/-- **Of all that roots give, the first one for each path is taken.** -/
theorem foldl_addListing (plan : IndexPlan) (ls : List Listing) (found : List FoundFile) :
    ls.foldl plan.addListing found =
      found ++ freshBy FoundFile.path (found.map FoundFile.path) (plan.given ls) := by
  induction ls generalizing found with
  | nil => simp [given, freshBy]
  | cons l ls ih =>
    have hgiven : plan.given (l :: ls) = l.paths.map (plan.fileAt l.external) ++ plan.given ls :=
      List.flatMap_cons
    rw [List.foldl_cons, addListing, foldl_addPath, ih, hgiven, freshBy_append, List.append_assoc]
    refine congrArg (fun rest => found ++ (_ ++ rest)) (freshBy_congr fun f _ => ?_)
    simp [or_comm]

theorem perm_files (plan : IndexPlan) (ls : List Listing) :
    (plan.files ls).Perm (freshBy FoundFile.path [] (plan.given ls)) := by
  rw [files, foldl_addListing, List.nil_append]
  exact List.mergeSort_perm _ _

theorem nodup_paths_files (plan : IndexPlan) (ls : List Listing) :
    ((plan.files ls).map FoundFile.path).Nodup :=
  ((plan.perm_files ls).map _).nodup_iff.2 (nodup_freshBy _ _ _).1

/-- **The files of a plan are in the order of their paths**, each path once. -/
theorem pairwise_files (plan : IndexPlan) (ls : List Listing) :
    (plan.files ls).Pairwise fun f g => f.path < g.path := by
  have hsorted : (plan.files ls).Pairwise fun f g => decide (f.path ≤ g.path) = true := by
    refine List.pairwise_mergeSort ?_ ?_ _
    · intro f g h hfg hgh
      exact decide_eq_true (String.le_trans (of_decide_eq_true hfg) (of_decide_eq_true hgh))
    · intro f g
      rw [Bool.or_eq_true, decide_eq_true_eq, decide_eq_true_eq]
      exact String.le_total f.path g.path
  have hdistinct : (plan.files ls).Pairwise fun f g => f.path ≠ g.path :=
    List.pairwise_map.1 (plan.nodup_paths_files ls)
  refine (hsorted.and hdistinct).imp ?_
  rintro f g ⟨hle, hne⟩
  exact String.not_le.1 fun hge => hne (String.le_antisymm (of_decide_eq_true hle) hge)

/-- The roots of a plan with what a walk gives for each of them. -/
def listed (plan : IndexPlan) (walk : String → List String) : List Listing :=
  plan.roots.map fun root => ⟨root.2, walk root.1⟩

/-- What library roots and source roots give, apart. -/
theorem given_listed (plan : IndexPlan) (walk : String → List String) :
    plan.given (plan.listed walk) =
      (plan.libraryRoots.flatMap walk).map (plan.fileAt true) ++
        (plan.sourceRoots.flatMap walk).map (plan.fileAt false) := by
  simp [given, listed, roots, List.flatMap_map, List.map_flatMap]

/-- The first of the files with a path, where the paths may repeat. -/
theorem head?_filter_fileAt (external : Bool) (path : String) (paths : List String) :
    ((paths.map (plan.fileAt external)).filter fun f => f.path = path).head? =
      if path ∈ paths then some (plan.fileAt external path) else none := by
  induction paths with
  | nil => simp
  | cons p paths ih =>
    rw [List.map_cons, List.filter_cons]
    by_cases hp : p = path
    · subst hp
      simp [fileAt]
    · rw [if_neg (by simp [fileAt, hp]), ih]
      simp [Ne.symm hp]

/-- **The files of a plan**, told by what its roots give. A file is external where a library root
gives its path, or where a pattern marks it; it does not matter which roots give it besides, how
often, and in which order. -/
theorem mem_files {walk : String → List String} {f : FoundFile} :
    f ∈ plan.files (plan.listed walk) ↔
      (∃ root ∈ plan.libraryRoots ++ plan.sourceRoots, f.path ∈ walk root) ∧
        (f.external = true ↔
          (∃ root ∈ plan.libraryRoots, f.path ∈ walk root) ∨ plan.isLibraryPath f.path = true) := by
  rw [(plan.perm_files _).mem_iff, mem_freshBy, given_listed, List.filter_append, List.head?_append,
    head?_filter_fileAt, head?_filter_fileAt, ← List.mem_flatMap, ← List.mem_flatMap,
    List.flatMap_append, List.mem_append, and_iff_right List.not_mem_nil]
  have hsame : ∀ external, some (plan.fileAt external f.path) = some f ↔
      (external || plan.isLibraryPath f.path) = f.external := by
    intro external
    obtain ⟨path, flag⟩ := f
    simp [fileAt]
  by_cases hl : f.path ∈ plan.libraryRoots.flatMap walk
  · rw [if_pos hl, Option.some_or, hsame, Bool.eq_iff_iff]
    simp [hl]
  · rw [if_neg hl, Option.none_or]
    by_cases hs : f.path ∈ plan.sourceRoots.flatMap walk
    · rw [if_pos hs, hsame, Bool.eq_iff_iff]
      simp only [hl, hs, false_or, true_and, Bool.false_or]
      exact Iff.comm
    · simp [hl, hs]

/-- Walks that find the same files give a plan the same files, in the same order. -/
theorem files_listed_congr {walk walk' : String → List String}
    (h : ∀ root ∈ plan.libraryRoots ++ plan.sourceRoots, (walk root).Perm (walk' root)) :
    plan.files (plan.listed walk) = plan.files (plan.listed walk') := by
  have hmem : ∀ f, f ∈ plan.files (plan.listed walk) ↔ f ∈ plan.files (plan.listed walk') := by
    intro f
    have hgives : ∀ root ∈ plan.libraryRoots ++ plan.sourceRoots,
        f.path ∈ walk root ↔ f.path ∈ walk' root := fun root hroot => (h root hroot).mem_iff
    have hlibrary : ∀ root ∈ plan.libraryRoots, f.path ∈ walk root ↔ f.path ∈ walk' root :=
      fun root hroot => hgives root (List.mem_append_left _ hroot)
    rw [mem_files, mem_files]
    simp only [exists_congr fun root => and_congr_right (hgives root),
      exists_congr fun root => and_congr_right (hlibrary root)]
  have hnodup : ∀ ls, (plan.files ls).Nodup :=
    fun ls => (plan.nodup_paths_files ls).of_map
  refine List.Perm.eq_of_pairwise (fun f g _ _ hfg hgf => ?_) (plan.pairwise_files _)
    (plan.pairwise_files _) ((List.perm_ext_iff_of_nodup (hnodup _) (hnodup _)).2 hmem)
  exact absurd (String.lt_trans hfg hgf) (String.lt_irrefl _)

/-! ## The build -/

/-- The Java files that are seen from a root of a disk. -/
def seen (plan : IndexPlan) (d : Disk) (root : String) : List String :=
  match d.locate root with
  | .ok place => ((d.filesBelow plan.walk place).filter isJavaPath).map Path.clean
  | .error _ => []

theorem listing_of_hasEntry {d : Disk} {root : String} (h : d.hasEntry root = true)
    (external : Bool) : plan.listing d root external = .ok ⟨external, plan.seen d root⟩ := by
  unfold Disk.hasEntry at h
  cases hentry : d.entry root with
  | error fault =>
    rw [hentry] at h
    cases h
  | ok entry =>
    cases hplace : d.locate root with
    | error fault =>
      rw [Disk.entry, hplace] at hentry
      cases hentry
    | ok place => rw [listing, hentry, hplace, seen, hplace]

/-- The walk of a disk goes through all the roots, where they all exist. -/
theorem listings_of_hasEntry {d : Disk}
    (h : ∀ root ∈ plan.libraryRoots ++ plan.sourceRoots, d.hasEntry root = true) :
    plan.listings d = .ok (plan.listed (plan.seen d)) := by
  have hroots : ∀ root ∈ plan.roots, d.hasEntry root.1 = true := by
    intro root hroot
    refine h root.1 ?_
    simp only [roots, List.mem_append, List.mem_map] at hroot ⊢
    rcases hroot with ⟨r, hr, rfl⟩ | ⟨r, hr, rfl⟩
    · exact .inl hr
    · exact .inr hr
  unfold listings listed
  generalize plan.roots = rs at hroots
  induction rs with
  | nil => rfl
  | cons root rs ih =>
    obtain ⟨root, external⟩ := root
    simp only [List.forall_mem_cons] at hroots
    rw [List.mapM_cons, ih hroots.2, List.map_cons]
    dsimp only
    rw [listing_of_hasEntry hroots.1]
    rfl

theorem build_eq {d : Disk} {ls : List Listing} (h : plan.listings d = .ok ls) (cores : Nat) :
    ∃ built, plan.build cores d = .ok built ∧
      built.index = Index.load (reader d) (plan.workers cores) (plan.files ls) := by
  rw [build, h]
  exact ⟨_, rfl, rfl⟩

/-- **The index that is built from a disk is that of sources in memory.** Let `walk` give paths for
the roots of a plan, in any order, each of them perhaps several times, and let all of them be read
as UTF-8. Then there are sources such that any number of workers gives their index, and so does the
build from a disk that has these roots and below them just these files. The sources stand in the
order of their paths, each path once; they have the paths that some root gives, and the texts that
are read there; and they are external where a library root gives the path or a pattern marks it. -/
theorem build_eq_ofSources (plan : IndexPlan) (walk : String → List String) (read : FileReader)
    (readable : ∀ root ∈ plan.libraryRoots ++ plan.sourceRoots, ∀ path ∈ walk root,
      ∃ content, read path = some ⟨content, false⟩) :
    ∃ sources : List Source,
      sources.Pairwise (fun s t => s.path < t.path) ∧
      (∀ path, path ∈ sources.map Source.path ↔
        ∃ root ∈ plan.libraryRoots ++ plan.sourceRoots, path ∈ walk root) ∧
      (∀ s ∈ sources, read s.path = some ⟨s.content, false⟩ ∧
        (s.external = true ↔ (∃ root ∈ plan.libraryRoots, s.path ∈ walk root) ∨
          ∃ r ∈ plan.patterns, r.matchesIn (Path.withSlashes s.path) = true)) ∧
      (∀ workers, Index.load read workers (plan.files (plan.listed walk)) =
        Index.ofSources sources) ∧
      ∀ (d : Disk) (cores : Nat), read = reader d →
        (∀ root ∈ plan.libraryRoots ++ plan.sourceRoots, d.hasEntry root = true ∧
          (walk root).Perm (plan.seen d root)) →
        ∃ built, plan.build cores d = .ok built ∧ built.index = Index.ofSources sources := by
  let content : String → String := fun path => ((read path).map Disk.LossyText.content).getD ""
  have hcontent : ∀ f ∈ plan.files (plan.listed walk),
      read f.path = some ⟨content f.path, false⟩ := by
    intro f hf
    obtain ⟨root, hroot, hpath⟩ := (mem_files.1 hf).1
    obtain ⟨text, htext⟩ := readable root hroot f.path hpath
    simp only [content, htext, Option.map_some, Option.getD_some]
  have hloaded := fun workers => Index.load_of_readable workers hcontent
  refine ⟨(plan.files (plan.listed walk)).map fun f => ⟨f.path, content f.path, f.external⟩,
    ?_, fun path => ?_, ?_, hloaded, ?_⟩
  · exact List.pairwise_map.2 (plan.pairwise_files _)
  · simp only [List.map_map, List.mem_map, Function.comp_apply]
    constructor
    · rintro ⟨f, hf, rfl⟩
      exact (mem_files.1 hf).1
    · intro hpath
      let flag := decide ((∃ root ∈ plan.libraryRoots, path ∈ walk root) ∨
        plan.isLibraryPath path = true)
      refine ⟨⟨path, flag⟩, mem_files.2 ⟨hpath, ?_⟩, rfl⟩
      exact decide_eq_true_iff
  · intro s hs
    obtain ⟨f, hf, rfl⟩ := List.mem_map.1 hs
    refine ⟨hcontent f hf, (mem_files.1 hf).2.trans ?_⟩
    rw [isLibraryPath, List.any_eq_true]
  · rintro d cores rfl hdisk
    obtain ⟨built, hbuilt, hindex⟩ :=
      build_eq (listings_of_hasEntry fun root hroot => (hdisk root hroot).1) cores
    refine ⟨built, hbuilt, ?_⟩
    rw [hindex, ← files_listed_congr fun root hroot => (hdisk root hroot).2]
    exact hloaded _

/-- A library inside of a source root, on a disk. -/
def nestedDisk : Disk :=
  (({} : Disk).addFile "/p/src/A.java" [0x63]).addFile "/p/lib/B.java" []

/-- The source root, with the library inside of it as a root of its own. -/
def nestedPlan : IndexPlan where
  sourceRoots := ["/p"]
  libraryRoots := ["/p/lib"]
  patterns := []
  walk := {}
  threads := 3

/-- The files below the two roots, those of the source root from the last one on. -/
def nestedWalk (root : String) : List String :=
  if root == "/p" then ["/p/src/A.java", "/p/lib/B.java"] else ["/p/lib/B.java"]

/-- The library is external, although the source root gives it, too. -/
theorem nestedPlan_built :
    (∀ root ∈ ["/p/lib", "/p"], ∀ path ∈ nestedWalk root,
      ∃ content, reader nestedDisk path = some ⟨content, false⟩) ∧
    (∀ root ∈ ["/p/lib", "/p"], nestedDisk.hasEntry root = true ∧
      (nestedWalk root).Perm (nestedPlan.seen nestedDisk root)) ∧
    ∃ sources built, nestedPlan.build 8 nestedDisk = .ok built ∧
      built.index = Index.ofSources sources ∧
      ∃ s ∈ sources, s.path = "/p/lib/B.java" ∧ s.external = true := by
  have readable : ∀ root ∈ ["/p/lib", "/p"], ∀ path ∈ nestedWalk root,
      ∃ content, reader nestedDisk path = some ⟨content, false⟩ := by
    have hsource : reader nestedDisk "/p/src/A.java" = some ⟨"c", false⟩ := by decide +kernel
    have hlibrary : reader nestedDisk "/p/lib/B.java" = some ⟨"", false⟩ := by decide +kernel
    simp [nestedWalk, hsource, hlibrary]
  have walked : ∀ root ∈ ["/p/lib", "/p"], nestedDisk.hasEntry root = true ∧
      (nestedWalk root).Perm (nestedPlan.seen nestedDisk root) := by decide +kernel
  refine ⟨readable, walked, ?_⟩
  obtain ⟨sources, -, hpaths, hflags, -, hbuild⟩ :=
    build_eq_ofSources nestedPlan nestedWalk (reader nestedDisk) readable
  obtain ⟨built, hbuilt, hindex⟩ := hbuild nestedDisk 8 rfl walked
  have hpath : "/p/lib/B.java" ∈ sources.map Source.path :=
    (hpaths _).2 ⟨"/p", by decide, by decide⟩
  obtain ⟨s, hs, hpath⟩ := List.mem_map.1 hpath
  refine ⟨sources, built, hbuilt, hindex, s, hs, hpath, ?_⟩
  exact (hflags s hs).2.2 (.inl ⟨"/p/lib", by decide, by rw [hpath]; decide⟩)

end IndexPlan
end CallOrigins.Java
