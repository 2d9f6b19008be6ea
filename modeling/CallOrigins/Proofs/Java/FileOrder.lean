import CallOrigins.Proofs.Java.Reported
import CallOrigins.Proofs.Java.SameReferences
import CallOrigins.Proofs.Java.Supertypes
import CallOrigins.Proofs.Search.Reordering

/-!
# The order of source files

Merging files in another order gives the same index under other numbers. Two files that change
places exchange two blocks of types and two blocks of methods (`blockSwap`), and every permutation
is made of such exchanges.

**The law** (`search_reordered_files`): where no name of a type and no identifier of a method is
declared in two files, the order of the files makes no difference to the references, nor to the rows
of a search. The names that are made up for anonymous types count, as one of them can be the name of a
class in another file (`exists_reordered_differ`).
-/

namespace CallOrigins

/-! ## Blocks that change places -/

/-- Exchanges a block of `a` numbers from `n` on with the block of `b` numbers after it. -/
def blockSwap (n a b : Nat) : Equiv.Perm Nat where
  toFun i := if i < n then i else if i < n + a then i + b else if i < n + a + b then i - a else i
  invFun i := if i < n then i else if i < n + b then i + a else if i < n + b + a then i - b else i
  left_inv i := by
    dsimp only
    split_ifs <;> omega
  right_inv i := by
    dsimp only
    split_ifs <;> omega

section BlockSwap

variable {n a b i : Nat}

theorem blockSwap_of_lt (h : i < n) : blockSwap n a b i = i :=
  if_pos h

theorem blockSwap_first (h : i < a) : blockSwap n a b (i + n) = i + (n + b) := by
  change (if i + n < n then _ else if i + n < n + a then i + n + b else _) = _
  rw [if_neg (by omega), if_pos (by omega)]
  omega

theorem blockSwap_second (h : i < b) : blockSwap n a b (i + (n + a)) = i + n := by
  change (if i + (n + a) < n then _ else if i + (n + a) < n + a then _ else
    if i + (n + a) < n + a + b then i + (n + a) - a else _) = _
  rw [if_neg (by omega), if_neg (by omega), if_pos (by omega)]
  omega

theorem blockSwap_of_le (h : n + a + b ≤ i) : blockSwap n a b i = i := by
  change (if i < n then _ else if i < n + a then _ else if i < n + a + b then _ else i) = _
  rw [if_neg (by omega), if_neg (by omega), if_neg (by omega)]

end BlockSwap

section Arrays

variable {α κ μ : Type} {σ τ : Equiv.Perm Nat} {g h : α → α} {as as' as'' bs bs' cs cs' : Array α}

theorem getElem?_first {i : Nat} (h : i < as.size) : (as ++ bs ++ cs)[i]? = as[i]? := by
  rw [Array.append_assoc, Array.getElem?_append_left h]

theorem getElem?_second {k : Nat} (h : k < bs.size) :
    (as ++ bs ++ cs)[k + as.size]? = bs[k]? := by
  rw [Array.append_assoc, Array.getElem?_append_right (Nat.le_add_left ..), Nat.add_sub_cancel,
    Array.getElem?_append_left h]

theorem getElem?_third {k : Nat} : (as ++ bs ++ cs)[k + (as.size + bs.size)]? = cs[k]? := by
  rw [Array.getElem?_append_right (by simp), Array.size_append, Nat.add_sub_cancel]

namespace Moves

theorem refl (as : Array α) : Moves (Equiv.refl Nat) id as as :=
  ⟨fun _ => Option.map_id'.symm, fun _ _ => rfl⟩

theorem trans (m : Moves σ g as as') (m' : Moves τ h as' as'') :
    Moves (σ.trans τ) (h ∘ g) as as'' where
  get i := by rw [Equiv.trans_apply, m'.get, m.get, Option.map_map]
  fixed i hi := by rw [Equiv.trans_apply, m.fixed i hi, m'.fixed i (m.size_eq ▸ hi)]

/-- New entries at the end stay in their places. -/
theorem append (m : Moves σ g as as') (hbs : bs' = bs.map g) :
    Moves σ g (as ++ bs) (as' ++ bs') where
  get i := by
    subst hbs
    rcases Nat.lt_or_ge i as.size with hi | hi
    · have hi' : σ i < as'.size := by rwa [m.size_eq, m.lt_size]
      rw [Array.getElem?_append_left hi', Array.getElem?_append_left hi, m.get]
    · have hi' : as'.size ≤ i := by rwa [m.size_eq]
      rw [m.fixed i hi, Array.getElem?_append_right hi', Array.getElem?_append_right hi,
        Array.getElem?_map, m.size_eq]
  fixed i hi := m.fixed i (by rw [Array.size_append] at hi; omega)

/-- Two blocks at the end change places. -/
theorem swap {a b : Nat} (ha : bs.size = a) (hb : cs.size = b) (has : as.map g = as)
    (hbs : bs.map g = bs') (hcs : cs.map g = cs') :
    Moves (blockSwap as.size a b) g (as ++ bs ++ cs) (as ++ cs' ++ bs') where
  get i := by
    subst ha hb hbs hcs
    rcases Nat.lt_or_ge i as.size with hi | hi
    · rw [blockSwap_of_lt hi, getElem?_first hi, getElem?_first hi, ← Array.getElem?_map, has]
    obtain ⟨k, rfl⟩ := Nat.exists_eq_add_of_le' hi
    rcases Nat.lt_or_ge k bs.size with hk | hk
    · have hthird := @getElem?_third _ as (cs.map g) (bs.map g) k
      rw [Array.size_map] at hthird
      rw [blockSwap_first hk, getElem?_second hk, hthird, Array.getElem?_map]
    obtain ⟨j, rfl⟩ := Nat.exists_eq_add_of_le' hk
    rw [Nat.add_assoc, Nat.add_comm bs.size, getElem?_third]
    rcases Nat.lt_or_ge j cs.size with hj | hj
    · rw [blockSwap_second hj, getElem?_second (by rwa [Array.size_map]), Array.getElem?_map]
    · rw [blockSwap_of_le (by omega), Array.getElem?_eq_none (by simp; omega),
        Array.getElem?_eq_none hj]
      rfl
  fixed i hi := blockSwap_of_le (by simpa [ha, hb, Nat.add_assoc] using hi)

end Moves

namespace KeepsOrder

theorem refl (key : α → κ) (as : Array α) : KeepsOrder (Equiv.refl Nat) key as :=
  fun _ _ _ _ _ _ _ hlt => hlt

theorem trans {key : α → κ} (k : KeepsOrder σ key as) (m : Moves σ g as as')
    (k' : KeepsOrder τ key as') (hkey : ∀ x y, key x = key y → key (g x) = key (g y)) :
    KeepsOrder (σ.trans τ) key as := by
  intro i j x y hx hy hxy hlt
  refine k' _ _ (g x) (g y) ?_ ?_ (hkey x y hxy) (k i j x y hx hy hxy hlt)
  · rw [m.get, hx]
    rfl
  · rw [m.get, hy]
    rfl

theorem append {key : α → κ} (k : KeepsOrder σ key as) (m : Moves σ g as as') (bs : Array α) :
    KeepsOrder σ key (as ++ bs) := by
  intro i j x y hx hy hxy hlt
  rcases Nat.lt_or_ge j as.size with hj | hj
  · rw [Array.getElem?_append_left (by omega)] at hx
    rw [Array.getElem?_append_left hj] at hy
    exact k i j x y hx hy hxy hlt
  · rw [m.fixed j hj]
    rcases Nat.lt_or_ge i as.size with hi | hi
    · have hi' := (m.lt_size i).2 hi
      omega
    · rwa [m.fixed i hi]

/-- Blocks without a common key. -/
theorem swap {key : α → κ} {a b : Nat} (ha : bs.size = a) (hb : cs.size = b)
    (hkeys : ∀ x ∈ bs, ∀ y ∈ cs, key x ≠ key y) :
    KeepsOrder (blockSwap as.size a b) key (as ++ bs ++ cs) := by
  subst ha hb
  intro i j x y hx hy hxy hlt
  have hj := (Array.getElem?_eq_some_iff.1 hy).1
  simp only [Array.size_append] at hj
  have hclash : ¬ (as.size ≤ i ∧ i < as.size + bs.size ∧ as.size + bs.size ≤ j) := by
    rintro ⟨hi, hi', hj'⟩
    rw [Array.getElem?_append_left (by simpa using hi'), Array.getElem?_append_right hi] at hx
    rw [Array.getElem?_append_right (by simpa using hj')] at hy
    exact hkeys x (Array.mem_of_getElem? hx) y (Array.mem_of_getElem? hy) hxy
  simp only [blockSwap, Equiv.coe_fn_mk]
  split_ifs <;> omega

end KeepsOrder

end Arrays

namespace Java

/-- No type of one file has the name of a type of the other, and no method the identifier of a
method of the other. -/
def SourceFile.Apart (f g : SourceFile) : Prop :=
  (∀ t ∈ f.outline.types, ∀ u ∈ g.outline.types, t.name ≠ u.name) ∧
    ∀ m ∈ f.outline.methods, ∀ m' ∈ g.outline.methods, m.id ≠ m'.id

theorem SourceFile.Apart.symm {f g : SourceFile} (h : f.Apart g) : g.Apart f :=
  ⟨fun t ht u hu heq => h.1 u hu t ht heq.symm, fun m hm m' hm' heq => h.2 m' hm' m hm heq.symm⟩

namespace Index

/-! ## The same file at the end -/

theorem renumber_shiftType {file type : Nat → Nat} {n n' base base' : Nat} {t : TypeDecl}
    (hfile : file n = n') (htype : ∀ o, t.outer = some o → type (o + base) = o + base') :
    (shiftType n base t).renumber file type = shiftType n' base' t := by
  cases houter : t.outer with
  | none => simp [IndexedType.renumber, shiftType, houter, hfile]
  | some o => simp [IndexedType.renumber, shiftType, houter, hfile, htype o houter]

theorem renumber_shiftMethod {file type : Nat → Nat} {n n' base base' : Nat} {m : MethodDecl}
    (hfile : file n = n') (htype : type (m.type + base) = m.type + base') :
    (shiftMethod n base m).renumber file type = shiftMethod n' base' m := by
  simp [IndexedMethod.renumber, shiftMethod, hfile, htype]

variable {ix ix' ix'' : Index} {f g : SourceFile}

theorem Admits.addFile (h : ix.Admits g) (apart : f.Apart g) : (ix.addFile f).Admits g := by
  intro d hd m hm
  rcases mem_methods_addFile hd with hd | ⟨m', hm', rfl⟩
  · exact h d hd m hm
  · exact apart.2 m' hm' m hm

namespace Renumbering

def refl (ix : Index) : Renumbering ix ix where
  file := Equiv.refl Nat
  type := Equiv.refl Nat
  method := Equiv.refl Nat
  files := .refl _
  types := by
    have hid : IndexedType.renumber (Equiv.refl Nat) (Equiv.refl Nat) = id := by
      funext t
      simp [IndexedType.renumber]
    rw [hid]
    exact .refl _
  methods := .refl _
  typesOrdered := .refl _ _
  methodsOrdered := .refl _ _

def trans (R : Renumbering ix ix') (R' : Renumbering ix' ix'') : Renumbering ix ix'' where
  file := R.file.trans R'.file
  type := R.type.trans R'.type
  method := R.method.trans R'.method
  files := R.files.trans R'.files
  types := by
    have hcomp : IndexedType.renumber (R.file.trans R'.file) (R.type.trans R'.type) =
        IndexedType.renumber R'.file R'.type ∘ IndexedType.renumber R.file R.type := by
      funext t
      simp [IndexedType.renumber, Equiv.coe_trans]
    rw [hcomp]
    exact R.types.trans R'.types
  methods := R.methods.trans R'.methods
  typesOrdered := R.typesOrdered.trans R.types R'.typesOrdered fun _ _ h => h
  methodsOrdered := R.methodsOrdered.trans R.methods R'.methodsOrdered
    fun _ _ h => congrArg R.file h

theorem admits (R : Renumbering ix ix') (h : ix.Admits f) : ix'.Admits f := by
  intro d' hd' m hm
  obtain ⟨j, hj⟩ := Array.mem_iff_getElem?.1 hd'
  obtain ⟨i, d, -, hd, rfl⟩ := R.methods.exists_of_get hj
  exact h d (Array.mem_of_getElem? hd) m hm

/-- The same file at the end of both. -/
def addFile (R : Renumbering ix ix') (h : ix.Admits f) :
    Renumbering (ix.addFile f) (ix'.addFile f) where
  file := R.file
  type := R.type
  method := R.method
  files := by
    rw [files_addFile, files_addFile, Array.push_eq_append, Array.push_eq_append]
    exact R.files.append (by simp)
  types := by
    rw [types_addFile, types_addFile, R.files.size_eq, R.types.size_eq]
    refine R.types.append ?_
    rw [Array.map_map]
    have hfile := R.files.fixed _ (Nat.le_refl _)
    refine Array.map_congr_left fun t _ => (renumber_shiftType hfile ?_).symm
    exact fun o _ => R.types.fixed _ (Nat.le_add_left ..)
  methods := by
    rw [h.methods_addFile, (R.admits h).methods_addFile, R.files.size_eq, R.types.size_eq]
    refine R.methods.append ?_
    rw [List.map_toArray, List.map_map]
    congr 1
    have hfile := R.files.fixed _ (Nat.le_refl _)
    refine List.map_congr_left fun m _ => (renumber_shiftMethod hfile ?_).symm
    exact R.types.fixed _ (Nat.le_add_left ..)
  typesOrdered := by
    rw [types_addFile]
    exact R.typesOrdered.append R.types _
  methodsOrdered := by
    rw [h.methods_addFile]
    exact R.methodsOrdered.append R.methods _

/-! ## Two files that change places -/

/-- The numbers of two files that change places. -/
theorem blockSwap_one (n : Nat) : blockSwap n 1 1 n = n + 1 ∧ blockSwap n 1 1 (n + 1) = n := by
  have hfirst := @blockSwap_first n 1 1 0 Nat.one_pos
  have hsecond := @blockSwap_second n 1 1 0 Nat.one_pos
  rw [Nat.zero_add, Nat.zero_add] at hfirst hsecond
  exact ⟨hfirst, hsecond⟩

section Swap

variable (wf : ix.WellFormed) (unlinked : ∀ t ∈ ix.types, t.supers = []) (hf : f.IsRead)
  (hg : g.IsRead) (admitsF : ix.Admits f) (admitsG : ix.Admits g) (apart : f.Apart g)

include wf unlinked in
/-- What was merged before does not point to the two files. -/
theorem map_renumber_types {a b : Nat} : ix.types.map (IndexedType.renumber
    (blockSwap ix.files.size 1 1) (blockSwap ix.types.size a b)) = ix.types := by
  refine (Array.map_congr_left fun t ht => ?_).trans (Array.map_id _)
  obtain ⟨i, hi⟩ := Array.mem_iff_getElem?.1 ht
  have hlt := (Array.getElem?_eq_some_iff.1 hi).1
  have houter : t.decl.outer.map (blockSwap ix.types.size a b) = t.decl.outer := by
    cases ho : t.decl.outer with
    | none => rfl
    | some o => rw [Option.map_some, blockSwap_of_lt (Nat.lt_trans (wf.nested i t o hi ho) hlt)]
  rw [IndexedType.renumber, houter, blockSwap_of_lt (wf.typeFile t ht), unlinked t ht]
  exact congrArg (IndexedType.mk t.decl t.file) (unlinked t ht).symm

include wf in
theorem map_renumber_methods {a b : Nat} : ix.methods.map (IndexedMethod.renumber
    (blockSwap ix.files.size 1 1) (blockSwap ix.types.size a b)) = ix.methods := by
  refine (Array.map_congr_left fun d hd => ?_).trans (Array.map_id _)
  rw [IndexedMethod.renumber, blockSwap_of_lt (wf.methodType d hd),
    blockSwap_of_lt (wf.methodFile d hd)]
  rfl

include hf in
theorem type_lt {m : MethodDecl} (hm : m ∈ f.kept) : m.type < f.outline.types.size := by
  obtain ⟨t, ht, -⟩ := hf.named.methods m
    (Array.mem_toList_iff.1 ((freshBy_sublist ..).subset hm))
  exact (Array.getElem?_eq_some_iff.1 ht).1

/-- Two files at the end change places. -/
def swapFiles : Renumbering ((ix.addFile f).addFile g) ((ix.addFile g).addFile f) where
  file := blockSwap ix.files.size 1 1
  type := blockSwap ix.types.size f.outline.types.size g.outline.types.size
  method := blockSwap ix.methods.size f.kept.length g.kept.length
  files := by
    simp only [files_addFile, Array.push_eq_append]
    exact Moves.swap rfl rfl (Array.map_id _) (Array.map_id _) (Array.map_id _)
  types := by
    obtain ⟨hfirst, hsecond⟩ := blockSwap_one ix.files.size
    simp only [types_addFile, size_files_addFile, Array.size_append, Array.size_map]
    refine Moves.swap (Array.size_map ..) (Array.size_map ..) (map_renumber_types wf unlinked) ?_ ?_
    · rw [Array.map_map]
      refine Array.map_congr_left fun t ht => renumber_shiftType hfirst fun o ho => ?_
      exact blockSwap_first (hf.outer_lt ht ho)
    · rw [Array.map_map]
      refine Array.map_congr_left fun t ht => renumber_shiftType hsecond fun o ho => ?_
      exact blockSwap_second (hg.outer_lt ht ho)
  methods := by
    obtain ⟨hfirst, hsecond⟩ := blockSwap_one ix.files.size
    rw [(admitsG.addFile apart).methods_addFile, admitsF.methods_addFile,
      (admitsF.addFile apart.symm).methods_addFile, admitsG.methods_addFile]
    simp only [size_files_addFile, size_types_addFile]
    refine Moves.swap (by simp) (by simp) (map_renumber_methods wf) ?_ ?_
    · rw [List.map_toArray, List.map_map]
      refine congrArg List.toArray (List.map_congr_left fun m hm => ?_)
      exact renumber_shiftMethod hfirst (blockSwap_first (type_lt hf hm))
    · rw [List.map_toArray, List.map_map]
      refine congrArg List.toArray (List.map_congr_left fun m hm => ?_)
      exact renumber_shiftMethod hsecond (blockSwap_second (type_lt hg hm))
  typesOrdered := by
    rw [types_addFile, types_addFile]
    refine KeepsOrder.swap (Array.size_map ..) (Array.size_map ..) fun x hx y hy => ?_
    obtain ⟨t, ht, rfl⟩ := Array.mem_map.1 hx
    obtain ⟨u, hu, rfl⟩ := Array.mem_map.1 hy
    exact apart.1 t ht u hu
  methodsOrdered := by
    rw [(admitsG.addFile apart).methods_addFile, admitsF.methods_addFile]
    refine KeepsOrder.swap (by simp) (by simp) fun x hx y hy => ?_
    obtain ⟨m, -, rfl⟩ := List.mem_map.1 (List.mem_toArray.1 hx)
    obtain ⟨m', -, rfl⟩ := List.mem_map.1 (List.mem_toArray.1 hy)
    rw [size_files_addFile]
    exact Nat.ne_of_lt (Nat.lt_succ_self ix.files.size)

end Swap

end Renumbering

/-! ## All files in another order -/

/-- Files that can be merged into an index: they were read, they are apart from each other, and
none of their identifiers is taken. -/
structure Mergeable (ix : Index) (files : List SourceFile) : Prop where
  wellFormed : ix.WellFormed
  unlinked : ∀ t ∈ ix.types, t.supers = []
  read : ∀ f ∈ files, f.IsRead
  apart : files.Pairwise SourceFile.Apart
  admits : ∀ f ∈ files, ix.Admits f

namespace Mergeable

variable {files files' : List SourceFile}

theorem addFile (h : ix.Mergeable (f :: files)) : (ix.addFile f).Mergeable files where
  wellFormed := h.wellFormed.addFile (h.read f List.mem_cons_self)
  unlinked _ ht := @supers_foldl_addFile ix [f] h.unlinked _ ht
  read g hg := h.read g (List.mem_cons_of_mem _ hg)
  apart := (List.pairwise_cons.1 h.apart).2
  admits g hg := (h.admits g (List.mem_cons_of_mem _ hg)).addFile
    ((List.pairwise_cons.1 h.apart).1 g hg)

theorem perm (h : ix.Mergeable files) (perm : files.Perm files') : ix.Mergeable files' where
  wellFormed := h.wellFormed
  unlinked := h.unlinked
  read f hf := h.read f (perm.mem_iff.2 hf)
  apart := (perm.pairwise_iff fun hfg => hfg.symm).1 h.apart
  admits f hf := h.admits f (perm.mem_iff.2 hf)

end Mergeable

variable {files files' : List SourceFile}

/-- The same files at the end of both. -/
theorem Renumbering.nonempty_foldl (R : Renumbering ix ix') (h : ix.Mergeable files) :
    Nonempty (Renumbering (files.foldl Index.addFile ix) (files.foldl Index.addFile ix')) := by
  induction files generalizing ix ix' with
  | nil => exact ⟨R⟩
  | cons f files ih => exact ih (R.addFile (h.admits f List.mem_cons_self)) h.addFile

/-- **Another order of files is another numbering.** -/
theorem Mergeable.nonempty_renumbering (h : ix.Mergeable files) (perm : files.Perm files') :
    Nonempty (Renumbering (files.foldl Index.addFile ix) (files'.foldl Index.addFile ix)) := by
  induction perm generalizing ix with
  | nil => exact ⟨.refl ix⟩
  | cons f _ ih => exact ih h.addFile
  | swap g f files =>
    have hapart := (List.pairwise_cons.1 h.apart).1 g List.mem_cons_self
    have R := Renumbering.swapFiles h.wellFormed h.unlinked (h.read f (by simp))
      (h.read g (by simp)) (h.admits f (by simp)) (h.admits g (by simp)) hapart
    exact R.nonempty_foldl h.addFile.addFile
  | trans perm _ ih ih' =>
    obtain ⟨R⟩ := ih h
    obtain ⟨R'⟩ := ih' (h.perm perm)
    exact ⟨R.trans R'⟩

theorem nonempty_renumbering_ofFiles (perm : files.Perm files') (read : ∀ f ∈ files, f.IsRead)
    (apart : files.Pairwise SourceFile.Apart) :
    Nonempty (Renumbering (ofFiles files) (ofFiles files')) := by
  have hmergeable : Mergeable {} files := ⟨wellFormed_empty, by simp, read, apart, by simp [Admits]⟩
  obtain ⟨R⟩ := hmergeable.nonempty_renumbering perm
  exact ⟨R.linkSupers (wellFormed_foldl_addFile read wellFormed_empty)
    (wellFormed_foldl_addFile (hmergeable.perm perm).read wellFormed_empty)⟩

end Index
end Java

/-! ## The same search -/

/-- It counts only for the references that are found which methods enclose them. -/
theorem Findings.Complete.withEnclosing {cb : Codebase} {target : MethodId} {f : Findings}
    (h : f.Complete cb target) {enclosing : Reference → Option MethodId}
    (enclosing_mem : ∀ m rs, cb.references m = .ok rs → ∀ r ∈ rs, ∀ c, enclosing r = some c →
      c ∈ cb.callers)
    (agree : ∀ m, ∀ r ∈ cb.found m, enclosing r = cb.enclosing r) :
    f.Complete { cb with enclosing, enclosing_mem } target := by
  have hsites : ∀ m, Codebase.sites { cb with enclosing, enclosing_mem } (cb.found m) =
      cb.sites (cb.found m) := by
    refine fun m => List.filterMap_congr fun r hr => ?_
    rw [Codebase.callerAt?, Codebase.callerAt?]
    dsimp only
    rw [agree m r hr]
  have hcallers : Codebase.callersOf { cb with enclosing, enclosing_mem } = cb.callersOf :=
    funext fun m => congrArg (List.map Prod.fst) (hsites m)
  have hsources : Codebase.sourceCallersOf { cb with enclosing, enclosing_mem } =
      cb.sourceCallersOf :=
    funext fun m => congrArg cb.sourcesIn (congrFun hcallers m)
  have horder : Codebase.breadthFirst { cb with enclosing, enclosing_mem } target =
      cb.breadthFirst target :=
    congrArg (fun next => levelsFrom next (cb.callers.length + 1) [target] [target]) hsources
  refine ⟨fun e => ?_, h.marked_iff, ?_, ?_⟩
  · rw [h.edges_iff, hcallers, ← Codebase.mem_breadthFirst, ← Codebase.mem_breadthFirst, horder]
  · rw [h.directCalls_eq]
    exact congrArg (fun sites => (freshBy Codebase.siteKey [] sites).map (cb.directCall target))
      (hsites target).symm
  · rw [h.methodsSearched_eq, horder]

namespace Java.Index

variable {ix ix' : Index}

/-- The codebase of an index knows no failure but that of one query. -/
theorem references_ne_error (ix : Index) (m : MethodId) {fault : SearchFault}
    (h : ix.codebase.references m = .error fault) : ∃ message, fault = .query message := by
  change ix.references (fun _ => false) m = .error fault at h
  unfold references at h
  split at h
  · cases h
  · cases h
    exact ⟨_, rfl⟩

theorem answers_codebase (ix : Index) : ix.codebase.Answers := by
  intro m message h
  obtain ⟨_, hfault⟩ := ix.references_ne_error m h
  cases hfault

theorem not_reachesOutage_codebase (ix : Index) (target : MethodId) :
    ¬ ix.codebase.ReachesOutage target := by
  rintro ⟨m, message, -, -, h⟩
  obtain ⟨_, hfault⟩ := ix.references_ne_error m h
  cases hfault

/-- The references that an index finds name the methods that enclose them. -/
theorem exists_element_of_mem_references {m : MethodId} {rs : List Reference} {r : Reference}
    (h : ix.references (fun _ => false) m = .ok rs) (hr : r ∈ rs) :
    ∃ c ∈ ix.identifiers, r.element = some c := by
  unfold references at h
  split at h
  · cases h
    exact element_of_mem_referencesAmong _ _ hr
  · cases h

theorem enclosing_of_element {r : Reference} {c : MethodId} (h : r.element = some c) :
    ix.enclosing r = some c := by
  rw [enclosing, h]

theorem mem_references_of_mem_found {m : MethodId} {r : Reference} (h : r ∈ ix.codebase.found m) :
    ∃ rs, ix.references (fun _ => false) m = .ok rs ∧ r ∈ rs := by
  unfold Codebase.found at h
  split at h
  · split at h
    next rs hrs => exact ⟨rs, hrs, h⟩
    next => exact absurd h List.not_mem_nil
  · exact absurd h List.not_mem_nil

/-- The answers of an index, where another one says which methods enclose references. -/
def codebaseWithin (ix' ix : Index) : Codebase :=
  { ix'.codebase with
    enclosing := ix.enclosing
    enclosing_mem := by
      intro m rs hrs r hr c hc
      obtain ⟨c', hc', helement⟩ := exists_element_of_mem_references hrs hr
      cases (enclosing_of_element helement).symm.trans hc
      exact hc' }

namespace Renumbering

variable (R : Renumbering ix ix') (wf : ix.WellFormed) (wf' : ix'.WellFormed)

include R wf wf'

theorem fileOfMethod? (m : MethodId) :
    (ix'.method? m).bind ix'.fileOf? = (ix.method? m).bind ix.fileOf? := by
  rw [R.method? wf wf', Option.bind_map]
  exact congrArg _ (funext R.fileOf?)

theorem isPresent (m : MethodId) : ix'.isPresent m = ix.isPresent m := by
  rw [Index.isPresent, Index.isPresent, R.method? wf wf', Option.isSome_map]

theorem isExternal (m : MethodId) : ix'.isExternal m = ix.isExternal m := by
  rw [Index.isExternal, Index.isExternal, R.fileOfMethod? wf wf']

theorem line (m : MethodId) (offset : Nat) : ix'.line m offset = ix.line m offset := by
  rw [Index.line, Index.line, R.fileOfMethod? wf wf']

theorem arguments (caller target : MethodId) (offset length : Nat) :
    ix'.arguments caller target offset length = ix.arguments caller target offset length := by
  unfold Index.arguments argumentList callCovering
  rw [R.fileOfMethod? wf wf']

/-- The answers of the two indexes differ in the order of references alone. -/
theorem sameCalls : ix.codebase.SameCalls (ix'.codebaseWithin ix) where
  isPresent := funext fun m => R.isPresent wf wf' m
  isExternal := funext fun m => R.isExternal wf wf' m
  enclosing := rfl
  arguments := funext fun _ => funext fun _ => funext fun _ => funext fun _ =>
    R.arguments wf wf' _ _ _ _
  line := funext fun _ => funext fun _ => R.line wf wf' _ _
  references m := by
    change References.Alike (ix.references (fun _ => false) m) (ix'.references (fun _ => false) m)
    rcases R.references wf wf' m with ⟨fault, h, h'⟩ | ⟨rs, rs', h, h', agree⟩
    · rw [h, h']
      exact rfl
    · rw [h, h']
      exact .of_perm agree.perm.symm

/-- The call sites of a target are the same, in some order. -/
theorem callSites (target : MethodId) (present : ix.isPresent target = true) :
    ((ix'.codebaseWithin ix).callSites target).Perm (ix.codebase.callSites target) := by
  have present' : ix'.isPresent target = true := (R.isPresent wf wf' target).trans present
  have hfound : ix.codebase.found target = match ix.references (fun _ => false) target with
      | .ok rs => rs
      | .error _ => [] := if_pos present
  have hfound' : (ix'.codebaseWithin ix).found target =
      match ix'.references (fun _ => false) target with
      | .ok rs => rs
      | .error _ => [] := if_pos present'
  rw [Codebase.callSites, Codebase.callSites, hfound, hfound']
  rcases R.references wf wf' target with ⟨fault, h, h'⟩ | ⟨rs, rs', h, h', agree⟩
  · rw [h, h']
    exact .nil
  · rw [h, h']
    refine AgreeBy.freshBy_perm (agree.filterMap fun r hr r' hr' x y hx hy hkey => ?_)
    -- the caller of a call site is the method that the reference names
    obtain ⟨c, -, hc⟩ := exists_element_of_mem_references h' hr
    obtain ⟨c', -, hc'⟩ := exists_element_of_mem_references h' hr'
    have hcaller : ∀ {r : Reference} {c : MethodId} {x : MethodId × Reference},
        r.element = some c →
        ((ix'.codebaseWithin ix).callerAt? r).map (fun c => (c, r)) = some x → x = (c, r) := by
      intro r c x hc hx
      obtain ⟨caller, hcaller, rfl⟩ := Option.map_eq_some_iff.1 hx
      unfold Codebase.callerAt? at hcaller
      split at hcaller
      · cases (enclosing_of_element hc).symm.trans hcaller
        rfl
      · cases hcaller
    rw [hcaller hc hx, hcaller hc' hy] at hkey
    obtain ⟨hcallers, hoffset⟩ := Prod.mk.inj hkey
    rw [hc, hc', show c = c' from hcallers, show r.offset = r'.offset from hoffset]

/-- **The same report**: the rows are the same, in some order, and so are the numbers. -/
theorem search (target : MethodId) (present : ix.isPresent target = true) :
    ∃ report report' : Report,
      (ix.codebase.search .never target).outcome = .finished report ∧
      (ix'.codebase.search .never target).outcome = .finished report' ∧
      report.rows.Perm report'.rows ∧ report'.directCalls = report.directCalls ∧
      report'.methodsSearched = report.methodsSearched ∧ report'.edges = report.edges := by
  have present' : ix'.isPresent target = true := (R.isPresent wf wf' target).trans present
  obtain ⟨f, hf, houtcome⟩ := ix.answers_codebase.search_of_available present
    (ix.not_reachesOutage_codebase target)
  obtain ⟨f', hf', houtcome'⟩ := ix'.answers_codebase.search_of_available present'
    (ix'.not_reachesOutage_codebase target)
  have hf'' : f'.Complete (ix'.codebaseWithin ix) target := hf'.withEnclosing _ fun m r hr => by
    obtain ⟨rs, hrs, hr⟩ := mem_references_of_mem_found hr
    obtain ⟨c, -, hc⟩ := exists_element_of_mem_references hrs hr
    exact (enclosing_of_element hc).trans (enclosing_of_element hc).symm
  have same := R.sameCalls wf wf'
  have hsites := R.callSites wf wf' target present
  refine ⟨f.reported, f'.reported, houtcome, houtcome', ?_, ?_,
    hf.methodsSearched_eq_of_same hf'' same, hf.edgeCount_eq hf'' same⟩
  · rw [hf.rows_eq_flatMap, hf''.rows_eq_flatMap]
    refine List.Perm.trans ?_ (hsites.symm.flatMap_right _)
    refine List.Perm.of_eq (List.flatMap_congr fun site hsite => ?_)
    exact (hf.rowsOf_eq hf'' same (Codebase.caller_mem_of_mem_callSites hsite)).symm
  · rw [hf.directCalls_reported, hf''.directCalls_reported, hsites.length_eq]

end Renumbering

/-- **The order of files does not matter.** Where no name of a type, anonymous types included, and
no identifier of a method is declared in two files, merging the files in another order gives an
index with the same references to every method, each of them as often. It has the same methods and
the same external ones, and every search fails alike, or it reports the same rows and numbers. -/
theorem search_reordered_files (files files' : List SourceFile) (perm : files.Perm files')
    (read : ∀ f ∈ files, f.IsRead) (apart : files.Pairwise SourceFile.Apart) :
    (∀ m, (∃ fault, (ofFiles files).references (fun _ => false) m = .error fault ∧
        (ofFiles files').references (fun _ => false) m = .error fault) ∨
      ∃ rs rs', (ofFiles files).references (fun _ => false) m = .ok rs ∧
        (ofFiles files').references (fun _ => false) m = .ok rs' ∧ rs.Perm rs') ∧
    (∀ m, (ofFiles files').isPresent m = (ofFiles files).isPresent m) ∧
    (∀ m, (ofFiles files').isExternal m = (ofFiles files).isExternal m) ∧
    ∀ target,
      (∃ why, ((ofFiles files).codebase.search .never target).outcome = .failed why ∧
        ((ofFiles files').codebase.search .never target).outcome = .failed why) ∨
      ∃ report report' : Report,
        ((ofFiles files).codebase.search .never target).outcome = .finished report ∧
        ((ofFiles files').codebase.search .never target).outcome = .finished report' ∧
        report.rows.Perm report'.rows ∧ report'.directCalls = report.directCalls ∧
        report'.methodsSearched = report.methodsSearched ∧ report'.edges = report.edges := by
  obtain ⟨R⟩ := nonempty_renumbering_ofFiles perm read apart
  have wf := wellFormed_ofFiles read
  have wf' := wellFormed_ofFiles fun f hf => read f (perm.mem_iff.2 hf)
  refine ⟨fun m => ?_, R.isPresent wf wf', R.isExternal wf wf', fun target => ?_⟩
  · refine (R.references wf wf' m).imp_right ?_
    rintro ⟨rs, rs', h, h', agree⟩
    exact ⟨rs, rs', h, h', agree.perm.symm⟩
  · cases present : (ofFiles files).isPresent target with
    | true => exact .inr (R.search wf wf' target present)
    | false =>
      have present' := (R.isPresent wf wf' target).trans present
      have hfails := @Codebase.search_of_not_present (ofFiles files).codebase target present
      have hfails' := @Codebase.search_of_not_present (ofFiles files').codebase target present'
      rw [hfails, hfails']
      exact .inl ⟨_, rfl, rfl⟩

theorem heirFiles_apart : heirFiles.Pairwise SourceFile.Apart := by
  refine List.pairwise_pair.2 ⟨?_, ?_⟩
  · decide +kernel
  · decide +kernel

/-- A class and one that extends it, in the other order. -/
theorem heirFiles_reordered :
    heirFiles.Perm heirFiles.reverse ∧ (∀ f ∈ heirFiles, f.IsRead) ∧
    heirFiles.Pairwise SourceFile.Apart ∧
    ∃ rs, (ofFiles heirFiles.reverse).references (fun _ => false) ⟨"Foo#Foo()"⟩ = .ok rs ∧
      heirReference ∈ rs := by
  have perm : heirFiles.Perm heirFiles.reverse := (List.reverse_perm _).symm
  refine ⟨perm, isRead_heirFiles, heirFiles_apart, ?_⟩
  have hfound := references_eq_reported (ofFiles heirFiles) ⟨"Foo#Foo()"⟩
  rw [if_pos (by decide +kernel)] at hfound
  rcases (search_reordered_files heirFiles heirFiles.reverse perm isRead_heirFiles
    heirFiles_apart).1 ⟨"Foo#Foo()"⟩ with ⟨fault, hfault, -⟩ | ⟨rs, rs', hrs, hrs', hperm⟩
  · rw [hfound] at hfault
    cases hfault
  · rw [hfound] at hrs
    rw [← Except.ok.inj hrs] at hperm
    have hreported := List.mem_map_of_mem (f := Prod.snd) heirReference_mem_reported
    exact ⟨rs', hrs', hperm.mem_iff.1 hreported⟩

/-! ## Where the order matters -/

/-- The names that are declared for the types of a file. Those of anonymous types are made up. -/
def declaredNames (f : SourceFile) : List String :=
  (f.outline.types.toList.filter (fun t => t.kind != .anonymousType)).map TypeDecl.name

/-- A class with an anonymous type, which gets the name `A$1$B`. -/
def anonymousTree : Node :=
  .branch none .program [
    .branch none .classDeclaration [
      sign "" "class" 0,
      token (some .name) .identifier " " "A" 6,
      braced .classBody 8 [
        .branch none .fieldDeclaration [
          token (some .type) .typeIdentifier " " "Object" 10,
          .branch (some .declarator) .variableDeclarator [
            token (some .name) .identifier " " "o" 17,
            sign " " "=" 19,
            .branch (some .value) .objectCreationExpression [
              sign " " "new" 21,
              token (some .type) .typeIdentifier " " "B" 25,
              noArguments 26,
              .branch none .classBody [
                sign " " "\x7b" 29,
                sign " " "\x7d" 31]]],
          sign "" ";" 32]] 34]]

/-- A class that is declared by the name of that type, and a call of its method. -/
def namesakeTree : Node :=
  .branch none .program [
    .branch none .classDeclaration [
      sign "" "class" 0,
      token (some .name) .identifier " " "A$1$B" 6,
      braced .classBody 12 [
        .branch none .methodDeclaration [
          token (some .type) .voidType " " "void" 14,
          token (some .name) .identifier " " "h" 19,
          noParameters 20,
          braced .block 23 [] 25]] 27],
    .branch none .classDeclaration [
      sign " " "class" 29,
      token (some .name) .identifier " " "C" 35,
      braced .classBody 37 [
        .branch none .methodDeclaration [
          token (some .type) .voidType " " "void" 39,
          token (some .name) .identifier " " "f" 44,
          .branch (some .parameters) .formalParameters [
            sign "" "(" 45,
            .branch none .formalParameter [
              token (some .type) .typeIdentifier "" "A$1$B" 46,
              token (some .name) .identifier " " "b" 52],
            sign "" ")" 53],
          braced .block 55 [
            .branch none .expressionStatement [
              .branch none .methodInvocation [
                token (some .object) .identifier " " "b" 57,
                sign "" "." 58,
                token (some .name) .identifier "" "h" 59,
                noArguments 60],
              sign "" ";" 62]] 64]] 66]]

/-- The two files, the anonymous type first. -/
def namesakeFiles : List SourceFile :=
  [fileOf "A.java" "class A \x7b Object o = new B() \x7b \x7d; \x7d" anonymousTree,
   fileOf "B.java"
    "class A$1$B \x7b void h() \x7b \x7d \x7d class C \x7b void f(A$1$B b) \x7b b.h(); \x7d \x7d"
    namesakeTree]

/-- Of the types with one name a call means the first, so the name of an anonymous type in another
file can hide the declared one. -/
theorem exists_reordered_differ : ∃ (files files' : List SourceFile) (m : MethodId) (r : Reference),
    files.Perm files' ∧ (∀ f ∈ files, f.IsRead) ∧ (files.flatMap declaredNames).Nodup ∧
    (files.flatMap fun f => f.outline.methods.toList.map MethodDecl.id).Nodup ∧
    (ofFiles files).references (fun _ => false) m = .ok [] ∧
    (ofFiles files').references (fun _ => false) m = .ok [r] := by
  refine ⟨namesakeFiles, namesakeFiles.reverse, ⟨"A$1$B#h()"⟩,
    ⟨"B.java", 59, 3, .exact, some ⟨"C#f(A$1$B)"⟩⟩, (List.reverse_perm _).symm,
    by simp [namesakeFiles, isRead_fileOf], by decide +kernel, by decide +kernel, ?_, ?_⟩
  · have hsites : (searchNames ⟨"A$1$B#h()"⟩).flatMap (ofFiles namesakeFiles).sitesNamed =
        [⟨1, 0⟩] := by decide +kernel
    exact references_of_site (by decide +kernel) hsites (by decide +kernel)
  · have hsites : (searchNames ⟨"A$1$B#h()"⟩).flatMap (ofFiles namesakeFiles.reverse).sitesNamed =
        [⟨1, 0⟩] := by decide +kernel
    exact references_of_site (by decide +kernel) hsites (by decide +kernel)

end Java.Index
end CallOrigins
