import CallOrigins.Java.Index.References
import Mathlib.Data.List.Basic
import Std.Data.TreeMap.Lemmas

/-!
# The tables of an index are scans of it

The tables of an index are filled by two loops. What a table holds under a key is told here by the
types and methods themselves: the entries with this key, in their order, and where a key has one entry
only, the first or the last of them. Each loop changes a table in one of four ways, and for each way one
lemma says what many changes come to. An index carries tables that are filled from its own types and
methods, so all look-ups are scans (`Index.typeNamed?_eq`, `Index.members_eq`, `Index.sitesNamed_eq`
and so on).
-/

namespace CallOrigins.Java

/-! ## Many entries -/

namespace Lookups

section Entries

variable {α β κ : Type} [DecidableEq κ] {cmp : κ → κ → Ordering} [Std.TransCmp cmp]
  [Std.LawfulEqCmp cmp] (key : α → κ) (value : α → β)

/-- Of several entries under a key the last one is kept. -/
theorem getElem?_foldl_insert (xs : List α) (t : Std.TreeMap κ β cmp) (k : κ) :
    (xs.foldl (fun t x => t.insert (key x) (value x)) t)[k]? =
      ((xs.reverse.find? (fun x => decide (key x = k))).map value).or t[k]? := by
  induction xs generalizing t with
  | nil => rfl
  | cons x xs ih =>
    rw [List.foldl_cons, ih, Std.TreeMap.getElem?_insert, List.reverse_cons, List.find?_append]
    simp only [Std.LawfulEqCmp.compare_eq_iff_eq]
    cases xs.reverse.find? (fun x => decide (key x = k)) with
    | some => rfl
    | none => by_cases hk : key x = k <;> simp [hk]

/-- Of several entries under a key the first one is kept. -/
theorem getElem?_foldl_insertIfNew (xs : List α) (t : Std.TreeMap κ β cmp) (k : κ) :
    (xs.foldl (fun t x => t.insertIfNew (key x) (value x)) t)[k]? =
      t[k]?.or ((xs.find? (fun x => decide (key x = k))).map value) := by
  induction xs generalizing t with
  | nil => simp
  | cons x xs ih =>
    rw [List.foldl_cons, ih, Std.TreeMap.getElem?_insertIfNew, List.find?_cons]
    simp only [Std.LawfulEqCmp.compare_eq_iff_eq]
    by_cases hk : key x = k
    · subst hk
      cases hold : t[key x]? with
      | none =>
        have hnew : key x ∉ t := by
          rw [Std.TreeMap.mem_iff_isSome_getElem?, hold]
          simp
        simp [hnew]
      | some old =>
        have hmem : key x ∈ t := by
          rw [Std.TreeMap.mem_iff_isSome_getElem?, hold]
          rfl
        simp [hmem]
    · simp [hk]

/-- All entries under a key are kept, in their order. -/
theorem getD_foldl_push (xs : List α) (t : Std.TreeMap κ (Array β) cmp) (k : κ) :
    (xs.foldl (fun t x => push t (key x) (value x)) t).getD k #[] =
      t.getD k #[] ++ ((xs.filter (fun x => decide (key x = k))).map value).toArray := by
  induction xs generalizing t with
  | nil => simp
  | cons x xs ih =>
    rw [List.foldl_cons, ih, push, Std.TreeMap.getD_insert]
    simp only [Std.LawfulEqCmp.compare_eq_iff_eq]
    by_cases hk : key x = k
    · simp [hk]
    · simp [hk]

/-- What a table holds under a key, if it was empty before. -/
theorem toList_getD_foldl_push (xs : List α) (k : κ) :
    ((xs.foldl (fun t x => push t (key x) (value x)) (∅ : Std.TreeMap κ (Array β) cmp)).getD k
      #[]).toList = (xs.filter (fun x => decide (key x = k))).map value := by
  rw [getD_foldl_push, Std.TreeMap.getD_emptyc]
  simp

/-- All entries under a number in range are kept, in their order. -/
theorem getD_foldl_modify (key : α → Nat) (xs : List α) (t : Array (Array β)) (k : Nat) :
    (xs.foldl (fun t x => t.modify (key x) (fun bs => bs.push (value x))) t).getD k #[] =
      if k < t.size then
        t.getD k #[] ++ ((xs.filter (fun x => decide (key x = k))).map value).toArray
      else #[] := by
  induction xs generalizing t with
  | nil => by_cases hk : k < t.size <;> simp [hk]
  | cons x xs ih =>
    rw [List.foldl_cons, ih, Array.size_modify]
    by_cases hk : k < t.size
    · by_cases hx : key x = k <;> simp [hk, hx, Array.getElem_modify]
    · simp [hk]

end Entries

/-! ## Each table -/

/-- The calls of a method, each under its name. -/
def callEntries (d : IndexedMethod × Nat) : List (String × Index.Site) :=
  d.1.decl.calls.zipIdx.map (fun c => (c.1.name, ⟨d.2, c.2⟩))

theorem foldl_addType (ts : List (IndexedType × Nat)) (l : Lookups) :
    ts.foldl (fun l t => l.addType t.1 t.2) l =
      { l with
        typeByName := ts.foldl (fun t x => t.insertIfNew x.1.decl.name x.2) l.typeByName } := by
  induction ts generalizing l with
  | nil => rfl
  | cons t ts ih => exact ih _

theorem foldl_addCall (number : Nat) (calls : List (Call × Nat)) (l : Lookups) :
    calls.foldl (fun l c => l.addCall c.1 ⟨number, c.2⟩) l =
      { l with
        callsByName := calls.foldl (fun t c => push t c.1.name ⟨number, c.2⟩) l.callsByName } := by
  induction calls generalizing l with
  | nil => rfl
  | cons c calls ih => exact ih _

/-- **What entering methods does to each of the tables.** -/
theorem foldl_addMethod (ds : List (IndexedMethod × Nat)) (l : Lookups) :
    ds.foldl (fun l d => l.addMethod d.1 d.2) l =
      { typeByName := l.typeByName
        methodById := ds.foldl (fun t d => t.insert d.1.decl.id d.2) l.methodById
        members := ds.foldl (fun t d => push t (d.1.decl.type, d.1.decl.id.name) d.2) l.members
        methodsByName := ds.foldl (fun t d => push t d.1.decl.id.name d.2) l.methodsByName
        methodsByFile :=
          ds.foldl (fun t d => t.modify d.1.file (fun ms => ms.push d.2)) l.methodsByFile
        callsByName :=
          (ds.flatMap callEntries).foldl (fun t c => push t c.1 c.2) l.callsByName } := by
  induction ds generalizing l with
  | nil => rfl
  | cons d ds ih =>
    rw [List.foldl_cons, ih, addMethod, foldl_addCall, List.flatMap_cons, List.foldl_append,
      callEntries, List.foldl_map]
    rfl

/-- **The tables, each by a loop of its own.** -/
theorem build_eq (files : Nat) (types : Array IndexedType) (methods : Array IndexedMethod) :
    build files types methods =
      { typeByName :=
          types.toList.zipIdx.foldl (fun t x => t.insertIfNew x.1.decl.name x.2) ∅
        methodById := methods.toList.zipIdx.foldl (fun t d => t.insert d.1.decl.id d.2) ∅
        members :=
          methods.toList.zipIdx.foldl
            (fun t d => push t (d.1.decl.type, d.1.decl.id.name) d.2) ∅
        methodsByName :=
          methods.toList.zipIdx.foldl (fun t d => push t d.1.decl.id.name d.2) ∅
        methodsByFile :=
          methods.toList.zipIdx.foldl (fun t d => t.modify d.1.file (fun ms => ms.push d.2))
            (Array.replicate files #[])
        callsByName :=
          (methods.toList.zipIdx.flatMap callEntries).foldl (fun t c => push t c.1 c.2) ∅ } := by
  rw [build, foldl_addMethod, foldl_addType]

end Lookups

namespace Index

variable {ix : Index}

section Changes

variable {files : Array SourceFile} {types : Array IndexedType} {methods : Array IndexedMethod}

@[simp] theorem files_replace : (ix.replace files types methods).files = files := rfl

@[simp] theorem types_replace : (ix.replace files types methods).types = types := rfl

@[simp] theorem methods_replace : (ix.replace files types methods).methods = methods := rfl

@[simp] theorem types_withSupers (ix : Index) (supers : IndexedType → List Nat) :
    (ix.withSupers supers).types = ix.types.map (fun t => { t with supers := supers t }) := rfl

/-- The index holds the tables of its types and methods. -/
theorem tables_eq (ix : Index) : ix.tables = Lookups.build ix.files.size ix.types ix.methods :=
  ix.lookups.get_eq

/-- Tables make no difference between indexes of the same types and methods. -/
theorem eq_of_data {ix ix' : Index} (hfiles : ix.files = ix'.files) (htypes : ix.types = ix'.types)
    (hmethods : ix.methods = ix'.methods) (hduplicates : ix.duplicates = ix'.duplicates)
    (hread : ix.readErrors = ix'.readErrors) (hlossy : ix.lossyFiles = ix'.lossyFiles) :
    ix = ix' := by
  obtain ⟨files, types, methods, ⟨⟨get⟩, hget⟩⟩ := ix
  obtain ⟨files', types', methods', ⟨⟨get'⟩, hget'⟩⟩ := ix'
  cases hfiles
  cases htypes
  cases hmethods
  cases hduplicates
  cases hread
  cases hlossy
  obtain rfl : get = get' := funext fun _ => hget.trans hget'.symm
  rfl

end Changes

/-! ## Types by name -/

theorem typeNamed?_eq (ix : Index) (name : String) :
    ix.typeNamed? name = ix.types.findIdx? (fun t => t.decl.name == name) := by
  rw [typeNamed?, ix.tables_eq, Lookups.build_eq, ← @Array.toArray_toList _ ix.types,
    List.findIdx?_toArray, List.findIdx?_eq_fst_find?_zipIdx]
  exact Lookups.getElem?_foldl_insertIfNew (fun x : IndexedType × Nat => x.1.decl.name) Prod.snd ..

/-- The first type with a name. -/
theorem typeNamed?_eq_some_iff {name : String} {i : Nat} : ix.typeNamed? name = some i ↔
    (∃ t, ix.types[i]? = some t ∧ t.decl.name = name) ∧
      ∀ j t, ix.types[j]? = some t → t.decl.name = name → i ≤ j := by
  rw [typeNamed?_eq, Array.findIdx?_eq_some_iff_getElem]
  constructor
  · rintro ⟨hlt, hname, hfirst⟩
    refine ⟨⟨_, Array.getElem?_eq_getElem hlt, beq_iff_eq.1 hname⟩, fun j t ht hj => ?_⟩
    obtain ⟨hlt', rfl⟩ := Array.getElem?_eq_some_iff.1 ht
    by_contra hle
    exact hfirst j (Nat.lt_of_not_le hle) (beq_iff_eq.2 hj)
  · rintro ⟨⟨t, ht, hname⟩, hfirst⟩
    obtain ⟨hlt, rfl⟩ := Array.getElem?_eq_some_iff.1 ht
    refine ⟨hlt, beq_iff_eq.2 hname, fun j hj hname' => ?_⟩
    have hle := hfirst j _ (Array.getElem?_eq_getElem (Nat.lt_trans hj hlt)) (beq_iff_eq.1 hname')
    exact absurd hj (Nat.not_lt_of_le hle)

theorem typeNamed?_eq_none_iff {name : String} : ix.typeNamed? name = none ↔
    ∀ (j : Nat) (t : IndexedType), ix.types[j]? = some t → t.decl.name ≠ name := by
  rw [typeNamed?_eq, Array.findIdx?_eq_none_iff]
  constructor
  · exact fun h j t ht hname => by simpa [hname] using h t (Array.mem_of_getElem? ht)
  · intro h t ht
    obtain ⟨j, hj⟩ := Array.mem_iff_getElem?.1 ht
    simpa using h j t hj

/-! ## Methods by identifier -/

/-- The last method with an identifier. -/
theorem methodNumber?_eq (ix : Index) (m : MethodId) :
    ix.methodNumber? m =
      (ix.methods.toList.zipIdx.reverse.find? (fun d => decide (d.1.decl.id = m))).map Prod.snd := by
  rw [methodNumber?, ix.tables_eq, Lookups.build_eq]
  refine (Lookups.getElem?_foldl_insert (fun d : IndexedMethod × Nat => d.1.decl.id) Prod.snd
    _ ∅ m).trans ?_
  rw [Std.TreeMap.getElem?_emptyc, Option.or_none]

theorem exists_of_methodNumber? {m : MethodId} {i : Nat} (h : ix.methodNumber? m = some i) :
    ∃ d, ix.methods[i]? = some d ∧ d.decl.id = m := by
  rw [methodNumber?_eq] at h
  obtain ⟨d, hfound, rfl⟩ := Option.map_eq_some_iff.1 h
  have hmem := List.mem_reverse.1 (List.mem_of_find?_eq_some hfound)
  rw [List.mem_zipIdx_iff_getElem?, Array.getElem?_toList] at hmem
  have hid := List.find?_some hfound
  exact ⟨d.1, hmem, of_decide_eq_true hid⟩

theorem methodNumber?_eq_none_iff {m : MethodId} :
    ix.methodNumber? m = none ↔ ∀ d ∈ ix.methods, d.decl.id ≠ m := by
  rw [methodNumber?_eq, Option.map_eq_none_iff, List.find?_eq_none]
  constructor
  · intro h d hd hid
    obtain ⟨i, hi⟩ := Array.mem_iff_getElem?.1 hd
    have hmem : (d, i) ∈ ix.methods.toList.zipIdx := by
      rwa [List.mem_zipIdx_iff_getElem?, Array.getElem?_toList]
    exact h (d, i) (List.mem_reverse.2 hmem) (decide_eq_true hid)
  · intro h d hd hid
    have hmem := List.mem_reverse.1 hd
    rw [List.mem_zipIdx_iff_getElem?, Array.getElem?_toList] at hmem
    exact h d.1 (Array.mem_of_getElem? hmem) (of_decide_eq_true hid)

/-! ## Methods by other keys -/

/-- The numbers of the methods that satisfy a condition. -/
def methodsWhere (ix : Index) (p : IndexedMethod → Bool) : List Nat :=
  (ix.methods.toList.zipIdx.filter (fun d => p d.1)).map Prod.snd

theorem mem_methodsWhere {p : IndexedMethod → Bool} {i : Nat} :
    i ∈ ix.methodsWhere p ↔ ∃ d, ix.methods[i]? = some d ∧ p d = true := by
  simp only [methodsWhere, List.mem_map, List.mem_filter, List.mem_zipIdx_iff_getElem?,
    Array.getElem?_toList]
  constructor
  · rintro ⟨d, ⟨hd, hp⟩, rfl⟩
    exact ⟨d.1, hd, hp⟩
  · rintro ⟨d, hd, hp⟩
    exact ⟨(d, i), ⟨hd, hp⟩, rfl⟩

/-- What is numbered stands in the order of the numbers. -/
theorem pairwise_zipIdx {α : Type} (xs : List α) : xs.zipIdx.Pairwise (fun x y => x.2 < y.2) := by
  have hnumbers : (xs.zipIdx.map Prod.snd).Pairwise (· < ·) := by
    rw [List.zipIdx_map_snd]
    exact List.pairwise_lt_range'
  exact List.pairwise_map.1 hnumbers

theorem pairwise_methodsWhere (ix : Index) (p : IndexedMethod → Bool) :
    (ix.methodsWhere p).Pairwise (· < ·) :=
  List.pairwise_map.2 ((pairwise_zipIdx _).filter _)

theorem members_eq (ix : Index) (type : Nat) (name : String) :
    ix.members type name =
      ix.methodsWhere (fun d => decide ((d.decl.type, d.decl.id.name) = (type, name))) := by
  rw [members, ix.tables_eq, Lookups.build_eq]
  exact Lookups.toList_getD_foldl_push
    (fun d : IndexedMethod × Nat => (d.1.decl.type, d.1.decl.id.name)) Prod.snd ..

theorem mem_members {type : Nat} {name : String} {i : Nat} :
    i ∈ ix.members type name ↔
      ∃ d, ix.methods[i]? = some d ∧ d.decl.type = type ∧ d.decl.id.name = name := by
  simp only [members_eq, mem_methodsWhere, decide_eq_true_eq, Prod.mk.injEq]

theorem pairwise_members (ix : Index) (type : Nat) (name : String) :
    (ix.members type name).Pairwise (· < ·) := by
  rw [members_eq]
  exact pairwise_methodsWhere ix _

theorem methodsNamed_eq (ix : Index) (name : String) :
    ix.methodsNamed name = ix.methodsWhere (fun d => decide (d.decl.id.name = name)) := by
  rw [methodsNamed, ix.tables_eq, Lookups.build_eq]
  exact Lookups.toList_getD_foldl_push (fun d : IndexedMethod × Nat => d.1.decl.id.name) Prod.snd ..

/-- What the table of files holds of a file. -/
theorem methodsByFile_eq (ix : Index) (file : Nat) :
    (ix.tables.methodsByFile.getD file #[]).toList =
      if file < ix.files.size then ix.methodsWhere (fun d => decide (d.file = file)) else [] := by
  rw [ix.tables_eq, Lookups.build_eq]
  dsimp only
  rw [Lookups.getD_foldl_modify Prod.snd (fun d : IndexedMethod × Nat => d.1.file),
    Array.size_replicate]
  by_cases hfile : file < ix.files.size <;> simp [hfile, methodsWhere]

theorem size_methodsByFile (ix : Index) : ix.tables.methodsByFile.size = ix.files.size := by
  rw [ix.tables_eq, Lookups.build_eq]
  dsimp only
  refine List.foldlRecOn (motive := fun t => Array.size t = ix.files.size) _ _
    Array.size_replicate fun t ht d _ => ?_
  rw [Array.size_modify, ht]

/-- The order in which calls are entered. -/
def Site.Before (s t : Site) : Prop :=
  s.method < t.method ∨ s.method = t.method ∧ s.place < t.place

theorem sitesNamed_eq (ix : Index) (name : String) :
    ix.sitesNamed name =
      ((ix.methods.toList.zipIdx.flatMap Lookups.callEntries).filter
        (fun c => decide (c.1 = name))).map Prod.snd := by
  rw [sitesNamed, ix.tables_eq, Lookups.build_eq]
  exact Lookups.toList_getD_foldl_push (fun c : String × Site => c.1) Prod.snd ..

theorem callAt?_eq_some {s : Site} {caller : IndexedMethod} {call : Call} :
    ix.callAt? s = some (caller, call) ↔
      ix.methods[s.method]? = some caller ∧ caller.decl.calls[s.place]? = some call := by
  unfold callAt?
  cases ix.methods[s.method]? with
  | none => simp
  | some d =>
    simp only [Option.map_eq_some_iff, Prod.mk.injEq, Option.some.injEq]
    constructor
    · rintro ⟨c, hc, rfl, rfl⟩
      exact ⟨rfl, hc⟩
    · rintro ⟨rfl, hc⟩
      exact ⟨call, hc, rfl, rfl⟩

/-- The calls under a name are all the calls that have it. -/
theorem mem_sitesNamed {name : String} {s : Site} :
    s ∈ ix.sitesNamed name ↔
      ∃ caller call, ix.callAt? s = some (caller, call) ∧ call.name = name := by
  simp only [sitesNamed_eq, Lookups.callEntries, List.mem_map, List.mem_filter, List.mem_flatMap,
    List.mem_zipIdx_iff_getElem?, Array.getElem?_toList, callAt?_eq_some, decide_eq_true_eq]
  constructor
  · rintro ⟨_, ⟨⟨d, hd, c, hc, rfl⟩, hname⟩, rfl⟩
    exact ⟨d.1, c.1, ⟨hd, hc⟩, hname⟩
  · rintro ⟨caller, call, ⟨hcaller, hcall⟩, hname⟩
    exact ⟨_, ⟨⟨(caller, s.method), hcaller, (call, s.place), hcall, rfl⟩, hname⟩, rfl⟩

theorem pairwise_sitesNamed (ix : Index) (name : String) :
    (ix.sitesNamed name).Pairwise Site.Before := by
  have hentered : ((ix.methods.toList.zipIdx.flatMap Lookups.callEntries).map Prod.snd).Pairwise
      Site.Before := by
    rw [List.pairwise_map, List.pairwise_flatMap]
    constructor
    · intro d _
      rw [Lookups.callEntries, List.pairwise_map]
      exact (pairwise_zipIdx _).imp fun hlt => .inr ⟨rfl, hlt⟩
    · refine (pairwise_zipIdx _).imp fun {d e} hlt c hc c' hc' => .inl ?_
      obtain ⟨_, -, rfl⟩ := List.mem_map.1 hc
      obtain ⟨_, -, rfl⟩ := List.mem_map.1 hc'
      exact hlt
  rw [sitesNamed_eq]
  exact hentered.sublist (List.filter_sublist.map _)

theorem nodup_sitesNamed (ix : Index) (name : String) : (ix.sitesNamed name).Nodup := by
  refine (pairwise_sitesNamed ix name).imp fun {s t} hst heq => ?_
  subst heq
  rcases hst with hlt | ⟨-, hlt⟩ <;> exact absurd hlt (Nat.lt_irrefl _)

end Index
end CallOrigins.Java
