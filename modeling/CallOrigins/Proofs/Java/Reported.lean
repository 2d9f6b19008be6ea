import CallOrigins.Java.Index.Codebase
import CallOrigins.Proofs.Java.References
import CallOrigins.Proofs.Search.Failures

/-!
# The calls that searches report

A search for references gives places in files. Here each of them is kept together with the call
that it is (`reported`), so that the searches for two methods can be compared call by call.

**The law** (`exact_exclusive`): a call that is an exact reference to one method is no reference to
another one, not even a potential one. The methods that a call can mean are found in two ways, one
for constructors and one for other methods, and which of them is taken depends on the method that
is sought. Within each way the candidates depend on the call alone; for constructors this takes
that all constructors of a type have one name. So each call gives a call graph edges to one callee
at most.

The two ways meet in one place. A reference `T::new` is one to a constructor, but it is also taken
for a reference to a method named `new` (`exact_not_exclusive`). No method can be declared so, but
the name of a method is read off its identifier, and a comment in the name of its package may hold
anything.
-/

namespace CallOrigins

open Text

namespace Java.Index

variable {ix : Index} {m : MethodId} {s : Site} {r : Reference}

/-! ## Reported calls -/

/-- **The references to a method that a search reports**, each with the call that it is. -/
def reported (ix : Index) (m : MethodId) : List (Site × Reference) :=
  match ix.methodNumber? m, ix.method? m with
  | some target, some method => ix.foundAt target method (ix.candidateSites m)
  | _, _ => []

theorem exists_method_of_methodNumber? {target : Nat} (h : ix.methodNumber? m = some target) :
    ∃ method, ix.methods[target]? = some method ∧ ix.method? m = some method ∧
      method.decl.id = m := by
  obtain ⟨method, hmethod, hid⟩ := exists_of_methodNumber? h
  exact ⟨method, hmethod, Option.bind_eq_some_iff.2 ⟨target, h, hmethod⟩, hid⟩

/-- What a search gives is what it reports, and a failure where the method is not in the index. -/
theorem references_eq_reported (ix : Index) (m : MethodId) :
    ix.references (fun _ => false) m =
      if (ix.methodNumber? m).isSome then .ok ((ix.reported m).map Prod.snd)
      else .error (.query (m.text ++ " is not in the index")) := by
  cases htarget : ix.methodNumber? m with
  | none => simp [references, htarget]
  | some target =>
    obtain ⟨method, hmethod, hfound, -⟩ := exists_method_of_methodNumber? htarget
    rw [(references_eq htarget hmethod).2, reported, htarget, hfound, map_snd_foundAt]
    rfl

theorem references_of_methodNumber? {target : Nat} (h : ix.methodNumber? m = some target) :
    ix.references (fun _ => false) m = .ok ((ix.reported m).map Prod.snd) := by
  rw [references_eq_reported, h]
  rfl

/-- A call that is reported is looked at, and it is bound to the method. -/
theorem mem_reported : (s, r) ∈ ix.reported m ↔
    ∃ target method caller call accuracy,
      ix.methodNumber? m = some target ∧ ix.methods[target]? = some method ∧
      s ∈ ix.candidateSites m ∧ ix.callAt? s = some (caller, call) ∧
      fitsCall m call = true ∧ ix.bind? target method caller call = some accuracy ∧
      r = ⟨ix.pathOf caller, call.offset, call.length, accuracy, some caller.decl.id⟩ := by
  cases htarget : ix.methodNumber? m with
  | none => simp [reported, htarget]
  | some target =>
    obtain ⟨method, hmethod, hfound, hid⟩ := exists_method_of_methodNumber? htarget
    rw [reported, htarget, hfound, mem_foundAt]
    simp only [reference?, referenceAt?, Option.bind_eq_some_iff, Prod.exists, hid]
    constructor
    · rintro ⟨hs, caller, call, hcall, hr⟩
      split at hr
      next hfits =>
        obtain ⟨accuracy, hbind, rfl⟩ := Option.map_eq_some_iff.1 hr
        exact ⟨target, method, caller, call, accuracy, rfl, hmethod, hs, hcall, hfits, hbind, rfl⟩
      next => cases hr
    · rintro ⟨_, _, caller, call, accuracy, htarget', hmethod', hs, hcall, hfits, hbind, rfl⟩
      cases htarget'
      cases hmethod.symm.trans hmethod'
      refine ⟨hs, caller, call, hcall, ?_⟩
      rw [if_pos hfits, hbind]
      rfl

/-! ## What an index lets a search find -/

theorem found_codebase (ix : Index) (m : MethodId) :
    ix.codebase.found m = (ix.reported m).map Prod.snd := by
  unfold Codebase.found
  cases hnumber : ix.methodNumber? m with
  | none =>
    have habsent : ix.codebase.isPresent m = false := by
      change (ix.method? m).isSome = false
      rw [method?, hnumber]
      rfl
    simp [habsent, reported, hnumber]
  | some target =>
    obtain ⟨method, -, hmethod, -⟩ := exists_method_of_methodNumber? hnumber
    have hpresent : ix.codebase.isPresent m = true := by
      change (ix.method? m).isSome = true
      rw [hmethod]
      rfl
    have hreferences : ix.codebase.references m = .ok ((ix.reported m).map Prod.snd) :=
      references_of_methodNumber? hnumber
    rw [if_pos hpresent, hreferences]

/-- The call sites of a method are the exact references that are reported for it. -/
theorem mem_sites_found {caller : MethodId} : (caller, r) ∈ ix.codebase.sites (ix.codebase.found m) ↔
    (∃ s, (s, r) ∈ ix.reported m) ∧ r.accuracy = .exact ∧ r.element = some caller := by
  have hcaller : (∃ s, (s, r) ∈ ix.reported m) → (ix.codebase.callerAt? r = some caller ↔
      r.accuracy = .exact ∧ r.element = some caller) := by
    rintro ⟨s, hs⟩
    obtain ⟨_, _, d, _, accuracy, _, _, _, _, _, _, rfl⟩ := mem_reported.1 hs
    cases accuracy <;> simp [Codebase.callerAt?, codebase, enclosing]
  rw [found_codebase, Codebase.sites, List.mem_filterMap]
  constructor
  · rintro ⟨r', hr', hpair⟩
    obtain ⟨caller', hcaller', heq⟩ := Option.map_eq_some_iff.1 hpair
    cases heq
    obtain ⟨⟨s, r⟩, hs, rfl⟩ := List.mem_map.1 hr'
    exact ⟨⟨s, hs⟩, (hcaller ⟨s, hs⟩).1 hcaller'⟩
  · rintro ⟨⟨s, hs⟩, hexact⟩
    refine ⟨r, List.mem_map.2 ⟨(s, r), hs, rfl⟩, ?_⟩
    rw [(hcaller ⟨s, hs⟩).2 hexact]
    rfl

theorem fatal?_codebase (ix : Index) (m : MethodId) : ix.codebase.fatal? m = none := by
  have hquery : ∀ fault, ix.codebase.references m = .error fault → fault.fatal? = none := by
    intro fault hfault
    change ix.references (fun _ => false) m = .error fault at hfault
    rw [references_eq_reported] at hfault
    split at hfault
    · cases hfault
    · cases hfault
      rfl
  unfold Codebase.fatal?
  split
  · cases hreferences : ix.codebase.references m with
    | ok rs => rfl
    | error fault => exact hquery fault hreferences
  · rfl

/-- **A traversal of an index ends**, and its findings are complete. -/
theorem exists_findings (ix : Index) (target : MethodId) :
    ∃ f, (ix.codebase.traverse .never target).outcome = .finished f ∧
      f.Complete ix.codebase target := by
  apply Codebase.traverse_of_none
  exact List.findSome?_eq_none_iff.2 fun m _ => ix.fatal?_codebase m

/-! ## Candidates depend on the call alone -/

theorem eq_of_accuracyOf_exact {candidates : List Nat} {target target' : Nat} {accuracy : Accuracy}
    (h : accuracyOf candidates target = some .exact)
    (h' : accuracyOf candidates target' = some accuracy) : target' = target := by
  have hone : candidates = [target] := by
    unfold accuracyOf at h
    split at h
    next hone => exact hone
    next =>
      split at h
      next => cases h
      next => cases h
  have hmem := mem_of_accuracyOf h'
  rw [hone] at hmem
  exact List.mem_singleton.1 hmem

section Binding

variable {target target' : Nat} {method method' caller : IndexedMethod} {call : Call}
  {accuracy : Accuracy}

theorem eq_of_bindMethod_exact (h : ix.bindMethod caller call target = some .exact)
    (h' : ix.bindMethod caller call target' = some accuracy) : target' = target := by
  unfold bindMethod at h h'
  split at h
  next hkind =>
    rw [hkind] at h'
    exact eq_of_accuracyOf_exact h h'
  next hkind =>
    rw [hkind] at h'
    exact eq_of_accuracyOf_exact h h'
  next => cases h

/-- Constructors of one type have one name: that of the type, as far as it can be read off the
identifier. -/
theorem Named.name_eq_of_isConstructor (named : ix.Named) (hmethod : method ∈ ix.methods)
    (hmethod' : method' ∈ ix.methods) (htype : method.decl.type = method'.decl.type)
    (hc : method.decl.id.isConstructor = true) (hc' : method'.decl.id.isConstructor = true) :
    method.decl.id.name = method'.decl.id.name := by
  obtain ⟨t, ht, name, params, hid⟩ := named.methods method hmethod
  obtain ⟨t', ht', name', params', hid'⟩ := named.methods method' hmethod'
  rw [htype] at ht
  cases ht.symm.trans ht'
  have hsimple : method.decl.id.simpleTypeName = method'.decl.id.simpleTypeName := by
    rw [MethodId.simpleTypeName, MethodId.simpleTypeName, hid, hid',
      MethodId.declaringType_ofParts_eq, MethodId.declaringType_ofParts_eq]
  rw [beq_iff_eq.1 hc, beq_iff_eq.1 hc', hsimple]

theorem Named.eq_of_bindConstructor_exact (named : ix.Named) (hmethod : method ∈ ix.methods)
    (hmethod' : method' ∈ ix.methods) (hc : method.decl.id.isConstructor = true)
    (hc' : method'.decl.id.isConstructor = true)
    (h : ix.bindConstructor caller call target method = some .exact)
    (h' : ix.bindConstructor caller call target' method' = some accuracy) : target' = target := by
  have htype := (of_bindConstructor h).1.symm.trans (of_bindConstructor h').1
  have hname := named.name_eq_of_isConstructor hmethod hmethod' (Option.some.inj htype) hc hc'
  have hcreated := (of_bindConstructor h).1
  have htype' := Option.some.inj htype
  rw [bindConstructor, hcreated] at h h'
  simp only [if_pos] at h
  simp only [if_pos htype'] at h'
  rw [hname] at h
  exact eq_of_accuracyOf_exact h h'

/-- **Where the two ways of binding meet**: a call that is bound both to a constructor and to
another method is a reference with the word `new`, and that is the name of the other method. -/
theorem name_of_bindMethod_of_bindConstructor {accuracy' : Accuracy}
    (hmethod' : ix.methods[target']? = some method')
    (h : ix.bindConstructor caller call target method = some accuracy)
    (h' : ix.bindMethod caller call target' = some accuracy') :
    method'.decl.id.name = "new" := by
  obtain ⟨d, hd, hname, -⟩ := fits_of_bindMethod h'
  cases hmethod'.symm.trans hd
  rw [hname]
  have hcreated := (of_bindConstructor h).1
  unfold bindMethod at h'
  unfold createdType? at hcreated
  split at h'
  next hkind =>
    rw [hkind] at hcreated
    cases hcreated
  next hkind =>
    rw [hkind] at hcreated
    split at hcreated
    next heq _ => cases heq
    next =>
      split at hcreated
      next hnew => exact beq_iff_eq.1 hnew
      next => cases hcreated
    next heq => cases heq
    next heq => cases heq
    next => cases hcreated
  next => cases h'

end Binding

/-! ## Exact references -/

/-- A reference with the word `new` can mean the one as a constructor and the other by its name. -/
def ShareNew (m m' : MethodId) : Prop :=
  m.isConstructor = true ∧ m'.isConstructor = false ∧ m'.name = "new"

/-- Two methods to one of which a call is an exact reference. -/
theorem Named.eq_or_shareNew (named : ix.Named) {m m' : MethodId} {r r' : Reference}
    (h : (s, r) ∈ ix.reported m) (exact : r.accuracy = .exact) (h' : (s, r') ∈ ix.reported m') :
    m = m' ∨ ShareNew m m' ∨ ShareNew m' m := by
  obtain ⟨target, method, caller, call, accuracy, htarget, hmethod, -, hcall, -, hbind, rfl⟩ :=
    mem_reported.1 h
  obtain ⟨target', method', _, _, accuracy', htarget', hmethod', -, hcall', -, hbind', -⟩ :=
    mem_reported.1 h'
  cases hcall.symm.trans hcall'
  cases exact
  obtain rfl := (references_eq htarget hmethod).1
  obtain rfl := (references_eq htarget' hmethod').1
  have hmem := Array.mem_of_getElem? hmethod
  have hmem' := Array.mem_of_getElem? hmethod'
  have hsame : target' = target → method.decl.id = method'.decl.id := by
    rintro rfl
    cases hmethod.symm.trans hmethod'
    rfl
  unfold bind? at hbind hbind'
  -- the way of binding depends on the method that is sought
  cases hc : method.decl.id.isConstructor <;> cases hc' : method'.decl.id.isConstructor <;>
    simp only [hc, hc', if_true, Bool.false_eq_true, if_false] at hbind hbind'
  · exact .inl (hsame (eq_of_bindMethod_exact hbind hbind'))
  · exact .inr (.inr ⟨hc', hc, name_of_bindMethod_of_bindConstructor hmethod hbind' hbind⟩)
  · exact .inr (.inl ⟨hc, hc', name_of_bindMethod_of_bindConstructor hmethod' hbind hbind'⟩)
  · exact .inl (hsame (named.eq_of_bindConstructor_exact hmem hmem' hc hc' hbind hbind'))

/-! ## Edges of a call graph -/

/-- A call gives a call graph an edge: it is an exact reference to the callee. -/
def Contributes (ix : Index) (s : Site) (callee caller : MethodId) : Prop :=
  ∃ r, (s, r) ∈ ix.reported callee ∧ r.accuracy = .exact ∧ r.element = some caller

theorem exists_contributes_of_mem_callersOf {callee caller : MethodId}
    (h : caller ∈ ix.codebase.callersOf callee) : ∃ s, ix.Contributes s callee caller := by
  obtain ⟨⟨_, r⟩, hsite, rfl⟩ := List.mem_map.1 h
  obtain ⟨⟨s, hs⟩, hexact, helement⟩ := mem_sites_found.1 hsite
  exact ⟨s, r, hs, hexact, helement⟩

/-- Every edge that a traversal of an index finds is given by a call. -/
theorem exists_contributes_of_mem_edges {target : MethodId} {f : Findings}
    (h : (ix.codebase.traverse .never target).outcome = .finished f) {e : MethodId × MethodId}
    (he : e ∈ f.graph.edges) : ∃ s, ix.Contributes s e.1 e.2 := by
  obtain ⟨f', hfinished, hcomplete⟩ := ix.exists_findings target
  cases h.symm.trans hfinished
  exact exists_contributes_of_mem_callersOf ((hcomplete.edges_iff e).1 he).2

/-- **An exact reference excludes all others.** For every index of files that have been read: where
a call is an exact reference to a method, the search for another method does not report that call,
unless one of the two is a constructor and the other one has the name `new`. So every edge that a
traversal finds is given by a call, and all edges that a call gives have one callee, with the same
exception. -/
theorem exact_exclusive (files : List SourceFile) (read : ∀ f ∈ files, f.IsRead) :
    (∀ (m m' : MethodId) (s : Site) (r r' : Reference), m ≠ m' →
      ¬ ShareNew m m' → ¬ ShareNew m' m →
      (s, r) ∈ (ofFiles files).reported m → r.accuracy = .exact →
      (s, r') ∉ (ofFiles files).reported m') ∧
    ∀ (target : MethodId) (f : Findings),
      ((ofFiles files).codebase.traverse .never target).outcome = .finished f →
      (∀ e ∈ f.graph.edges, ∃ s, (ofFiles files).Contributes s e.1 e.2) ∧
      ∀ s, ∀ e ∈ f.graph.edges, ∀ e' ∈ f.graph.edges,
        (ofFiles files).Contributes s e.1 e.2 → (ofFiles files).Contributes s e'.1 e'.2 →
        e.1 = e'.1 ∨ ShareNew e.1 e'.1 ∨ ShareNew e'.1 e.1 := by
  have named := named_ofFiles read
  refine ⟨fun m m' s r r' hne hnew hnew' h exact h' => ?_, fun target f h => ⟨?_, ?_⟩⟩
  · rcases named.eq_or_shareNew h exact h' with heq | hshare | hshare
    · exact hne heq
    · exact hnew hshare
    · exact hnew' hshare
  · exact fun e he => exists_contributes_of_mem_edges h he
  · rintro s e - e' - ⟨r, hr, exact, -⟩ ⟨r', hr', -, -⟩
    exact named.eq_or_shareNew hr exact hr'

/-! ## A reference with the word `new` -/

/-- A class with a method, in a package whose name is written with a comment. -/
def barTree : Node :=
  .branch none .program [
    .branch none .packageDeclaration [
      sign "" "package" 0,
      .branch none .scopedIdentifier [
        token (some .scope) .identifier " " "a" 8,
        sign "" "." 9,
        token (some .name) .identifier "/*.Z#new(*/" "b" 21],
      sign "" ";" 22],
    .branch none .classDeclaration [
      .branch none .modifiers [sign " " "public" 24],
      sign " " "class" 31,
      token (some .name) .identifier " " "Bar" 37,
      braced .classBody 41 [
        .branch none .methodDeclaration [
          .branch none .modifiers [sign " " "public" 43],
          token (some .type) .voidType " " "void" 50,
          token (some .name) .identifier " " "m" 55,
          noParameters 56,
          braced .block 59 [] 61]] 63]]

/-- A class that extends it, with a reference to its own constructor. -/
def heirTree : Node :=
  .branch none .program [
    .branch none .importDeclaration [
      sign "" "import" 0,
      .branch none .scopedIdentifier [
        .branch (some .scope) .scopedIdentifier [
          token (some .scope) .identifier " " "a" 7,
          sign "" "." 8,
          token (some .name) .identifier "/*.Z#new(*/" "b" 20],
        sign "" "." 21,
        token (some .name) .identifier "" "Bar" 22],
      sign "" ";" 25],
    .branch none .classDeclaration [
      sign " " "class" 27,
      token (some .name) .identifier " " "Foo" 33,
      .branch (some .superclass) .superclass [
        sign " " "extends" 37,
        token none .typeIdentifier " " "Bar" 45],
      braced .classBody 49 [
        .branch none .constructorDeclaration [
          token (some .name) .identifier " " "Foo" 51,
          noParameters 54,
          braced .constructorBody 57 [] 59],
        .branch none .methodDeclaration [
          token (some .type) .voidType " " "void" 61,
          token (some .name) .identifier " " "f" 66,
          noParameters 67,
          braced .block 70 [
            .branch none .localVariableDeclaration [
              token (some .type) .typeIdentifier " " "Runnable" 72,
              .branch (some .declarator) .variableDeclarator [
                token (some .name) .identifier " " "r" 81,
                sign " " "=" 83,
                .branch (some .value) .methodReference [
                  token none .identifier " " "Foo" 85,
                  sign "" "::" 88,
                  sign "" "new" 90]],
              sign "" ";" 93]] 95]] 97]]

/-- The two files. -/
def heirFiles : List SourceFile :=
  [fileOf "Bar.java"
    "package a./*.Z#new(*/b; public class Bar \x7b public void m() \x7b \x7d \x7d" barTree,
   fileOf "Foo.java"
    ("import a./*.Z#new(*/b.Bar; class Foo extends Bar \x7b Foo() \x7b \x7d " ++
      "void f() \x7b Runnable r = Foo::new; \x7d \x7d")
    heirTree]

theorem isRead_heirFiles : ∀ f ∈ heirFiles, f.IsRead := by
  simp [heirFiles, isRead_fileOf]

/-- The place of the reference. -/
def heirReference : Reference := ⟨"Foo.java", 85, 8, .exact, some ⟨"Foo#f()"⟩⟩

/-- The method around the reference, in the index of the two files. -/
def heirMethod : IndexedMethod where
  decl :=
    { id := ⟨"Foo#f()"⟩
      type := 1
      start := 61
      stop := 96
      lineStart := 1
      lineEnd := 1
      calls := [⟨.reference, "new", .typed "Foo", none, 85, 8, 1⟩] }
  file := 1

/-- The reference is reported for every method that it is bound to. -/
theorem mem_reported_heirFiles {m : MethodId} {target : Nat} {method : IndexedMethod}
    (hnumber : (ofFiles heirFiles).methodNumber? m = some target)
    (hmethod : (ofFiles heirFiles).methods[target]? = some method)
    (hname : "new" ∈ searchNames m)
    (hbind : (ofFiles heirFiles).bind? target method heirMethod
      ⟨.reference, "new", .typed "Foo", none, 85, 8, 1⟩ = some .exact) :
    (⟨2, 0⟩, heirReference) ∈ (ofFiles heirFiles).reported m := by
  have hcaller : (ofFiles heirFiles).methods[2]? = some heirMethod := by decide +kernel
  have hcall : (ofFiles heirFiles).callAt? ⟨2, 0⟩ =
      some (heirMethod, ⟨.reference, "new", .typed "Foo", none, 85, 8, 1⟩) :=
    callAt?_eq_some.2 ⟨hcaller, rfl⟩
  refine mem_reported.2 ⟨target, method, _, _, .exact, hnumber, hmethod, ?_, hcall, rfl, hbind, ?_⟩
  · exact mem_candidateSites.2 ⟨_, _, hcall, hname⟩
  · decide +kernel

theorem heirReference_mem_reported :
    (⟨2, 0⟩, heirReference) ∈ (ofFiles heirFiles).reported ⟨"Foo#Foo()"⟩ :=
  @mem_reported_heirFiles _ 1 ⟨⟨⟨"Foo#Foo()"⟩, 1, 51, 60, 1, 1, []⟩, 1⟩
    (by decide +kernel) (by decide +kernel) (by decide) (by decide +kernel)

/-- The reference is one to the constructor and not one to the method that it stands in. -/
theorem constructorReference_exclusive :
    (∀ f ∈ heirFiles, f.IsRead) ∧
    (⟨2, 0⟩, heirReference) ∈ (ofFiles heirFiles).reported ⟨"Foo#Foo()"⟩ ∧
    ∀ r, (⟨2, 0⟩, r) ∉ (ofFiles heirFiles).reported ⟨"Foo#f()"⟩ :=
  ⟨isRead_heirFiles, heirReference_mem_reported, fun r =>
    (exact_exclusive heirFiles isRead_heirFiles).1 ⟨"Foo#Foo()"⟩ ⟨"Foo#f()"⟩ ⟨2, 0⟩ heirReference r
      (by decide) (fun h => absurd h.2.2 (by decide)) (fun h => absurd h.1 (by decide))
      heirReference_mem_reported rfl⟩

/-- **A reference to a constructor can be one to another method too.** In the identifier of the
method of `Bar` the first `#` and the first bracket after it are in the comment, so that its name
is read as `new`. The class `Foo` inherits that method, and `Foo::new` is an exact reference to it
and to the constructor. -/
theorem exact_not_exclusive :
    ∃ files m m' s r, (∀ f ∈ files, SourceFile.IsRead f) ∧ m ≠ m' ∧
      (s, r) ∈ (ofFiles files).reported m ∧ (s, r) ∈ (ofFiles files).reported m' ∧
      r.accuracy = .exact :=
  ⟨heirFiles, ⟨"Foo#Foo()"⟩, ⟨"a./*.Z#new(*/b.Bar#m()"⟩, ⟨2, 0⟩, heirReference, isRead_heirFiles,
    by decide, heirReference_mem_reported,
    @mem_reported_heirFiles _ 0 ⟨⟨⟨"a./*.Z#new(*/b.Bar#m()"⟩, 0, 43, 62, 1, 1, []⟩, 0⟩
      (by decide +kernel) (by decide +kernel) (by decide) (by decide +kernel),
    rfl⟩

end Java.Index
end CallOrigins
