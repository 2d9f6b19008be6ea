import CallOrigins.Proofs.Java.Binding
import Mathlib.Data.List.Nodup

/-!
# A search by name finds what a scan finds

References are sought among the calls under certain names, with a number of arguments that fits.
This module compares that with a scan of all the calls in the index, each bound by itself. Both
find the same references, in the order of files and offsets, for every method that is no
constructor and for every constructor whose type is plainly named. That the type has a name without
a dollar sign would not be enough (`search_not_scan`): a comment in the name of the package can
make the search take the constructor for one of another type.

No reference is found twice, with one exception. A constructor is looked for under the name of its
type and under three keywords; where the type itself is named like one of these, the calls under
that name are looked at twice, and two calls at one place keep each other's repetitions apart.
-/

namespace CallOrigins

/-! ## Erasing repetitions -/

section EraseReps

variable {α : Type} [BEq α] [LawfulBEq α]

theorem eraseReps_loop (as : List α) (a : α) (acc : List α) :
    ∃ rest, List.eraseRepsBy.loop (· == ·) a as acc = acc.reverse ++ a :: rest ∧
      rest.Sublist as ∧ ∀ b ∈ as, b = a ∨ b ∈ rest := by
  induction as generalizing a acc with
  | nil => exact ⟨[], by simp [List.eraseRepsBy.loop], .slnil, by simp⟩
  | cons b bs ih =>
    rw [List.eraseRepsBy.loop]
    split
    next hab =>
      obtain ⟨rest, heq, hsub, hall⟩ := ih a acc
      refine ⟨rest, heq, hsub.cons b, fun c hc => ?_⟩
      rcases List.mem_cons.1 hc with rfl | hc
      · exact .inl (beq_iff_eq.1 hab).symm
      · exact hall c hc
    next =>
      obtain ⟨rest, heq, hsub, hall⟩ := ih b (a :: acc)
      refine ⟨b :: rest, by simp [heq], hsub.cons_cons b, fun c hc => .inr ?_⟩
      rcases List.mem_cons.1 hc with rfl | hc
      · exact List.mem_cons_self
      · exact List.mem_cons.2 (hall c hc)

theorem eraseReps_sublist (as : List α) : as.eraseReps.Sublist as := by
  cases as with
  | nil => exact .slnil
  | cons a as =>
    obtain ⟨rest, heq, hsub, -⟩ := eraseReps_loop as a []
    rw [List.eraseReps, List.eraseRepsBy, heq]
    exact hsub.cons_cons a

theorem mem_eraseReps {as : List α} {a : α} : a ∈ as.eraseReps ↔ a ∈ as := by
  refine ⟨fun h => (eraseReps_sublist as).subset h, fun h => ?_⟩
  cases as with
  | nil => exact h
  | cons b as =>
    obtain ⟨rest, heq, -, hall⟩ := eraseReps_loop as b []
    rw [List.eraseReps, List.eraseRepsBy, heq]
    rcases List.mem_cons.1 h with rfl | h
    · simp
    · simpa using hall a h

end EraseReps

namespace Java.Index

variable {ix : Index} {m : MethodId} {target : Nat} {method : IndexedMethod}

/-! ## Sites -/

theorem siteLe_trans (ix : Index) (a b c : Site) (hab : ix.siteLe a b = true)
    (hbc : ix.siteLe b c = true) : ix.siteLe a c = true := by
  simp only [siteLe, Bool.or_eq_true, Bool.and_eq_true, decide_eq_true_eq, beq_iff_eq] at *
  omega

theorem siteLe_total (ix : Index) (a b : Site) : (ix.siteLe a b || ix.siteLe b a) = true := by
  simp only [siteLe, Bool.or_eq_true, Bool.and_eq_true, decide_eq_true_eq, beq_iff_eq]
  omega

/-- **The calls that are looked at** are those under the names of the method, and they are in the
order of their places. -/
theorem mem_candidateSites {s : Site} :
    s ∈ ix.candidateSites m ↔
      ∃ caller call, ix.callAt? s = some (caller, call) ∧ call.name ∈ searchNames m := by
  rw [candidateSites, mem_eraseReps, List.mem_mergeSort, List.mem_flatMap]
  constructor
  · rintro ⟨name, hname, hs⟩
    obtain ⟨caller, call, hcall, rfl⟩ := mem_sitesNamed.1 hs
    exact ⟨caller, call, hcall, hname⟩
  · rintro ⟨caller, call, hcall, hname⟩
    exact ⟨call.name, hname, mem_sitesNamed.2 ⟨caller, call, hcall, rfl⟩⟩

theorem pairwise_candidateSites (ix : Index) (m : MethodId) :
    (ix.candidateSites m).Pairwise (fun a b => ix.siteLe a b = true) := by
  have hsorted : (((searchNames m).flatMap ix.sitesNamed).mergeSort ix.siteLe).Pairwise
      (fun a b => ix.siteLe a b = true) :=
    List.pairwise_mergeSort ix.siteLe_trans ix.siteLe_total _
  rw [candidateSites]
  exact hsorted.sublist (eraseReps_sublist _)

/-- Different names have different calls. -/
theorem nodup_candidateSites (ix : Index) {m : MethodId} (names : (searchNames m).Nodup) :
    (ix.candidateSites m).Nodup := by
  have hall : ((searchNames m).flatMap ix.sitesNamed).Nodup := by
    refine List.nodup_flatMap.2 ⟨fun name _ => nodup_sitesNamed ix name, ?_⟩
    refine names.imp fun {name name'} hne s hs hs' => hne ?_
    obtain ⟨caller, call, hcall, rfl⟩ := mem_sitesNamed.1 hs
    obtain ⟨caller', call', hcall', rfl⟩ := mem_sitesNamed.1 hs'
    cases hcall.symm.trans hcall'
    rfl
  rw [candidateSites]
  exact (eraseReps_sublist _).nodup (List.nodup_mergeSort.2 hall)

/-- The names of a method are different, unless the type of a constructor is named like one of the
keywords. -/
theorem nodup_searchNames
    (h : m.isConstructor = true → m.simpleTypeName ∉ ["super", "this", "new"]) :
    (searchNames m).Nodup := by
  unfold searchNames
  split
  next hconstructor => exact List.nodup_cons.2 ⟨h hconstructor, by decide⟩
  next => exact List.nodup_singleton _

/-! ## Searching -/

/-- **A reference by binding alone**: the site is a call that can mean the method, and the reference
tells its place and the method around it. -/
def IsReference (ix : Index) (target : Nat) (method : IndexedMethod) (s : Site) (r : Reference) :
    Prop :=
  ∃ caller call accuracy, ix.callAt? s = some (caller, call) ∧
    ix.bind? target method caller call = some accuracy ∧
    r = ⟨ix.pathOf caller, call.offset, call.length, accuracy, some caller.decl.id⟩

/-- What a search makes of a site. -/
def reference? (ix : Index) (target : Nat) (method : IndexedMethod) (s : Site) :
    Option Reference :=
  (ix.callAt? s).bind fun (caller, call) => ix.referenceAt? target method caller call

theorem referencesAmong_never (current : Option Nat) (sites : List Site) :
    ix.referencesAmong (fun _ => false) target method current sites =
      sites.filterMap (ix.reference? target method) := by
  induction sites generalizing current with
  | nil => rfl
  | cons s sites ih =>
    rw [referencesAmong, List.filterMap_cons, reference?]
    cases ix.callAt? s with
    | none => exact ih current
    | some found =>
      simp only [Bool.and_false, Bool.false_eq_true, if_false, ih, Option.bind_some]
      cases ix.referenceAt? target method found.1 found.2 <;> rfl

section Scan

variable (named : ix.Named) (hmethod : ix.methods[target]? = some method)
  (plain : method.decl.id.isConstructor = true → ix.PlainlyNamed method)

include named hmethod plain

theorem Named.of_bind?_callAt? {s : Site} {caller : IndexedMethod} {call : Call}
    {accuracy : Accuracy} (hcall : ix.callAt? s = some (caller, call))
    (hbind : ix.bind? target method caller call = some accuracy) :
    call.name ∈ searchNames method.decl.id ∧ fitsCall method.decl.id call = true := by
  obtain ⟨hcaller, hplace⟩ := callAt?_eq_some.1 hcall
  exact named.of_bind? hmethod plain
    (named.calls caller (Array.mem_of_getElem? hcaller) call (List.mem_of_getElem? hplace)) hbind

/-- What a search makes of a call is what binding alone makes of it: the number of arguments is
never the reason why a call is passed over. -/
theorem Named.reference?_eq_some {s : Site} {r : Reference} :
    ix.reference? target method s = some r ↔ ix.IsReference target method s r := by
  simp only [reference?, IsReference, Option.bind_eq_some_iff, Prod.exists, referenceAt?]
  constructor
  · rintro ⟨caller, call, hcall, hr⟩
    split at hr
    next =>
      obtain ⟨accuracy, hbind, rfl⟩ := Option.map_eq_some_iff.1 hr
      exact ⟨caller, call, accuracy, hcall, hbind, rfl⟩
    next => cases hr
  · rintro ⟨caller, call, accuracy, hcall, hbind, rfl⟩
    refine ⟨caller, call, hcall, ?_⟩
    rw [if_pos (named.of_bind?_callAt? hmethod plain hcall hbind).2, hbind]
    rfl

/-- Every reference by binding alone is among the calls that are looked at. -/
theorem Named.mem_candidateSites {s : Site} {r : Reference}
    (hr : ix.IsReference target method s r) : s ∈ ix.candidateSites method.decl.id := by
  obtain ⟨caller, call, accuracy, hcall, hbind, -⟩ := hr
  exact Index.mem_candidateSites.2
    ⟨caller, call, hcall, (named.of_bind?_callAt? hmethod plain hcall hbind).1⟩

end Scan

/-- The sites that a search makes something of, with the references. -/
def foundAt (ix : Index) (target : Nat) (method : IndexedMethod) (sites : List Site) :
    List (Site × Reference) :=
  sites.filterMap (fun s => (ix.reference? target method s).map (s, ·))

theorem mem_foundAt {sites : List Site} {s : Site} {r : Reference} :
    (s, r) ∈ ix.foundAt target method sites ↔
      s ∈ sites ∧ ix.reference? target method s = some r := by
  simp only [foundAt, List.mem_filterMap, Option.map_eq_some_iff, Prod.mk.injEq]
  constructor
  · rintro ⟨_, hs, _, hr, rfl, rfl⟩
    exact ⟨hs, hr⟩
  · rintro ⟨hs, hr⟩
    exact ⟨s, hs, r, hr, rfl, rfl⟩

theorem map_fst_foundAt_sublist (sites : List Site) :
    ((ix.foundAt target method sites).map Prod.fst).Sublist sites := by
  induction sites with
  | nil => exact .slnil
  | cons s sites ih =>
    rw [foundAt, List.filterMap_cons]
    cases ix.reference? target method s with
    | none => exact ih.cons s
    | some r => exact ih.cons_cons s

theorem map_snd_foundAt (sites : List Site) :
    (ix.foundAt target method sites).map Prod.snd =
      sites.filterMap (ix.reference? target method) := by
  rw [foundAt, List.map_filterMap]
  congr 1
  funext s
  cases ix.reference? target method s <;> rfl

theorem references_eq (indexed : ix.methodNumber? m = some target)
    (hmethod : ix.methods[target]? = some method) :
    method.decl.id = m ∧
      ix.references (fun _ => false) m =
        .ok ((ix.candidateSites m).filterMap (ix.reference? target method)) := by
  obtain ⟨d, hd, hid⟩ := exists_of_methodNumber? indexed
  cases hmethod.symm.trans hd
  refine ⟨hid, ?_⟩
  rw [references, method?, indexed, Option.bind_some, hmethod]
  exact congrArg Except.ok (referencesAmong_never none _)

/-- Where one call has the name of a method, it decides what a search gives. -/
theorem references_of_site {s : Site} {found : List Reference}
    (hindexed : (ix.methodNumber? m).isSome = true)
    (hsites : (searchNames m).flatMap ix.sitesNamed = [s])
    (hfound : ((ix.methodNumber? m).bind fun target =>
      ix.methods[target]?.bind fun method => ix.reference? target method s).toList = found) :
    ix.references (fun _ => false) m = .ok found := by
  obtain ⟨target, hnumber⟩ := Option.isSome_iff_exists.1 hindexed
  obtain ⟨method, hmethod, -⟩ := exists_of_methodNumber? hnumber
  rw [hnumber, Option.bind_some, hmethod, Option.bind_some] at hfound
  rw [(references_eq hnumber hmethod).2, candidateSites, hsites, List.mergeSort_singleton, ← hfound]
  change Except.ok ([s].filterMap _) = _
  rw [List.filterMap_cons]
  cases ix.reference? target method s <;> rfl

/-- **A search by name finds what a scan finds.** For every index of files that have been read
(`SourceFile.isRead_read`) and every method in it, constructors of types that are not plainly named
apart: the references are, in the order of files and offsets, those of the calls that binding alone
makes references, each with its accuracy and the method around it. No call gives two of them, unless
the method is a constructor and its type is named like one of the keywords under which constructors
are called. -/
theorem references_scan (files : List SourceFile) (read : ∀ f ∈ files, f.IsRead) (m : MethodId)
    (target : Nat) (indexed : (ofFiles files).methodNumber? m = some target)
    (method : IndexedMethod) (hmethod : (ofFiles files).methods[target]? = some method)
    (plain : m.isConstructor = true → (ofFiles files).PlainlyNamed method) :
    ∃ found : List (Site × Reference),
      (ofFiles files).references (fun _ => false) m = .ok (found.map Prod.snd) ∧
      (found.map Prod.fst).Pairwise (fun a b => (ofFiles files).siteLe a b = true) ∧
      (∀ s r, (s, r) ∈ found ↔ (ofFiles files).IsReference target method s r) ∧
      ((m.isConstructor = true → m.simpleTypeName ∉ ["super", "this", "new"]) →
        (found.map Prod.fst).Nodup) := by
  have named := named_ofFiles read
  obtain ⟨rfl, hreferences⟩ := references_eq indexed hmethod
  refine ⟨(ofFiles files).foundAt target method ((ofFiles files).candidateSites method.decl.id),
    ?_, ?_, fun s r => ?_, fun names => ?_⟩
  · rw [hreferences, map_snd_foundAt]
  · exact (pairwise_candidateSites ..).sublist (map_fst_foundAt_sublist _)
  · rw [mem_foundAt, named.reference?_eq_some hmethod plain, and_iff_right_iff_imp]
    exact fun hr => named.mem_candidateSites hmethod plain hr
  · exact (map_fst_foundAt_sublist _).nodup
      (nodup_candidateSites _ (nodup_searchNames names))

/-! ## A constructor that creates -/

/-- A leaf with the gap before it. -/
def token (role : Option Role) (kind : Kind) (gap text : String) (start : Nat) : Node :=
  .leaf role kind ⟨gap, text, start, false⟩

/-- A keyword, an operator or a bracket. -/
def sign (gap text : String) (start : Nat) : Node :=
  token none .symbol gap text start

/-- A body in braces. -/
def braced (kind : Kind) (start : Nat) (parts : List Node) (stop : Nat) : Node :=
  .branch (some .body) kind (sign " " "\x7b" start :: parts ++ [sign " " "\x7d" stop])

/-- An empty list of parameters. -/
def noParameters (start : Nat) : Node :=
  .branch (some .parameters) .formalParameters [sign "" "(" start, sign "" ")" (start + 1)]

/-- An empty list of arguments. -/
def noArguments (start : Nat) : Node :=
  .branch (some .arguments) .argumentList [sign "" "(" start, sign "" ")" (start + 1)]

/-- A class whose constructor creates another object of it, in a package `a.b`. The name of the
package may be written with a comment. -/
def fooTree (comment : String) : Node :=
  let start := 13 + comment.utf8ByteSize
  .branch none .program [
    .branch none .packageDeclaration [
      sign "" "package" 0,
      .branch none .scopedIdentifier [
        token (some .scope) .identifier " " "a" 8,
        sign "" "." 9,
        token (some .name) .identifier comment "b" (start - 3)],
      sign "" ";" (start - 2)],
    .branch none .classDeclaration [
      sign " " "class" start,
      token (some .name) .identifier " " "Foo" (start + 6),
      braced .classBody (start + 10) [
        .branch none .constructorDeclaration [
          token (some .name) .identifier " " "Foo" (start + 12),
          .branch (some .parameters) .formalParameters [
            sign "" "(" (start + 15),
            .branch none .formalParameter [
              .branch (some .type) .integralType [sign "" "int" (start + 16)],
              token (some .name) .identifier " " "i" (start + 20)],
            sign "" ")" (start + 21)],
          braced .constructorBody (start + 23) [
            .branch none .expressionStatement [
              .branch none .objectCreationExpression [
                sign " " "new" (start + 25),
                token (some .type) .typeIdentifier " " "Foo" (start + 29),
                .branch (some .arguments) .argumentList [
                  sign "" "(" (start + 32),
                  token none .literal "" "1" (start + 33),
                  sign "" ")" (start + 34)]],
              sign "" ";" (start + 35)]] (start + 37)]] (start + 39)]]

/-- A file with a tree, on one line. -/
def fileOf (path content : String) (tree : Node) : SourceFile :=
  ⟨⟨path, content, false⟩, [0], tree, Outline.ofTree (fun _ => 1) tree⟩

def fooFile (comment : String) : SourceFile :=
  fileOf "Foo.java"
    ("package a." ++ comment ++ "b; class Foo \x7b Foo(int i) \x7b new Foo(1); \x7d \x7d")
    (fooTree comment)

/-- The type in the index of that file. -/
def fooType (comment : String) : IndexedType where
  decl := ⟨"a." ++ comment ++ "b.Foo", "Foo", .classType, 1, none, []⟩
  file := 0

/-- The constructor in the index of that file. -/
def fooConstructor (comment : String) : IndexedMethod where
  decl :=
    { id := ⟨"a." ++ comment ++ "b.Foo#Foo(int)"⟩
      type := 0
      start := 25 + comment.utf8ByteSize
      stop := 51 + comment.utf8ByteSize
      lineStart := 1
      lineEnd := 1
      calls := [⟨.creation, "Foo", .typed "Foo", some 1, 38 + comment.utf8ByteSize, 10, 1⟩] }
  file := 0

/-- The reference that the creation is. -/
def fooReference (comment : String) : Reference :=
  ⟨"Foo.java", 38 + comment.utf8ByteSize, 10, .exact, some ⟨"a." ++ comment ++ "b.Foo#Foo(int)"⟩⟩

theorem isRead_fileOf (path content : String) (tree : Node) : (fileOf path content tree).IsRead :=
  ⟨_, rfl⟩

theorem fooFile_scan :
    (∀ f ∈ [fooFile ""], f.IsRead) ∧
    (ofFiles [fooFile ""]).methodNumber? ⟨"a.b.Foo#Foo(int)"⟩ = some 0 ∧
    (ofFiles [fooFile ""]).methods[0]? = some (fooConstructor "") ∧
    (ofFiles [fooFile ""]).PlainlyNamed (fooConstructor "") ∧
    ∃ found : List (Site × Reference),
      (ofFiles [fooFile ""]).references (fun _ => false) ⟨"a.b.Foo#Foo(int)"⟩ =
        .ok (found.map Prod.snd) ∧
      (found.map Prod.fst).Nodup ∧ (⟨0, 0⟩, fooReference "") ∈ found := by
  have read : ∀ f ∈ [fooFile ""], f.IsRead := by simp [fooFile, isRead_fileOf]
  have indexed : (ofFiles [fooFile ""]).methodNumber? ⟨"a.b.Foo#Foo(int)"⟩ = some 0 := by
    decide +kernel
  have hmethod : (ofFiles [fooFile ""]).methods[0]? = some (fooConstructor "") := by
    decide +kernel
  have plain : (ofFiles [fooFile ""]).PlainlyNamed (fooConstructor "") :=
    ⟨fooType "", by decide +kernel, by decide, by decide, by decide⟩
  obtain ⟨found, hfound, -, hreference, hnodup⟩ :=
    references_scan [fooFile ""] read _ 0 indexed _ hmethod fun _ => plain
  refine ⟨read, indexed, hmethod, plain, found, hfound, hnodup fun _ => by decide, ?_⟩
  refine (hreference _ _).2 ⟨_, _, .exact, callAt?_eq_some.2 ⟨hmethod, rfl⟩, ?_, ?_⟩
  · decide +kernel
  · decide +kernel

/-! ## Where a search and a scan differ -/

/-- A comment with the sign that ends the name of the type in the identifier of a method. -/
def hashComment : String := "/*.Z#Z(*/"

theorem fooFile_hashComment_lost :
    (ofFiles [fooFile hashComment]).references (fun _ => false)
        (fooConstructor hashComment).decl.id = .ok [] ∧
      (ofFiles [fooFile hashComment]).IsReference 0 (fooConstructor hashComment) ⟨0, 0⟩
        (fooReference hashComment) := by
  have hindexed : (ofFiles [fooFile hashComment]).methodNumber?
      (fooConstructor hashComment).decl.id = some 0 := by decide +kernel
  have hmethod : (ofFiles [fooFile hashComment]).methods[0]? =
      some (fooConstructor hashComment) := by decide +kernel
  -- the constructor is looked for as one of a type `Z`
  have hsites : (searchNames (fooConstructor hashComment).decl.id).flatMap
      (ofFiles [fooFile hashComment]).sitesNamed = [] := by decide +kernel
  constructor
  · rw [(references_eq hindexed hmethod).2, candidateSites, hsites, List.mergeSort_nil]
    rfl
  · refine ⟨_, _, .exact, callAt?_eq_some.2 ⟨hmethod, rfl⟩, ?_, ?_⟩
    · decide +kernel
    · decide +kernel

/-- A class named `new` whose constructor writes `new new()::new`: a creation, and a reference to a
constructor that starts in the same place. -/
def newTree : Node :=
  .branch none .program [
    .branch none .classDeclaration [
      sign "" "class" 0,
      token (some .name) .identifier " " "new" 6,
      braced .classBody 10 [
        .branch none .constructorDeclaration [
          token (some .name) .identifier " " "new" 12,
          noParameters 15,
          braced .constructorBody 18 [
            .branch none .localVariableDeclaration [
              token (some .type) .typeIdentifier " " "Object" 20,
              .branch (some .declarator) .variableDeclarator [
                token (some .name) .identifier " " "o" 27,
                sign " " "=" 29,
                .branch (some .value) .methodReference [
                  .branch none .objectCreationExpression [
                    sign " " "new" 31,
                    token (some .type) .typeIdentifier " " "new" 35,
                    noArguments 38],
                  sign "" "::" 40,
                  sign "" "new" 42]],
              sign "" ";" 45]] 47]] 49]]

def newFile : SourceFile :=
  fileOf "new.java" "class new \x7b new() \x7b Object o = new new()::new; \x7d \x7d" newTree

/-- The type in the index of that file. -/
def newType : IndexedType where
  decl := ⟨"new", "new", .classType, 1, none, []⟩
  file := 0

/-- The constructor in the index of that file. -/
def newConstructor : IndexedMethod where
  decl :=
    { id := ⟨"new#new()"⟩
      type := 0
      start := 12
      stop := 48
      lineStart := 1
      lineEnd := 1
      calls := [
        ⟨.reference, "new", .typed "new", none, 31, 14, 1⟩,
        ⟨.creation, "new", .typed "new", some 0, 31, 9, 1⟩] }
  file := 0

theorem candidateSites_newFile :
    (ofFiles [newFile]).candidateSites newConstructor.decl.id =
      [⟨0, 0⟩, ⟨0, 1⟩, ⟨0, 0⟩, ⟨0, 1⟩] := by
  have hsites : (searchNames newConstructor.decl.id).flatMap (ofFiles [newFile]).sitesNamed =
      [⟨0, 0⟩, ⟨0, 1⟩, ⟨0, 0⟩, ⟨0, 1⟩] := by decide +kernel
  -- all four are at one offset, so that sorting does not bring the equal ones together
  have hsorted : ([⟨0, 0⟩, ⟨0, 1⟩, ⟨0, 0⟩, ⟨0, 1⟩] : List Site).Pairwise
      (fun a b => (ofFiles [newFile]).siteLe a b = true) := by decide +kernel
  rw [candidateSites, hsites, List.mergeSort_of_pairwise hsorted]
  decide

theorem plainlyNamed_newConstructor : (ofFiles [newFile]).PlainlyNamed newConstructor :=
  ⟨newType, by decide +kernel, by decide, by decide, by decide⟩

theorem newFile_repeated (found : List (Site × Reference))
    (hfound : (ofFiles [newFile]).references (fun _ => false) newConstructor.decl.id =
      .ok (found.map Prod.snd))
    (hreference : ∀ s r, (s, r) ∈ found → (ofFiles [newFile]).IsReference 0 newConstructor s r) :
    ¬ (found.map Prod.fst).Nodup := by
  intro hnodup
  have named : (ofFiles [newFile]).Named := named_ofFiles (by simp [newFile, isRead_fileOf])
  have hindexed : (ofFiles [newFile]).methodNumber? newConstructor.decl.id = some 0 := by
    decide +kernel
  have hmethod : (ofFiles [newFile]).methods[0]? = some newConstructor := by decide +kernel
  have hmany : found.length = 4 := by
    rw [(references_eq hindexed hmethod).2, candidateSites_newFile] at hfound
    have hlength := congrArg List.length (Except.ok.inj hfound)
    rw [List.length_map] at hlength
    exact hlength.symm.trans (by decide +kernel)
  have hdistinct : ∀ s ∈ ([⟨0, 0⟩, ⟨0, 1⟩, ⟨0, 0⟩, ⟨0, 1⟩] : List Site),
      s ∈ ([⟨0, 0⟩, ⟨0, 1⟩] : List Site) := by decide
  have hsubset : found.map Prod.fst ⊆ [⟨0, 0⟩, ⟨0, 1⟩] := by
    intro s hs
    obtain ⟨⟨s, r⟩, hmem, rfl⟩ := List.mem_map.1 hs
    have hcandidate := named.mem_candidateSites hmethod (fun _ => plainlyNamed_newConstructor)
      (hreference s r hmem)
    rw [candidateSites_newFile] at hcandidate
    exact hdistinct s hcandidate
  have hfew := hnodup.length_le_of_subset hsubset
  rw [List.length_map, hmany] at hfew
  exact absurd hfew (by decide)

/-- **Named types without a dollar sign are not enough.** The identifier of a method is cut at the
first `#`, and the name of a package may hold one in a comment: the constructor is then looked for
under another name, and the creation in it is lost. And a search for the constructor of a class
named `new` gives more references than there are calls. -/
theorem search_not_scan :
    (∃ files m target method t, (∀ f ∈ files, SourceFile.IsRead f) ∧
      (ofFiles files).methodNumber? m = some target ∧
      (ofFiles files).methods[target]? = some method ∧
      (ofFiles files).types[method.decl.type]? = some t ∧ t.decl.kind ≠ .anonymousType ∧
      '$' ∉ t.decl.simpleName.toList ∧
      (ofFiles files).references (fun _ => false) m = .ok [] ∧
      ∃ s r, (ofFiles files).IsReference target method s r) ∧
    ∃ files m target method, (∀ f ∈ files, SourceFile.IsRead f) ∧
      (ofFiles files).methodNumber? m = some target ∧
      (ofFiles files).methods[target]? = some method ∧ (ofFiles files).PlainlyNamed method ∧
      ∀ found : List (Site × Reference),
        (ofFiles files).references (fun _ => false) m = .ok (found.map Prod.snd) →
        (∀ s r, (s, r) ∈ found → (ofFiles files).IsReference target method s r) →
        ¬ (found.map Prod.fst).Nodup := by
  constructor
  · exact ⟨[fooFile hashComment], (fooConstructor hashComment).decl.id, 0,
      fooConstructor hashComment, fooType hashComment, by simp [fooFile, isRead_fileOf],
      by decide +kernel, by decide +kernel, by decide +kernel, by decide, by decide,
      fooFile_hashComment_lost.1, _, _, fooFile_hashComment_lost.2⟩
  · exact ⟨[newFile], newConstructor.decl.id, 0, newConstructor,
      by simp [newFile, isRead_fileOf], by decide +kernel, by decide +kernel,
      plainlyNamed_newConstructor, newFile_repeated⟩

end Java.Index
end CallOrigins
