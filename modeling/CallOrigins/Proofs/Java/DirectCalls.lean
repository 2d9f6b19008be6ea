import CallOrigins.Proofs.Java.CallOrder

/-!
# Call sites and direct calls

A search notes the direct calls of its target, one for each caller and offset. So two exact
references in one caller are one direct call if they have the same offset.

**The law** (`directCalls_sites`): for every index of sound files, each exact reference has a direct
call with its caller and its offset, each direct call is that of an exact reference, and no two of
them are at one place. Two calls of a caller that are reported for one method share their offset only
if the first one starts with the second. It is then not a call of a method but a reference to one, or
the call of a constructor; the calls of a method by its name are always apart.

The exception is real (`references_collapse`): in `foo()::foo` both the call and the reference mean
the method `foo`, they start at the same place, and only the first of them is noted. And so is the
need of names (`namelessCalls_share_offset`), which the method calls in a text always have.
-/

namespace CallOrigins

/-- The caller and the offset of a direct call. -/
def DirectCall.place (c : DirectCall) : MethodId × Nat :=
  (c.caller, c.offset)

namespace Findings.Complete

variable {cb : Codebase} {target : MethodId} {f : Findings}

theorem places_directCalls (h : f.Complete cb target) :
    f.directCalls.map DirectCall.place = (cb.callSites target).map Codebase.siteKey := by
  rw [h.directCalls_eq, List.map_map]
  rfl

/-- No two direct calls are at one place. -/
theorem nodup_places (h : f.Complete cb target) : (f.directCalls.map DirectCall.place).Nodup := by
  rw [h.places_directCalls]
  exact (nodup_freshBy ..).1

end Findings.Complete

namespace Java.Index

variable {ix : Index} {m : MethodId} {r : Reference}

/-! ## Calls that are reported for one method -/

/-- A reported call of a method by its name has a name, if the method that was sought has one or all
calls have. -/
theorem name_ne_of_reported {files : List SourceFile} (read : ∀ f ∈ files, f.IsRead) {s : Site}
    (h : (s, r) ∈ (ofFiles files).reported m)
    (named : (m.isConstructor = false → m.name ≠ "") ∨ ∀ f ∈ files, f.NamesCalls)
    {d : IndexedMethod} {c : Call} (hc : (ofFiles files).callAt? s = some (d, c))
    (hkind : c.kind = .method) : c.name ≠ "" := by
  obtain ⟨target, method, _, _, _, htarget, hmethod, -, hcall, -, hbind, -⟩ := mem_reported.1 h
  cases hc.symm.trans hcall
  rcases named with named | named
  · obtain ⟨hconstructor, hname⟩ := name_of_bind? hmethod hbind hkind
    obtain rfl := (references_eq htarget hmethod).1
    rw [hname]
    exact named hconstructor
  · obtain ⟨hd, hplace⟩ := callAt?_eq_some.1 hc
    obtain ⟨f, hf, hmade⟩ := made_ofFiles read d (Array.mem_of_getElem? hd)
    obtain ⟨line, scopes, b, n, hn, hcall⟩ := hmade c (List.mem_of_getElem? hplace)
    have hfile := Array.mem_of_getElem? hf
    rw [files_ofFiles] at hfile
    exact (named f (List.mem_toArray.1 hfile) n hn).name_ne (Node.makes_of_call? hcall) hkind

/-- What is reported for a method that is no constructor is a call by name or a reference. -/
theorem kind_of_reported {s : Site} (h : (s, r) ∈ ix.reported m) (hm : m.isConstructor = false)
    {d : IndexedMethod} {c : Call} (hc : ix.callAt? s = some (d, c)) :
    c.kind = .method ∨ c.kind = .reference := by
  obtain ⟨target, method, _, _, _, htarget, hmethod, -, hcall, -, hbind, -⟩ := mem_reported.1 h
  cases hc.symm.trans hcall
  obtain rfl := (references_eq htarget hmethod).1
  rw [bind?, hm] at hbind
  exact kind_of_bindMethod hbind

/-- **Two reported calls at one place.** Of the calls of one caller that are reported for a method,
an earlier and a later one have the same offset only if the earlier one starts with the later one. -/
theorem startsWith_of_reported {files : List SourceFile} (read : ∀ f ∈ files, f.IsRead)
    (sound : ∀ f ∈ files, f.IsSound)
    (named : (m.isConstructor = false → m.name ≠ "") ∨ ∀ f ∈ files, f.NamesCalls)
    {s s' : Site} {r r' : Reference} (h : (s, r) ∈ (ofFiles files).reported m)
    (h' : (s', r') ∈ (ofFiles files).reported m) (hcaller : r.element = r'.element)
    (hplace : s.place < s'.place) (hoffset : r.offset = r'.offset) :
    ∃ d c c', (ofFiles files).callAt? s = some (d, c) ∧ (ofFiles files).callAt? s' = some (d, c') ∧
      c.StartsWith c' ∧ (m.isConstructor = false → c.kind = .reference) := by
  obtain ⟨_, _, d, c, _, _, _, _, hcall, _, _, rfl⟩ := mem_reported.1 h
  obtain ⟨_, _, d', c', _, _, _, _, hcall', _, _, rfl⟩ := mem_reported.1 h'
  obtain ⟨hd, hc⟩ := callAt?_eq_some.1 hcall
  obtain ⟨hd', hc'⟩ := callAt?_eq_some.1 hcall'
  -- the callers have one identifier, so they are one method
  have hsame := (wellFormed_ofFiles read).eq_of_id_eq hd hd' (Option.some.inj hcaller)
  rw [← hsame] at hd'
  cases hd.symm.trans hd'
  have hstarts : c.StartsWith c' :=
    startsWith_of_calls read sound (Array.mem_of_getElem? hd) hc hc' hplace
      (name_ne_of_reported read h named hcall) (name_ne_of_reported read h' named hcall') hoffset
  refine ⟨d, c, c', hcall, hcall', hstarts, fun hm => ?_⟩
  exact (kind_of_reported h hm hcall).resolve_left hstarts.kind

/-- **Direct calls are call sites, place by place.** For every index of sound files that have been
read, and every method. Of two calls of one caller that are reported for it, and that have the same
offset, the first starts with the second, and unless the method is a constructor it is a method
reference; here the method has to have a name, or the method calls of the files. A search notes one
direct call for every caller and offset of exact references, and no other. -/
theorem directCalls_sites (files : List SourceFile) (read : ∀ f ∈ files, f.IsRead)
    (sound : ∀ f ∈ files, f.IsSound) (m : MethodId) :
    ((m.isConstructor = false → m.name ≠ "") ∨ (∀ f ∈ files, f.NamesCalls) →
      ∀ (s s' : Site) (r r' : Reference),
      (s, r) ∈ (ofFiles files).reported m → (s', r') ∈ (ofFiles files).reported m →
      r.element = r'.element → s.place < s'.place → r.offset = r'.offset →
      ∃ d c c', (ofFiles files).callAt? s = some (d, c) ∧
        (ofFiles files).callAt? s' = some (d, c') ∧ c.StartsWith c' ∧
        (m.isConstructor = false → c.kind = .reference)) ∧
    ∃ f, ((ofFiles files).codebase.traverse .never m).outcome = .finished f ∧
      (f.directCalls.map DirectCall.place).Nodup ∧
      (∀ (s : Site) (r : Reference), (s, r) ∈ (ofFiles files).reported m → r.accuracy = .exact →
        ∃ call ∈ f.directCalls, r.element = some call.caller ∧ r.offset = call.offset) ∧
      ∀ call ∈ f.directCalls, ∃ (s : Site) (r : Reference), (s, r) ∈ (ofFiles files).reported m ∧
        r.accuracy = .exact ∧ r.element = some call.caller ∧ r.offset = call.offset ∧
        r.length = call.length := by
  refine ⟨fun named s s' r r' h h' hcaller hplace hoffset =>
    startsWith_of_reported read sound named h h' hcaller hplace hoffset, ?_⟩
  obtain ⟨f, houtcome, hcomplete⟩ := (ofFiles files).exists_findings m
  refine ⟨f, houtcome, hcomplete.nodup_places, fun s r h hexact => ?_, fun call hcall => ?_⟩
  · obtain ⟨_, _, d, c, _, _, _, _, _, _, _, hr⟩ := mem_reported.1 h
    have helement : r.element = some d.decl.id := by rw [hr]
    obtain ⟨site, hsite, hkey⟩ := exists_mem_freshBy Codebase.siteKey
      (mem_sites_found.2 ⟨⟨s, h⟩, hexact, helement⟩)
    obtain ⟨hcaller, hoffset⟩ := Prod.mk.inj hkey
    refine ⟨(ofFiles files).codebase.directCall m site, ?_, ?_, hoffset.symm⟩
    · rw [hcomplete.directCalls_eq]
      exact List.mem_map_of_mem hsite
    · rw [helement]
      exact congrArg some hcaller.symm
  · rw [hcomplete.directCalls_eq] at hcall
    obtain ⟨⟨caller, r⟩, hsite, rfl⟩ := List.mem_map.1 hcall
    obtain ⟨⟨s, hs⟩, hexact, helement⟩ := mem_sites_found.1 ((freshBy_sublist ..).subset hsite)
    exact ⟨s, r, hs, hexact, helement, rfl, rfl⟩

/-! ## A call and a reference at one place -/

/-- A reference to a method of what the same method gives. -/
def chainedReference : Node :=
  .branch (some .value) .methodReference [
    .branch none .methodInvocation [
      token (some .name) .identifier " " "foo" 59,
      noArguments 62],
    sign "" "::" 64,
    token none .identifier "" "foo" 66]

/-- A class with a method, and with another one that refers to it in this way. -/
def chainedTree : Node :=
  .branch none .program [
    .branch none .classDeclaration [
      sign "" "class" 0,
      token (some .name) .identifier " " "A" 6,
      braced .classBody 8 [
        .branch none .methodDeclaration [
          token (some .type) .typeIdentifier " " "A" 10,
          token (some .name) .identifier " " "foo" 12,
          noParameters 15,
          braced .block 18 [
            .branch none .returnStatement [
              sign " " "return" 20,
              token none .thisWord " " "this" 27,
              sign "" ";" 31]] 33],
        .branch none .methodDeclaration [
          token (some .type) .voidType " " "void" 35,
          token (some .name) .identifier " " "f" 40,
          noParameters 41,
          braced .block 44 [
            .branch none .localVariableDeclaration [
              token (some .type) .typeIdentifier " " "Runnable" 46,
              .branch (some .declarator) .variableDeclarator [
                token (some .name) .identifier " " "r" 55,
                sign " " "=" 57,
                chainedReference],
              sign "" ";" 69]] 71]] 73]]

def chainedFile : SourceFile :=
  fileOf "A.java" ("class A \x7b A foo() \x7b return this; \x7d " ++
    "void f() \x7b Runnable r = foo()::foo; \x7d \x7d") chainedTree

theorem isSound_chainedFile : chainedFile.IsSound :=
  SourceFile.isSound_of_passes (by unfold InOrder; decide +kernel) (by decide +kernel)
    (by decide +kernel)

/-- The method that is referred to. -/
def chainedTarget : IndexedMethod :=
  ⟨⟨⟨"A#foo()"⟩, 0, 10, 34, 1, 1, []⟩, 0⟩

/-- The method with the reference and the call in it. -/
def chainedCaller : IndexedMethod where
  decl :=
    { id := ⟨"A#f()"⟩
      type := 0
      start := 35
      stop := 72
      lineStart := 1
      lineEnd := 1
      calls := [⟨.reference, "foo", .unknown, none, 59, 10, 1⟩,
        ⟨.method, "foo", .implicit, some 0, 59, 5, 1⟩] }
  file := 0

theorem methods_chainedFile :
    (ofFiles [chainedFile]).methods = #[chainedTarget, chainedCaller] := by
  decide +kernel

/-- There are no calls but the two, and they have one offset. -/
theorem offset_of_callAt?_chainedFile {s : Site} {d : IndexedMethod} {c : Call}
    (h : (ofFiles [chainedFile]).callAt? s = some (d, c)) : d = chainedCaller ∧ c.offset = 59 := by
  obtain ⟨hd, hc⟩ := callAt?_eq_some.1 h
  have hmethods : ∀ d ∈ #[chainedTarget, chainedCaller], d.decl.calls ≠ [] → d = chainedCaller := by
    decide
  have hoffsets : ∀ c ∈ chainedCaller.decl.calls, c.offset = 59 := by decide
  have hmem := List.mem_of_getElem? hc
  obtain rfl : d = chainedCaller :=
    hmethods d (methods_chainedFile ▸ Array.mem_of_getElem? hd) (List.ne_nil_of_mem hmem)
  exact ⟨rfl, hoffsets c hmem⟩

/-- The reference to a call of the caller. -/
def chainedAt (c : Call) : Reference :=
  ⟨"A.java", c.offset, c.length, .exact, some ⟨"A#f()"⟩⟩

/-- Both calls are reported for the method that is referred to. -/
theorem mem_reported_chainedFile {place : Nat} {c : Call}
    (hc : chainedCaller.decl.calls[place]? = some c) :
    (⟨1, place⟩, chainedAt c) ∈ (ofFiles [chainedFile]).reported ⟨"A#foo()"⟩ := by
  have hnumber : (ofFiles [chainedFile]).methodNumber? ⟨"A#foo()"⟩ = some 0 := by decide +kernel
  have hpath : (ofFiles [chainedFile]).pathOf chainedCaller = "A.java" := by decide +kernel
  have hcall : (ofFiles [chainedFile]).callAt? ⟨1, place⟩ = some (chainedCaller, c) :=
    callAt?_eq_some.2 ⟨by rw [methods_chainedFile]; rfl, hc⟩
  have hbinds : ∀ c ∈ chainedCaller.decl.calls,
      c.name = "foo" ∧ fitsCall ⟨"A#foo()"⟩ c = true ∧
        (ofFiles [chainedFile]).bind? 0 chainedTarget chainedCaller c = some .exact := by
    decide +kernel
  obtain ⟨hname, hfits, hbind⟩ := hbinds c (List.mem_of_getElem? hc)
  refine mem_reported.2 ⟨0, chainedTarget, chainedCaller, c, .exact, hnumber,
    by rw [methods_chainedFile]; rfl, mem_candidateSites.2 ⟨_, _, hcall, ?_⟩, hcall, hfits, hbind,
    by rw [hpath]; rfl⟩
  rw [hname]
  decide

/-- The call in the reference starts it, and both are one direct call. -/
theorem chainedFile_sites :
    (∀ f ∈ [chainedFile], f.IsRead) ∧ (∀ f ∈ [chainedFile], f.IsSound) ∧
    (∃ d c c', (ofFiles [chainedFile]).callAt? ⟨1, 0⟩ = some (d, c) ∧
      (ofFiles [chainedFile]).callAt? ⟨1, 1⟩ = some (d, c') ∧ c.StartsWith c' ∧
      c.kind = .reference) ∧
    ∃ f, ((ofFiles [chainedFile]).codebase.traverse .never ⟨"A#foo()"⟩).outcome = .finished f ∧
      ∃ call ∈ f.directCalls, call.caller = ⟨"A#f()"⟩ ∧ call.offset = 59 := by
  have read : ∀ f ∈ [chainedFile], f.IsRead := by simp [chainedFile, isRead_fileOf]
  have sound : ∀ f ∈ [chainedFile], f.IsSound := by simp [isSound_chainedFile]
  have hreference := @mem_reported_chainedFile 0 _ rfl
  have hcall := @mem_reported_chainedFile 1 _ rfl
  obtain ⟨hsites, f, houtcome, -, hall, -⟩ :=
    directCalls_sites [chainedFile] read sound ⟨"A#foo()"⟩
  obtain ⟨d, c, c', hd, hd', hstarts, hkind⟩ :=
    hsites (.inl fun _ => by decide) _ _ _ _ hreference hcall rfl (by decide) rfl
  obtain ⟨call, hmem, hcaller, hoffset⟩ := hall _ _ hreference rfl
  exact ⟨read, sound, ⟨d, c, c', hd, hd', hstarts, hkind (by decide)⟩, f, houtcome, call, hmem,
    (Option.some.inj hcaller).symm, hoffset.symm⟩

/-- **Two calls are one direct call.** In `foo()::foo` the reference and the call in it are exact
references to the method `foo`, in one caller and at one offset. They are different calls, and a
search notes one of them. -/
theorem references_collapse :
    ∃ files m s s' r r' f, (∀ f ∈ files, SourceFile.IsRead f) ∧
      (∀ f ∈ files, SourceFile.IsSound f) ∧ s ≠ s' ∧
      (s, r) ∈ (ofFiles files).reported m ∧ (s', r') ∈ (ofFiles files).reported m ∧
      r.accuracy = .exact ∧ r'.accuracy = .exact ∧ r.element = r'.element ∧
      r.offset = r'.offset ∧
      ((ofFiles files).codebase.traverse .never m).outcome = .finished f ∧
      f.directCalls.length = 1 := by
  have hreference := @mem_reported_chainedFile 0 _ rfl
  have hcall := @mem_reported_chainedFile 1 _ rfl
  obtain ⟨f, houtcome, hcomplete⟩ := (ofFiles [chainedFile]).exists_findings ⟨"A#foo()"⟩
  refine ⟨[chainedFile], ⟨"A#foo()"⟩, ⟨1, 0⟩, ⟨1, 1⟩, _, _, f,
    by simp [chainedFile, isRead_fileOf], by simp [isSound_chainedFile], by decide, hreference,
    hcall, rfl, rfl, rfl, rfl, houtcome, ?_⟩
  have hkey : ∀ site ∈ (ofFiles [chainedFile]).codebase.sites
      ((ofFiles [chainedFile]).codebase.found ⟨"A#foo()"⟩),
      Codebase.siteKey site = (⟨"A#f()"⟩, 59) := by
    intro site hsite
    obtain ⟨⟨s, hs⟩, -, helement⟩ := mem_sites_found.1 hsite
    obtain ⟨_, _, d, c, _, _, _, _, hcall', _, _, hr⟩ := mem_reported.1 hs
    obtain ⟨rfl, hoffset⟩ := offset_of_callAt?_chainedFile hcall'
    rw [hr] at helement
    rw [Codebase.siteKey, hr, hoffset, ← Option.some.inj helement]
    rfl
  rw [hcomplete.directCalls_eq, List.length_map]
  exact length_freshBy_of_key_eq hkey
    (List.ne_nil_of_mem (mem_sites_found.2 ⟨⟨_, hreference⟩, rfl, rfl⟩))

/-- **A name is needed**: two calls without one are reported for a method at one offset, and neither
starts with the other. -/
theorem namelessCalls_share_offset :
    (∀ f ∈ [namelessFile], f.IsRead) ∧ (∀ f ∈ [namelessFile], f.IsSound) ∧
    (⟨0, 0⟩, namelessReference) ∈ (ofFiles [namelessFile]).reported ⟨"A#()"⟩ ∧
    (⟨0, 1⟩, namelessReference) ∈ (ofFiles [namelessFile]).reported ⟨"A#()"⟩ ∧
    (ofFiles [namelessFile]).callAt? ⟨0, 0⟩ = some (namelessMethod, namelessSite) ∧
    (ofFiles [namelessFile]).callAt? ⟨0, 1⟩ = some (namelessMethod, namelessSite) ∧
    ¬ namelessSite.StartsWith namelessSite :=
  ⟨isRead_namelessFile, isSound_namelessFile, mem_reported_namelessFile (by decide),
    mem_reported_namelessFile (by decide), callAt?_namelessFile (by decide),
    callAt?_namelessFile (by decide), fun h => h.kind rfl⟩

end Java.Index
end CallOrigins
