import CallOrigins.Java.Index.Assemble
import CallOrigins.Proofs.Identifiers
import CallOrigins.Proofs.Java.Lookups
import CallOrigins.Proofs.Java.Walk

/-!
# Names in an index

The names that an index is made of hang together. A declared type is named by its simple name,
perhaps with more in front; a method is identified through the name of its type; a call that
creates an object is named by the last part of the type that is written. Each step of a walk keeps
this (`Found.Named.step`), so it holds of every outline, and of every index of outlines
(`Index.named_ofFiles`).

From it follows what resolution does to names: nothing. A name that is written in a source means
only types that have that name, perhaps with more in front (`Index.Named.resolveType?`).
-/

namespace CallOrigins

open Text

namespace Java

/-- The name is the written one, or the written one with more in front and a point between. -/
def Qualified (name written : String) : Prop :=
  name = written ∨ ∃ front, name = front ++ "." ++ written

namespace Qualified

theorem refl (name : String) : Qualified name name := .inl rfl

theorem append (front written : String) : Qualified (front ++ "." ++ written) written :=
  .inr ⟨front, rfl⟩

/-- The names of members are as qualified as those of their types. -/
theorem member {name written : String} (h : Qualified name written) (simple : String) :
    Qualified (name ++ "." ++ simple) (written ++ "." ++ simple) := by
  rcases h with rfl | ⟨front, rfl⟩
  · exact .refl _
  · exact .inr ⟨front, by simp only [String.append_assoc]⟩

theorem lastSegment_eq {name written : String} (h : Qualified name written) :
    lastSegment name = lastSegment written := by
  rcases h with rfl | ⟨front, rfl⟩
  · rfl
  · have happend : (front ++ "." ++ written).toList = front.toList ++ '.' :: written.toList := by
      simp
    rw [lastSegment, lastSegment, happend, afterLastOf_append_cons rfl]

end Qualified

/-- The last part of a name, where points and dollar signs divide it, is what follows its last
point, unless there is a dollar sign in it. -/
theorem afterLastOf_eq_lastSegment {name simple : String} (h : Qualified name simple)
    (dollar : '$' ∉ simple.toList) :
    String.ofList (afterLastOf (fun c => c == '.' || c == '$') name.toList) = lastSegment name := by
  have hsimple : afterLastOf (fun c => c == '.' || c == '$') simple.toList =
      afterLastOf (· == '.') simple.toList :=
    afterLastOf_congr fun c hc => by
      simp [ne_of_mem_of_not_mem hc dollar]
  rw [h.lastSegment_eq, lastSegment, ← hsimple]
  rcases h with rfl | ⟨front, rfl⟩
  · rfl
  · have happend : (front ++ "." ++ simple).toList = front.toList ++ '.' :: simple.toList := by
      simp
    rw [happend, afterLastOf_append_cons rfl]

/-! ## Outlines -/

/-- The name under which a constructor is called: the last part of the type that is written, or a
keyword. -/
def Call.Named (c : Call) : Prop :=
  match c.kind with
  | .creation => ∀ type, c.receiver = .typed type → c.name = lastSegment type
  | .thisConstructor => c.name = "this"
  | .superConstructor => c.name = "super"
  | _ => True

theorem Call.IsMade.named {c : Call} {root : Node} (h : c.IsMade root) : c.Named := by
  obtain ⟨line, scopes, b, n, -, hc⟩ := h
  unfold call? at hc
  split at hc
  next =>
    split at hc
    next => cases hc
    next =>
      cases hc
      trivial
  next =>
    split at hc
    next => cases hc
    next type _ =>
      cases hc
      rintro _ ⟨⟩
      rfl
  next =>
    split at hc
    next => cases hc
    next =>
      split at hc
      next =>
        cases hc
        rfl
      next =>
        cases hc
        rfl
  next =>
    split at hc
    next =>
      cases hc
      trivial
    next => cases hc
  next => cases hc

/-- A method is identified through its type. -/
def IdentifiedBy (id : MethodId) (type : TypeDecl) : Prop :=
  ∃ name params, id = MethodId.ofParts type.name name params

namespace Found

/-- The names of what was found hang together. -/
structure Named (f : Found) : Prop where
  types : ∀ t ∈ f.types, t.kind ≠ .anonymousType → Qualified t.name t.simpleName
  methods : ∀ m ∈ f.methods, ∃ t, f.types[m.type]? = some t ∧ IdentifiedBy m.id t
  calls : ∀ m ∈ f.methods, ∀ c ∈ m.calls, c.Named

theorem Named.pushType {f : Found} (h : f.Named) {decl : TypeDecl}
    (hdecl : decl.kind ≠ .anonymousType → Qualified decl.name decl.simpleName) :
    Named { f with types := f.types.push decl } where
  types t ht := by
    rcases Array.mem_push.1 ht with ht | rfl
    · exact h.types t ht
    · exact hdecl
  methods m hm := by
    obtain ⟨t, ht, hid⟩ := h.methods m hm
    have hlt : m.type < f.types.size := (Array.getElem?_eq_some_iff.1 ht).1
    exact ⟨t, by rw [Array.getElem?_push, if_neg (Nat.ne_of_lt hlt), ht], hid⟩
  calls := h.calls

theorem Named.step {root : Node} {f f' : Found} (h : f.Named) (step : f.Step root f') :
    f'.Named := by
  cases step with
  | type within held entered =>
    obtain ⟨decl, rfl, hdecl⟩ := Surroundings.enterType_eq entered
    refine h.pushType fun _ => ?_
    rw [hdecl.name]
    split
    · exact .append ..
    · split
      · exact .refl _
      · exact .append ..
  | anonymous within based entered =>
    obtain ⟨decl, outer, rfl, hdecl⟩ := Surroundings.enterAnonymous_eq entered
    exact h.pushType fun hkind => absurd hdecl.kind hkind
  | method within held declared entered =>
    obtain ⟨decl, scope, name, params, rfl, hdecl, -⟩ := Surroundings.enterMethod_eq entered
    have hlt : scope.id < f.types.size :=
      within.types scope (Surroundings.mem_of_innermost? hdecl.innermost)
    refine ⟨h.types, fun m hm => ?_, fun m hm c hc => ?_⟩
    · rcases Array.mem_push.1 hm with hm | rfl
      · exact h.methods m hm
      · have hget : f.types[scope.id]? = some f.types[scope.id] := Array.getElem?_eq_getElem hlt
        refine ⟨f.types[scope.id], by rw [hdecl.type, hget], name, params, ?_⟩
        rw [hdecl.id, Found.typeName, hget]
        rfl
    · rcases Array.mem_push.1 hm with hm | rfl
      · exact h.calls m hm c hc
      · rw [hdecl.calls] at hc
        exact absurd hc List.not_mem_nil
  | calls _ method recorded =>
    refine ⟨h.types, fun m hm => ?_, fun m hm c hc => ?_⟩
    · obtain ⟨old, hold, rfl | rfl⟩ := mem_setCalls hm
      · exact h.methods m hold
      · exact h.methods old hold
    · obtain ⟨old, hold, rfl | rfl⟩ := mem_setCalls hm
      · exact h.calls m hold c hc
      · exact (recorded.isMade hc).named

end Found

/-- **The names of an outline hang together**, whatever tree it is of. -/
theorem Outline.named_ofTree (line : Nat → Nat) (root : Node) :
    (Outline.ofTree line root).found.Named :=
  (Outline.grows_ofTree line root).keeps (fun _ _ step h => h.step step)
    ⟨by simp, by simp, by simp⟩

/-! ## Indexes -/

/-- A source file whose outline is that of its tree. -/
def SourceFile.IsRead (f : SourceFile) : Prop :=
  ∃ line, f.outline = Outline.ofTree line f.tree

theorem SourceFile.isRead_read (s : Source) : (SourceFile.read s).IsRead :=
  ⟨_, rfl⟩

theorem SourceFile.IsRead.named {f : SourceFile} (h : f.IsRead) : f.outline.found.Named := by
  obtain ⟨line, hline⟩ := h
  rw [hline]
  exact Outline.named_ofTree line f.tree

namespace Index

/-- What every file of a sort keeps, when it is added, merging files of that sort keeps. -/
theorem foldl_addFile_keeps {kept : Index → Prop} {sort : SourceFile → Prop}
    (hstep : ∀ ix f, sort f → kept ix → kept (ix.addFile f))
    {files : List SourceFile} (read : ∀ f ∈ files, sort f) {ix : Index} (h : kept ix) :
    kept (files.foldl addFile ix) := by
  induction files generalizing ix with
  | nil => exact h
  | cons f files ih =>
    simp only [List.forall_mem_cons] at read
    exact ih read.2 (hstep ix f read.1 h)

/-- The names of an index hang together. -/
structure Named (ix : Index) : Prop where
  types : ∀ t ∈ ix.types, t.decl.kind ≠ .anonymousType → Qualified t.decl.name t.decl.simpleName
  methods : ∀ d ∈ ix.methods, ∃ t, ix.types[d.decl.type]? = some t ∧ IdentifiedBy d.decl.id t.decl
  calls : ∀ d ∈ ix.methods, ∀ c ∈ d.decl.calls, c.Named

theorem types_addMethod (ix : Index) (d : IndexedMethod) : (ix.addMethod d).types = ix.types := by
  unfold addMethod
  split <;> rfl

theorem mem_addMethod {ix : Index} {d d' : IndexedMethod} (h : d' ∈ (ix.addMethod d).methods) :
    d' ∈ ix.methods ∨ d' = d := by
  unfold addMethod at h
  split at h
  · exact .inl h
  · exact Array.mem_push.1 h

theorem Named.addMethod {ix : Index} (h : ix.Named) {d : IndexedMethod} {t : IndexedType}
    (ht : ix.types[d.decl.type]? = some t) (hid : IdentifiedBy d.decl.id t.decl)
    (hcalls : ∀ c ∈ d.decl.calls, c.Named) : (ix.addMethod d).Named where
  types := by
    rw [types_addMethod]
    exact h.types
  methods d' hd' := by
    rw [types_addMethod]
    rcases mem_addMethod hd' with hd' | rfl
    · exact h.methods d' hd'
    · exact ⟨t, ht, hid⟩
  calls d' hd' := by
    rcases mem_addMethod hd' with hd' | rfl
    · exact h.calls d' hd'
    · exact hcalls

/-- The methods of an outline, one after the other. -/
theorem Named.addMethods {o : Outline} (ho : o.found.Named) {file base : Nat}
    {ms : List MethodDecl} (hms : ∀ m ∈ ms, m ∈ o.methods) {ix : Index} (h : ix.Named)
    (htypes : ∀ i t, o.types[i]? = some t → ix.types[i + base]? = some (shiftType file base t)) :
    ((ms.map (shiftMethod file base)).foldl Index.addMethod ix).Named := by
  induction ms generalizing ix with
  | nil => exact h
  | cons m ms ih =>
    simp only [List.forall_mem_cons] at hms
    obtain ⟨t, ht, hid⟩ := ho.methods m hms.1
    have hadd : (ix.addMethod (shiftMethod file base m)).Named :=
      h.addMethod (htypes m.type t ht) hid (ho.calls m hms.1)
    exact ih hms.2 hadd (by rwa [types_addMethod])

theorem Named.addFile {ix : Index} (h : ix.Named) {f : SourceFile} (hf : f.IsRead) :
    (ix.addFile f).Named := by
  have ho := hf.named
  refine Named.addMethods ho (fun m hm => Array.mem_toList_iff.1 hm) ⟨?_, ?_, h.calls⟩ ?_
  · intro t ht
    rcases Array.mem_append.1 ht with ht | ht
    · exact h.types t ht
    · obtain ⟨decl, hdecl, rfl⟩ := Array.mem_map.1 ht
      exact ho.types decl hdecl
  · intro d hd
    obtain ⟨t, ht, hid⟩ := h.methods d hd
    have hlt : d.decl.type < ix.types.size := (Array.getElem?_eq_some_iff.1 ht).1
    exact ⟨t, by rw [types_replace, Array.getElem?_append_left hlt, ht], hid⟩
  · intro i t ht
    rw [types_replace, Array.getElem?_append_right (Nat.le_add_left ..), Nat.add_sub_cancel,
      Array.getElem?_map, ht]
    rfl

/-- A type keeps its number when it is linked. -/
theorem getElem?_types_linkSupers {ix : Index} {i : Nat} {t : IndexedType}
    (h : ix.types[i]? = some t) :
    ix.linkSupers.types[i]? = some { t with supers := ix.resolvedSupers t } := by
  rw [Index.linkSupers, types_withSupers, Array.getElem?_map, h]
  rfl

theorem Named.linkSupers {ix : Index} (h : ix.Named) : ix.linkSupers.Named where
  types t ht := by
    obtain ⟨old, hold, rfl⟩ := Array.mem_map.1 ht
    exact h.types old hold
  methods d hd := by
    obtain ⟨t, ht, hid⟩ := h.methods d hd
    exact ⟨_, getElem?_types_linkSupers ht, hid⟩
  calls := h.calls

theorem named_foldl_addFile {files : List SourceFile} (read : ∀ f ∈ files, f.IsRead) :
    (files.foldl addFile {}).Named :=
  foldl_addFile_keeps (fun _ _ hf h => h.addFile hf) read ⟨by simp, by simp, by simp⟩

/-- **The names of an index hang together**, whatever files it is of. -/
theorem named_ofFiles {files : List SourceFile} (read : ∀ f ∈ files, f.IsRead) :
    (ofFiles files).Named :=
  (named_foldl_addFile read).linkSupers

/-! ## Resolution -/

/-- The types around a place, from the inside outward. -/
def scopesAround (ix : Index) : Option Nat → List Nat
  | some scope => ix.enclosingTypes scope
  | none => []

/-- A simple name means what the nearest type around says, or else the file. -/
theorem resolveSimple?_eq (ix : Index) (simple : String) (file : Nat) (scope : Option Nat) :
    ix.resolveSimple? simple file scope =
      ((ix.scopesAround scope).findSome? (ix.typeInScope? simple)).or
        (ix.files[file]?.bind fun f => ix.typeInFile? f.outline simple) := by
  cases scope with
  | none => cases hfile : ix.files[file]? <;> simp [resolveSimple?, scopesAround, hfile]
  | some scope =>
    rw [scopesAround, resolveSimple?]
    cases (ix.enclosingTypes scope).findSome? (ix.typeInScope? simple) with
    | some t => rfl
    | none => cases ix.files[file]? <;> rfl

/-- The type with a number has this name, perhaps with more in front. -/
def Carries (ix : Index) (type : Nat) (name : String) : Prop :=
  ∃ t, ix.types[type]? = some t ∧ Qualified t.decl.name name

variable {ix : Index} {type : Nat}

theorem typeNamed?_eq_some {name : String} (h : ix.typeNamed? name = some type) :
    ∃ t, ix.types[type]? = some t ∧ t.decl.name = name :=
  (typeNamed?_eq_some_iff.1 h).1

theorem carries_of_typeNamed? {name written : String} (h : ix.typeNamed? name = some type)
    (hname : Qualified name written) : ix.Carries type written := by
  obtain ⟨t, ht, rfl⟩ := typeNamed?_eq_some h
  exact ⟨t, ht, hname⟩

theorem carries_of_memberType? {outer : Nat} {simple : String}
    (h : ix.memberType? outer simple = some type) : ix.Carries type simple := by
  unfold memberType? at h
  split at h
  · exact carries_of_typeNamed? h (.append ..)
  · cases h

/-- A member of a type that has a name. -/
theorem Carries.member {outer : Nat} {name simple : String} (h : ix.Carries outer name)
    (hm : ix.memberType? outer simple = some type) : ix.Carries type (name ++ "." ++ simple) := by
  obtain ⟨t, ht, hname⟩ := h
  rw [memberType?, ht] at hm
  exact carries_of_typeNamed? hm (hname.member simple)

theorem Named.typeInScope? (h : ix.Named) {simple : String} {scope : Nat}
    (hr : ix.typeInScope? simple scope = some type) : ix.Carries type simple := by
  unfold Index.typeInScope? at hr
  split at hr
  next hcalled =>
    cases hr
    unfold isCalled at hcalled
    split at hcalled
    next t ht =>
      simp only [Bool.and_eq_true, bne_iff_ne, beq_iff_eq] at hcalled
      exact ⟨t, ht, hcalled.2 ▸ h.types t (Array.mem_of_getElem? ht) hcalled.1⟩
    next => cases hcalled
  next =>
    split at hr
    next member =>
      cases hr
      exact carries_of_memberType? member
    next =>
      obtain ⟨outer, -, hm⟩ := List.exists_of_findSome?_eq_some hr
      exact carries_of_memberType? hm

theorem carries_of_typeInFile? {o : Outline} {simple : String}
    (h : ix.typeInFile? o simple = some type) : ix.Carries type simple := by
  unfold typeInFile? at h
  split at h
  next i hi =>
    have hends := List.find?_some hi
    obtain ⟨front, hfront⟩ := endsWith_iff.1 hends
    refine carries_of_typeNamed? h (.inr ⟨String.ofList front, ?_⟩)
    rw [← String.toList_inj, hfront]
    simp
  next =>
    dsimp only at h
    split at h
    next hpackage =>
      cases h
      refine carries_of_typeNamed? hpackage ?_
      split
      · exact .refl _
      · exact .append ..
    next =>
      obtain ⟨w, -, hw⟩ := List.exists_of_findSome?_eq_some h
      exact carries_of_typeNamed? hw (.append ..)

theorem Named.resolveSimple? (h : ix.Named) {simple : String} {file : Nat} {scope : Option Nat}
    (hr : ix.resolveSimple? simple file scope = some type) : ix.Carries type simple := by
  unfold Index.resolveSimple? at hr
  dsimp only at hr
  split at hr
  next hscope =>
    cases hr
    obtain ⟨s, -, hs⟩ := List.exists_of_findSome?_eq_some hscope
    exact h.typeInScope? hs
  next =>
    split at hr
    next => exact carries_of_typeInFile? hr
    next => cases hr

/-- **Resolution does not change a name.** The type that a name means has that name, perhaps with
more in front. -/
theorem Named.resolveType? (h : ix.Named) {name : String} {file : Nat} {scope : Option Nat}
    (hr : ix.resolveType? name file scope = some type) : ix.Carries type name := by
  unfold Index.resolveType? at hr
  split at hr
  next =>
    unfold resolveParts? at hr
    split at hr
    next => cases hr
    next t hsimple =>
      cases hr
      exact h.resolveSimple? hsimple
  next head rest hcut =>
    have hname : name = String.ofList head ++ "." ++ String.ofList rest := by
      rw [← String.toList_inj, eq_append_of_cutFirst hcut]
      simp
    split at hr
    next hqualified =>
      cases hr
      exact carries_of_typeNamed? hqualified (.refl name)
    next =>
      unfold resolveParts? at hr
      split at hr
      next => cases hr
      next t hsimple => exact hname ▸ (h.resolveSimple? hsimple).member hr

end Index
end Java
end CallOrigins
