import CallOrigins.Proofs.Java.Naming

/-!
# What binding says of a call

A call that can mean a method gives it a number of arguments that the method accepts, and it is
written under one of the names under which the method is looked for. This is why a search by name
and number of arguments passes over no call that counts.

For a method that is no constructor the name is kept on every route of binding: through types and
their supertypes, static imports, or no receiver at all. For a constructor the route goes over the
name of a type. The name that is written and the name of the type that it means have the same last
part; the name under which a constructor is looked for is read off its identifier. These are one
and the same where the identifier can be taken apart again: the type has a simple name, there is no
dollar sign in that, and no `#` in its qualified name.
-/

namespace CallOrigins.Java.Index

open Text

variable {ix : Index} {target : Nat} {method caller : IndexedMethod} {call : Call}
  {accuracy : Accuracy}

/-! ## Candidates -/

/-- The method with a number has the name and accepts the number of arguments. -/
def Fits (ix : Index) (method : Nat) (name : String) (arity : Option Nat) : Prop :=
  ∃ d, ix.methods[method]? = some d ∧ d.decl.id.name = name ∧
    arity.all d.decl.id.acceptsArity = true

theorem accepts_iff {arity : Option Nat} {i : Nat} {d : IndexedMethod}
    (hd : ix.methods[i]? = some d) :
    ix.accepts arity i = true ↔ arity.all d.decl.id.acceptsArity = true := by
  cases arity with
  | none => simp [accepts]
  | some n => simp [accepts, hd]

theorem mem_declaredMethods {type : Nat} {name : String} {arity : Option Nat} {i : Nat} :
    i ∈ ix.declaredMethods type name arity ↔
      ∃ d, ix.methods[i]? = some d ∧ d.decl.type = type ∧ d.decl.id.name = name ∧
        arity.all d.decl.id.acceptsArity = true := by
  rw [declaredMethods, List.mem_filter, mem_members]
  constructor
  · rintro ⟨⟨d, hd, htype, hname⟩, haccepts⟩
    exact ⟨d, hd, htype, hname, (accepts_iff hd).1 haccepts⟩
  · rintro ⟨d, hd, htype, hname, haccepts⟩
    exact ⟨⟨d, hd, htype, hname⟩, (accepts_iff hd).2 haccepts⟩

theorem fits_of_mem_declaredMethods {type : Nat} {name : String} {arity : Option Nat} {i : Nat}
    (h : i ∈ ix.declaredMethods type name arity) : ix.Fits i name arity := by
  obtain ⟨d, hd, -, hname, haccepts⟩ := mem_declaredMethods.1 h
  exact ⟨d, hd, hname, haccepts⟩

/-- The first of several lists that is not empty is one of them. -/
theorem mem_of_mem_getD_find? {lists : List (List Nat)} {p : List Nat → Bool} {i : Nat}
    (h : i ∈ (lists.find? p).getD []) : ∃ l ∈ lists, i ∈ l := by
  cases hfound : lists.find? p with
  | none => simp [hfound] at h
  | some l => exact ⟨l, List.mem_of_find?_eq_some hfound, by simpa [hfound] using h⟩

theorem fits_of_mem_inheritedMethods {starts : List Nat} {name : String} {arity : Option Nat}
    {i : Nat} (h : i ∈ ix.inheritedMethods starts name arity) : ix.Fits i name arity := by
  obtain ⟨l, hl, hi⟩ := mem_of_mem_getD_find? h
  obtain ⟨t, -, rfl⟩ := List.mem_map.1 hl
  exact fits_of_mem_declaredMethods hi

theorem fits_of_mem_bindImplicit {name : String} {arity : Option Nat} {i : Nat}
    (h : i ∈ ix.bindImplicit caller name arity) : ix.Fits i name arity := by
  unfold bindImplicit at h
  dsimp only at h
  split at h
  next ms hms =>
    obtain ⟨t, -, rfl⟩ := List.mem_map.1 (List.mem_of_find?_eq_some hms)
    exact fits_of_mem_inheritedMethods h
  next =>
    split at h
    next => exact absurd h List.not_mem_nil
    next =>
      obtain ⟨l, hl, hi⟩ := mem_of_mem_getD_find? h
      obtain ⟨t, -, rfl⟩ := List.mem_map.1 hl
      exact fits_of_mem_inheritedMethods hi

theorem fits_of_mem_bindCall {i : Nat} (h : i ∈ ix.bindCall caller call) :
    ix.Fits i call.name call.argCount := by
  unfold bindCall at h
  split at h
  next => exact fits_of_mem_bindImplicit h
  next =>
    split at h
    next => exact fits_of_mem_inheritedMethods h
    next => exact absurd h List.not_mem_nil
  next =>
    split at h
    next => exact fits_of_mem_inheritedMethods h
    next => exact absurd h List.not_mem_nil
  next =>
    obtain ⟨hnamed, haccepts⟩ := List.mem_filter.1 h
    rw [methodsNamed_eq] at hnamed
    obtain ⟨d, hd, hname⟩ := mem_methodsWhere.1 hnamed
    exact ⟨d, hd, of_decide_eq_true hname, (accepts_iff hd).1 haccepts⟩

theorem mem_of_accuracyOf {candidates : List Nat} (h : accuracyOf candidates target = some accuracy) :
    target ∈ candidates := by
  unfold accuracyOf at h
  split at h
  next hone => simp [hone]
  next =>
    split at h
    next hmem => exact hmem
    next => cases h

/-! ## Methods -/

theorem fits_of_bindMethod (h : ix.bindMethod caller call target = some accuracy) :
    ix.Fits target call.name call.argCount := by
  unfold bindMethod at h
  split at h
  next => exact fits_of_mem_bindCall (mem_of_accuracyOf h)
  next => exact fits_of_mem_bindCall (mem_of_accuracyOf h)
  next => cases h

/-! ## Constructors -/

theorem of_bindConstructor {constructor : IndexedMethod}
    (h : ix.bindConstructor caller call target constructor = some accuracy) :
    ix.createdType? caller call = some constructor.decl.type ∧
      ix.Fits target constructor.decl.id.name call.argCount := by
  unfold bindConstructor at h
  split at h
  next => cases h
  next t ht =>
    split at h
    next heq => exact ⟨heq ▸ ht, fits_of_mem_declaredMethods (mem_of_accuracyOf h)⟩
    next => cases h

/-- The simple name of its type can be read off the identifier of a method: the type has one,
there is no dollar sign in it, and no `#` in the qualified name. -/
def PlainlyNamed (ix : Index) (method : IndexedMethod) : Prop :=
  ∃ t, ix.types[method.decl.type]? = some t ∧ t.decl.kind ≠ .anonymousType ∧
    '$' ∉ t.decl.simpleName.toList ∧ '#' ∉ t.decl.name.toList

theorem Named.simpleTypeName_eq (h : ix.Named) (hmethod : method ∈ ix.methods)
    (plain : ix.PlainlyNamed method) :
    ∃ t, ix.types[method.decl.type]? = some t ∧
      method.decl.id.simpleTypeName = lastSegment t.decl.name := by
  obtain ⟨t, ht, hkind, hdollar, hhash⟩ := plain
  obtain ⟨t', ht', name, params, hid⟩ := h.methods method hmethod
  cases ht.symm.trans ht'
  have hqualified := h.types t (Array.mem_of_getElem? ht) hkind
  refine ⟨t, ht, ?_⟩
  rw [MethodId.simpleTypeName, hid, MethodId.declaringType_ofParts hhash,
    afterLastOf_eq_lastSegment hqualified hdollar]

/-- **The name of a call that runs a constructor** is that of the type, or a keyword. -/
theorem Named.name_of_createdType? (h : ix.Named) (hmethod : method ∈ ix.methods)
    (plain : ix.PlainlyNamed method) (hcall : call.Named)
    (hcreated : ix.createdType? caller call = some method.decl.type) :
    call.name ∈ [method.decl.id.simpleTypeName, "super", "this", "new"] := by
  unfold createdType? at hcreated
  split at hcreated
  next name hkind hreceiver =>
    -- the written name and the name of the type that it means end in the same part
    have hname : call.name = lastSegment name := by
      rw [Call.Named, hkind] at hcall
      exact hcall name hreceiver
    obtain ⟨t, ht, hsimple⟩ := h.simpleTypeName_eq hmethod plain
    obtain ⟨t', ht', hqualified⟩ := h.resolveType? hcreated
    cases ht.symm.trans ht'
    rw [hname, hsimple, hqualified.lastSegment_eq]
    exact List.mem_cons_self
  next name hkind hreceiver =>
    split at hcreated
    next hnew => simp [beq_iff_eq.1 hnew]
    next => cases hcreated
  next hkind =>
    rw [Call.Named, hkind] at hcall
    simp [hcall]
  next hkind =>
    rw [Call.Named, hkind] at hcall
    simp [hcall]
  next => cases hcreated

/-! ## Any method -/

/-- **A call that is bound to a method** has a name under which the method is looked for, and gives
a number of arguments that it accepts. -/
theorem Named.of_bind? (h : ix.Named) (hmethod : ix.methods[target]? = some method)
    (plain : method.decl.id.isConstructor = true → ix.PlainlyNamed method) (hcall : call.Named)
    (hbind : ix.bind? target method caller call = some accuracy) :
    call.name ∈ searchNames method.decl.id ∧ fitsCall method.decl.id call = true := by
  unfold bind? at hbind
  split at hbind
  next hconstructor =>
    obtain ⟨hcreated, d, hd, -, hfits⟩ := of_bindConstructor hbind
    cases hmethod.symm.trans hd
    have hname := h.name_of_createdType? (Array.mem_of_getElem? hmethod) (plain hconstructor) hcall
      hcreated
    exact ⟨by rwa [searchNames, if_pos hconstructor], hfits⟩
  next hconstructor =>
    obtain ⟨d, hd, hname, hfits⟩ := fits_of_bindMethod hbind
    cases hmethod.symm.trans hd
    exact ⟨by simp [searchNames, hconstructor, hname], hfits⟩

end CallOrigins.Java.Index
