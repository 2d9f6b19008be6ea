import CallOrigins.Proofs.Java.Merging
import CallOrigins.Proofs.Java.References

/-!
# Links to supertypes and the meaning of names

The supertypes of all types are linked at once, each of them as if no supertype of another one were
known. Names are resolved on the finished index afterwards, and then a name can also mean a type
that is inherited. So a link and the meaning of the written name can come apart.

**The law** (`supers_resolved`): they agree where the meaning of no written supertype is due to
inheritance, that is where the nearest of the types around that knows the first part of the name
has it by itself. The links of an index without links are all there is to say of the others:
`Mid.D` in `subclass_not_linked` extends a class that `Mid` inherits, and is linked to nothing,
although its superclass is known.
-/

namespace CallOrigins.Java.Index

open Text

variable {ix : Index}

/-! ## An index without links -/

/-- The index as it is before supertypes are linked. -/
def unlinked (ix : Index) : Index :=
  ix.withSupers (fun _ => [])

theorem getElem?_types_unlinked (ix : Index) (i : Nat) :
    ix.unlinked.types[i]? = (ix.types[i]?).map (fun t => { t with supers := [] }) :=
  Array.getElem?_map

theorem typeNamed?_unlinked (ix : Index) (name : String) :
    ix.unlinked.typeNamed? name = ix.typeNamed? name := rfl

theorem memberType?_unlinked (ix : Index) (type : Nat) (simple : String) :
    ix.unlinked.memberType? type simple = ix.memberType? type simple := by
  rw [memberType?, memberType?, getElem?_types_unlinked]
  cases ix.types[type]? with
  | none => rfl
  | some t => exact typeNamed?_unlinked ix _

theorem isCalled_unlinked (ix : Index) (type : Nat) (simple : String) :
    ix.unlinked.isCalled type simple = ix.isCalled type simple := by
  rw [isCalled, isCalled, getElem?_types_unlinked]
  cases ix.types[type]? <;> rfl

theorem outward_unlinked (ix : Index) (fuel type : Nat) :
    ix.unlinked.outward fuel type = ix.outward fuel type := by
  induction fuel generalizing type with
  | zero => rfl
  | succ fuel ih =>
    rw [outward, outward, getElem?_types_unlinked, funext ih]
    cases ix.types[type]? <;> rfl

theorem typeInFile?_unlinked (ix : Index) (o : Outline) (simple : String) :
    ix.unlinked.typeInFile? o simple = ix.typeInFile? o simple := by
  unfold typeInFile?
  simp only [typeNamed?_unlinked]

theorem supersOf_unlinked (ix : Index) (type : Nat) : ix.unlinked.supersOf type = [] := by
  rw [supersOf, getElem?_types_unlinked]
  cases ix.types[type]? <;> rfl

theorem breadthFirst_nil (size : Nat) (next : Nat → List Nat) : breadthFirst size next [] = [] := by
  rw [breadthFirst]
  generalize [].length + _ = fuel
  cases fuel <;> rfl

/-- Nothing is inherited where nothing is linked. -/
theorem inheritedType?_unlinked (ix : Index) (type : Nat) (simple : String) :
    ix.unlinked.inheritedType? type simple = none := by
  rw [inheritedType?, supersOf_unlinked, hierarchy, breadthFirst_nil]
  rfl

/-! ## Names that types have by themselves -/

/-- What a simple name means in a type by itself: the type, or a type inside of it. -/
def ownType? (ix : Index) (simple : String) (scope : Nat) : Option Nat :=
  if ix.isCalled scope simple then some scope else ix.memberType? scope simple

theorem typeInScope?_unlinked (ix : Index) (simple : String) (scope : Nat) :
    ix.unlinked.typeInScope? simple scope = ix.ownType? simple scope := by
  rw [typeInScope?, ownType?, isCalled_unlinked, memberType?_unlinked, inheritedType?_unlinked]
  cases ix.memberType? scope simple <;> rfl

theorem typeInScope?_of_ownType? {simple : String} {scope type : Nat}
    (h : ix.ownType? simple scope = some type) : ix.typeInScope? simple scope = some type := by
  unfold ownType? at h
  unfold typeInScope?
  split at h
  next hcalled => rw [if_pos hcalled, h]
  next hcalled => rw [if_neg hcalled, h]

/-- A simple name is inherited at a place: the nearest of the types around it that knows the name
does not have it by itself. -/
def Inherits (ix : Index) (simple : String) (scope : Option Nat) : Prop :=
  ∃ s, (ix.scopesAround scope).find? (fun s => (ix.typeInScope? simple s).isSome) = some s ∧
    ix.ownType? simple s = none

/-- Types that have the name by themselves answer as they do with all that they inherit, unless
the nearest one that knows the name inherits it. -/
theorem findSome?_ownType? {simple : String} {scopes : List Nat}
    (h : ∀ s, scopes.find? (fun s => (ix.typeInScope? simple s).isSome) = some s →
      ix.ownType? simple s ≠ none) :
    scopes.findSome? (ix.ownType? simple) = scopes.findSome? (ix.typeInScope? simple) := by
  induction scopes with
  | nil => rfl
  | cons s scopes ih =>
    rw [List.findSome?_cons, List.findSome?_cons]
    cases hown : ix.ownType? simple s with
    | some type => rw [typeInScope?_of_ownType? hown]
    | none =>
      cases hscope : ix.typeInScope? simple s with
      | some type => exact absurd hown (h s (by simp [hscope]))
      | none => exact ih fun s' hs' => h s' (by simpa [hscope] using hs')

theorem resolveSimple?_unlinked {simple : String} {scope : Option Nat}
    (h : ¬ ix.Inherits simple scope) (file : Nat) :
    ix.unlinked.resolveSimple? simple file scope = ix.resolveSimple? simple file scope := by
  have hscopes : (ix.scopesAround scope).findSome? (ix.unlinked.typeInScope? simple) =
      (ix.scopesAround scope).findSome? (ix.typeInScope? simple) := by
    rw [funext (typeInScope?_unlinked ix simple)]
    exact findSome?_ownType? fun s hs hown => h ⟨s, hs, hown⟩
  have haround : ix.unlinked.scopesAround scope = ix.scopesAround scope := by
    cases scope with
    | none => rfl
    | some s => exact outward_unlinked ix _ _
  rw [resolveSimple?_eq, resolveSimple?_eq, haround, hscopes]
  simp only [typeInFile?_unlinked]
  rfl

/-! ## Written supertypes -/

/-- The meaning of a type name is due to inheritance: it is not the qualified name of a type, and
its first part is inherited. -/
def MeansInherited (ix : Index) (name : String) (scope : Option Nat) : Prop :=
  match cutFirst '.' name.toList with
  | none => ix.Inherits name scope
  | some (head, _) => ix.typeNamed? name = none ∧ ix.Inherits (String.ofList head) scope

/-- **Resolution without links** is the same for a name whose meaning is not due to inheritance. -/
theorem resolveType?_unlinked {name : String} {scope : Option Nat}
    (h : ¬ ix.MeansInherited name scope) (file : Nat) :
    ix.unlinked.resolveType? name file scope = ix.resolveType? name file scope := by
  unfold MeansInherited at h
  unfold resolveType?
  cases hcut : cutFirst '.' name.toList with
  | none =>
    rw [hcut] at h
    simp only [resolveParts?, resolveSimple?_unlinked h]
  | some cut =>
    rw [hcut] at h
    obtain ⟨head, rest⟩ := cut
    simp only [typeNamed?_unlinked]
    cases hnamed : ix.typeNamed? name with
    | some t => rfl
    | none =>
      have hhead : ¬ ix.Inherits (String.ofList head) scope := fun hin => h ⟨hnamed, hin⟩
      simp only [resolveParts?, resolveSimple?_unlinked hhead, memberType?_unlinked]

/-! ## Links of an index of files -/

/-- While files are merged, nothing is linked. -/
theorem supers_foldl_addFile {files : List SourceFile} (unlinked : ∀ t ∈ ix.types, t.supers = [])
    {t : IndexedType} (h : t ∈ (files.foldl addFile ix).types) : t.supers = [] := by
  induction files generalizing ix with
  | nil => exact unlinked t h
  | cons f files ih =>
    refine ih (fun t ht => ?_) h
    rw [types_addFile] at ht
    rcases Array.mem_append.1 ht with ht | ht
    · exact unlinked t ht
    · obtain ⟨decl, -, rfl⟩ := Array.mem_map.1 ht
      rfl

theorem unlinked_ofFiles (files : List SourceFile) :
    (ofFiles files).unlinked = files.foldl addFile {} := by
  have hnone : ∀ t ∈ (files.foldl addFile {}).types, t.supers = [] :=
    fun t => supers_foldl_addFile (by simp)
  refine eq_of_data rfl ?_ rfl rfl rfl rfl
  rw [unlinked, types_withSupers, ofFiles, linkSupers, types_withSupers, Array.map_map]
  refine (Array.map_congr_left fun t ht => ?_).trans (Array.map_id _)
  change ({ t with supers := [] } : IndexedType) = t
  rw [← hnone t ht]

/-- A type is linked to what its supertypes mean in the index without links. -/
theorem supers_eq {files : List SourceFile} {i : Nat} {t : IndexedType}
    (ht : (ofFiles files).types[i]? = some t) :
    t.supers = (ofFiles files).unlinked.resolvedSupers t := by
  rw [unlinked_ofFiles]
  rw [ofFiles, linkSupers, types_withSupers, Array.getElem?_map] at ht
  obtain ⟨old, -, rfl⟩ := Option.map_eq_some_iff.1 ht
  rfl

/-- What the superclass of a type is: the meaning of the first supertype. -/
theorem resolveType?_of_superclass? {i u : Nat} {t : IndexedType} (ht : ix.types[i]? = some t)
    (h : ix.superclass? i = some u) :
    ∃ s rest, t.decl.supertypes = s :: rest ∧ ix.resolveType? s t.file t.decl.outer = some u := by
  rw [superclass?, ht] at h
  dsimp only at h
  split at h
  next => cases h
  next =>
    split at h
    next => cases h
    next s rest hsupers =>
      refine ⟨s, rest, hsupers, ?_⟩
      split at h
      next => cases h
      next v hv =>
        split at h
        next => cases h
        next => rw [hv, h]

/-- **Links agree with the meaning of names**, as far as inheritance has no part in it. For every
index of files and every type in it, the links are the meanings of the written supertypes in the
index without links; they are the meanings in the index itself where none of these is due to
inheritance. And where the meaning of the first supertype is not, the type is linked to its
superclass. -/
theorem supers_resolved (files : List SourceFile) (i : Nat) (t : IndexedType)
    (ht : (ofFiles files).types[i]? = some t) :
    t.supers = (ofFiles files).unlinked.resolvedSupers t ∧
    ((∀ s ∈ t.decl.supertypes, ¬ (ofFiles files).MeansInherited s t.decl.outer) →
      t.supers = (ofFiles files).resolvedSupers t) ∧
    ∀ u, (ofFiles files).superclass? i = some u →
      (∀ s, t.decl.supertypes.head? = some s → ¬ (ofFiles files).MeansInherited s t.decl.outer) →
      u ∈ t.supers := by
  refine ⟨supers_eq ht, fun own => ?_, fun u hu own => ?_⟩
  · rw [supers_eq ht, resolvedSupers, resolvedSupers]
    exact List.filterMap_congr fun s hs => resolveType?_unlinked (own s hs) _
  · obtain ⟨s, rest, hsupers, hs⟩ := resolveType?_of_superclass? ht hu
    rw [supers_eq ht, resolvedSupers]
    refine List.mem_filterMap.2 ⟨s, by simp [hsupers], ?_⟩
    rw [resolveType?_unlinked (own s (by simp [hsupers])), hs]

/-! ## A class that extends an inherited one -/

/-- A class `Base` with a class `Inner` in it, a class `Mid` that extends `Base`, and in that a
class `D` with a written superclass. -/
def memberTree (written : Node) : Node :=
  .branch none .program [
    .branch none .classDeclaration [
      sign "" "class" 0,
      token (some .name) .identifier " " "Base" 6,
      braced .classBody 11 [
        .branch none .classDeclaration [
          sign " " "class" 13,
          token (some .name) .identifier " " "Inner" 19,
          braced .classBody 25 [] 27]] 29],
    .branch none .classDeclaration [
      sign " " "class" 31,
      token (some .name) .identifier " " "Mid" 37,
      .branch (some .superclass) .superclass [
        sign " " "extends" 41,
        token none .typeIdentifier " " "Base" 49],
      braced .classBody 54 [
        .branch none .classDeclaration [
          sign " " "class" 56,
          token (some .name) .identifier " " "D" 62,
          .branch (some .superclass) .superclass [
            sign " " "extends" 64,
            written],
          braced .classBody (written.stop + 1) [] (written.stop + 3)]] (written.stop + 5)]]

/-- The class `Inner`, named through the class that declares it. -/
def qualifiedInner : Node :=
  .branch none .scopedTypeIdentifier [
    token none .typeIdentifier " " "Base" 72,
    sign "" "." 76,
    token none .typeIdentifier "" "Inner" 77]

/-- The class `Inner`, named as one that is inherited. -/
def inheritedInner : Node :=
  token none .typeIdentifier " " "Inner" 72

def memberFile (written : Node) : SourceFile :=
  fileOf "Base.java"
    ("class Base \x7b class Inner \x7b \x7d \x7d class Mid extends Base \x7b class D extends " ++
      written.text ++ " \x7b \x7d \x7d")
    (memberTree written)

/-- The class `D` in the index of that file. -/
def memberType (written : String) (supers : List Nat) : IndexedType where
  decl := ⟨"Mid.D", "D", .classType, 1, some 2, [written]⟩
  file := 0
  supers := supers

/-- A class that names its superclass through the class that declares it is linked to it. -/
theorem qualifiedInner_linked :
    (ofFiles [memberFile qualifiedInner]).types[3]? = some (memberType "Base.Inner" [1]) ∧
    (ofFiles [memberFile qualifiedInner]).resolvedSupers (memberType "Base.Inner" [1]) = [1] ∧
    (ofFiles [memberFile qualifiedInner]).superclass? 3 = some 1 := by
  have htype : (ofFiles [memberFile qualifiedInner]).types[3]? =
      some (memberType "Base.Inner" [1]) := by decide +kernel
  have hnamed : (ofFiles [memberFile qualifiedInner]).typeNamed? "Base.Inner" = some 1 := by
    decide +kernel
  refine ⟨htype, ?_, by decide +kernel⟩
  -- the name is the qualified name of a type, so that nothing inherited counts
  refine ((supers_resolved _ 3 _ htype).2.1 fun s hs => ?_).symm
  cases List.mem_singleton.1 hs
  rintro ⟨hnone, -⟩
  cases hnamed.symm.trans hnone

/-- **A class that extends an inherited one is not linked to it.** Its superclass is known, and the
name of that means it, but the class has no link. -/
theorem subclass_not_linked :
    ∃ files i t u, (ofFiles files).types[i]? = some t ∧ (∀ f ∈ files, SourceFile.IsRead f) ∧
      (ofFiles files).superclass? i = some u ∧ (ofFiles files).resolvedSupers t = [u] ∧
      t.supers = [] :=
  ⟨[memberFile inheritedInner], 3, memberType "Inner" [], 1, by decide +kernel,
    by simp [memberFile, isRead_fileOf], by decide +kernel, by decide +kernel, rfl⟩

end CallOrigins.Java.Index
