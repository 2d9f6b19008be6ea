import CallOrigins.Proofs.Java.Building
import CallOrigins.Proofs.Java.Supertypes

/-!
# A type is found under the name that is written

A type name can be resolved in many ways: as a qualified name, as a type around the place, as a
member of one or of a supertype of one, through an import, in the package, or in a package that is
imported as a whole. A name with points is cut at the first of them and put together again.

**The law** (`resolveType?_keeps_name`): whichever way is taken, the type that is found has the
written name, perhaps with more in front and a point between. It holds of an index at every stage of
its making (`IsBuilt`), since names are resolved while supertypes are still being linked. One way
rests on how types are named: a type around the place is found by its simple name, and this is the
end of its qualified name (`Named`).
-/

namespace CallOrigins.Java.Index

open Text

/-- **The indexes of sources**, at every stage of their making: files that were read are added, the
supertypes of all types are linked, and the faults of reading are counted. -/
inductive IsBuilt : Index → Prop where
  | empty : IsBuilt {}
  | file {ix : Index} {f : SourceFile} (built : IsBuilt ix) (read : f.IsRead) :
    IsBuilt (ix.addFile f)
  | links {ix : Index} (built : IsBuilt ix) : IsBuilt ix.linkSupers
  | counts {ix : Index} (built : IsBuilt ix) (readErrors lossyFiles : Nat) :
    IsBuilt { ix with readErrors, lossyFiles }

/-- At every stage the names of an index hang together. -/
theorem IsBuilt.named {ix : Index} (h : ix.IsBuilt) : ix.Named := by
  induction h with
  | empty => exact ⟨by simp, by simp, by simp⟩
  | file _ read ih => exact ih.addFile read
  | links _ ih => exact ih.linkSupers
  | counts _ _ _ ih => exact ⟨ih.types, ih.methods, ih.calls⟩

theorem isBuilt_ofFiles {files : List SourceFile} (read : ∀ f ∈ files, f.IsRead) :
    (ofFiles files).IsBuilt :=
  .links (foldl_addFile_keeps (fun _ _ hf h => h.file hf) read .empty)

/-- Every index that is loaded is one of sources. -/
theorem isBuilt_load (read : FileReader) (workers : Nat) (fs : List FoundFile) :
    (load read workers fs).IsBuilt := by
  rw [load_eq]
  refine (isBuilt_ofFiles fun f hf => ?_).counts _ _
  obtain ⟨⟨_, lossy⟩, hloaded, rfl⟩ := List.mem_map.1 hf
  obtain ⟨found, -, hload⟩ := List.mem_filterMap.1 hloaded
  obtain ⟨text, -, hread⟩ := Option.map_eq_some_iff.1 hload
  cases hread
  exact SourceFile.isRead_read _

/-- A name with points in it that is the whole name of a type means such a type, wherever it is
written. -/
theorem exists_resolveType?_eq_some {ix : Index} {name : String} (hpoint : '.' ∈ name.toList)
    (htype : ∃ t ∈ ix.types, t.decl.name = name) (file : Nat) (scope : Option Nat) :
    ∃ type t, ix.resolveType? name file scope = some type ∧ ix.types[type]? = some t ∧
      t.decl.name = name := by
  cases hcut : cutFirst '.' name.toList with
  | none => exact absurd hpoint (cutFirst_eq_none_iff.1 hcut)
  | some parts =>
    cases hnamed : ix.typeNamed? name with
    | none =>
      obtain ⟨t, ht, hname⟩ := htype
      obtain ⟨j, hj⟩ := Array.mem_iff_getElem?.1 ht
      exact absurd hname (typeNamed?_eq_none_iff.1 hnamed j t hj)
    | some type =>
      obtain ⟨t, ht, hname⟩ := typeNamed?_eq_some hnamed
      refine ⟨type, t, ?_, ht, hname⟩
      simp only [resolveType?, hcut, hnamed]

/-- **Resolution keeps the written name.** In an index of sources, at any stage of its making, for
any text, seen from any file and any type or none: where the text means a type, the qualified name
of the type is the text, or it ends with a point and the text. And a text with points in it that is
the qualified name of a type does mean a type of that name. -/
theorem resolveType?_keeps_name (ix : Index) (built : ix.IsBuilt) (name : String) (file : Nat)
    (scope : Option Nat) :
    (∀ type, ix.resolveType? name file scope = some type →
      ∃ t, ix.types[type]? = some t ∧
        (t.decl.name = name ∨ ∃ front, t.decl.name = front ++ "." ++ name)) ∧
    ('.' ∈ name.toList → (∃ t ∈ ix.types, t.decl.name = name) →
      ∃ type t, ix.resolveType? name file scope = some type ∧ ix.types[type]? = some t ∧
        t.decl.name = name) :=
  ⟨fun _ hresolved => built.named.resolveType? hresolved,
    fun hpoint htype => exists_resolveType?_eq_some hpoint htype file scope⟩

/-- The class `Inner` that `Mid` inherits from `Base`, written without the class that declares it. -/
theorem inheritedInner_keeps_name :
    (ofFiles [memberFile inheritedInner]).IsBuilt ∧
    (ofFiles [memberFile inheritedInner]).resolveType? "Inner" 0 (some 2) = some 1 ∧
    ∃ t, (ofFiles [memberFile inheritedInner]).types[1]? = some t ∧
      (t.decl.name = "Inner" ∨ ∃ front, t.decl.name = front ++ "." ++ "Inner") := by
  have built : (ofFiles [memberFile inheritedInner]).IsBuilt :=
    isBuilt_ofFiles (by simp [memberFile, isRead_fileOf])
  have resolved : (ofFiles [memberFile inheritedInner]).resolveType? "Inner" 0 (some 2) = some 1 := by
    decide +kernel
  exact ⟨built, resolved, (resolveType?_keeps_name _ built "Inner" 0 (some 2)).1 1 resolved⟩

end CallOrigins.Java.Index
