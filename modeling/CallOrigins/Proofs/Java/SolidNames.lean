import CallOrigins.Proofs.Java.ErasedTypes
import CallOrigins.Proofs.Java.SoundTrees

/-!
# Identifiers have no blanks

The identifier of a method is made of the package, the names of the types around it, its own name and
the types of its parameters. Packages are compacted and types are erased, and both take out all
blanks; names are single words, by the spelling of the tree.

**The law** (`Index.solid_identifiers`): in every index of files that are read and spelled, the
identifiers of the methods have no blanks, and so they are shown in one line. That no step of the walk
brings a blank into a name is `Found.HasSolidNames.step`.
-/

namespace CallOrigins

open Text

/-! ## Composed names -/

namespace MethodId

theorem solid_ofParts {type name : String} {params : List String} (htype : Solid type)
    (hname : Solid name) (hparams : ∀ p ∈ params, Solid p) :
    Solid (ofParts type name params).text := by
  have hlist : Solid (",".intercalate (params.map trim)) := by
    apply only_intercalate
    · decide
    · intro s hs
      obtain ⟨p, hp, rfl⟩ := List.mem_map.1 hs
      exact (hparams p hp).trim
  simp only [ofParts, only_append]
  exact ⟨⟨⟨⟨⟨htype, by decide⟩, hname⟩, by decide⟩, hlist⟩, by decide⟩

/-- The short form of an identifier is cut out of it. -/
theorem solid_displayName {m : MethodId} (h : Solid m.text) : Solid m.displayName := by
  have htype : Solid m.declaringType := h.of_subset (beforeFirst_subset _ _)
  have hsimple : Solid m.simpleTypeName := htype.of_subset (afterLastOf_subset _ _)
  have hname : Solid m.name := by
    unfold name
    split
    · simp
    next before member hcut =>
      apply h.of_subset
      intro c hc
      rw [eq_append_of_cutFirst hcut]
      exact List.mem_append_right _ (.tail _ (beforeFirst_subset _ _ hc))
  simp only [displayName, only_append]
  exact ⟨⟨hsimple, by decide⟩, hname⟩

end MethodId

namespace Java

theorem solid_lastSegment {s : String} (h : Solid s) : Solid (lastSegment s) :=
  h.of_subset (afterLastOf_subset _ _)

theorem Header.IsParameterType.solid {type : String} (h : IsParameterType type) : Solid type := by
  obtain ⟨p, name, hp⟩ := h
  unfold parameter? at hp
  split at hp
  · split at hp
    · cases hp
      refine only_append.2 ⟨solid_eraseType _, ?_⟩
      cases p.child? .dimensions with
      | none => simp
      | some d => exact solid_compact _
    · cases hp
  · split at hp
    · cases hp
      refine only_append.2 ⟨solid_eraseType _, ?_⟩
      decide
    · cases hp
  · cases hp

/-! ## Names that a walk finds -/

/-- The name of a type or a method is a single word. -/
theorem Node.IsSpelled.solid_name {n name : Node} (h : n.IsSpelled)
    (hkind : (Header.typeKind? n.kind).isSome = true ∨ n.kind = .methodDeclaration)
    (hname : n.child? .name = some name) : Solid name.text := by
  have hrole : ∀ k : Kind, (Header.typeKind? k).isSome = true ∨ k = .methodDeclaration →
      Role.name ∈ k.spelledRoles := by
    intro k hk
    cases k <;> first | exact .head _ | simp [Header.typeKind?] at hk
  have hfound := List.find?_some hname
  exact h.part .name (hrole _ hkind) name (List.mem_of_find?_eq_some hname) (of_decide_eq_true hfound)

namespace Found

/-- No name of what was found has blanks in it. -/
structure HasSolidNames (f : Found) : Prop where
  types : ∀ t ∈ f.types, Solid t.name ∧ Solid t.simpleName
  methods : ∀ m ∈ f.methods, Solid m.id.text

namespace HasSolidNames

variable {f f' : Found}

theorem typeName (h : f.HasSolidNames) (id : Nat) : Solid (f.typeName id) := by
  unfold Found.typeName
  cases ht : f.types[id]? with
  | none => simp
  | some t => exact (h.types t (Array.mem_of_getElem? ht)).1

theorem simpleName (h : f.HasSolidNames) (id : Nat) : Solid (f.simpleName id) := by
  unfold Found.simpleName
  cases ht : f.types[id]? with
  | none => simp
  | some t => exact (h.types t (Array.mem_of_getElem? ht)).2

theorem pushType (h : f.HasSolidNames) {decl : TypeDecl} (hname : Solid decl.name)
    (hsimple : Solid decl.simpleName) : HasSolidNames { f with types := f.types.push decl } where
  types t ht := by
    rcases Array.mem_push.1 ht with ht | rfl
    · exact h.types t ht
    · exact ⟨hname, hsimple⟩
  methods := h.methods

/-- **No step of a walk brings a blank into a name.** -/
theorem step {root : Node} (spelled : ∀ n, root.Holds n → n.IsSpelled) (h : f.HasSolidNames)
    (step : f.Step root f') : f'.HasSolidNames := by
  cases step with
  | @type s _ _ _ n _ within held entered =>
    obtain ⟨decl, rfl, hdecl⟩ := Surroundings.enterType_eq entered
    obtain ⟨name, hname, hwritten⟩ := hdecl.written
    have hsimple : Solid decl.simpleName := by
      rw [hwritten]
      exact (spelled n held).solid_name (.inl (by rw [hdecl.kind]; rfl)) hname
    refine h.pushType ?_ hsimple
    rw [hdecl.name]
    split
    · simp only [only_append]
      exact ⟨⟨h.typeName _, by decide⟩, hsimple⟩
    · split
      · exact hsimple
      · obtain ⟨text, hpackage⟩ := within.package
        simp only [only_append, hpackage]
        exact ⟨⟨solid_compact text, by decide⟩, hsimple⟩
  | anonymous within based entered =>
    obtain ⟨decl, outer, rfl, hdecl⟩ := Surroundings.enterAnonymous_eq entered
    have hsimple : Solid decl.simpleName := by
      rw [hdecl.simpleName]
      rcases based with ⟨text, rfl⟩ | ⟨id, rfl⟩
      · exact solid_lastSegment (solid_eraseType text)
      · exact solid_lastSegment (h.simpleName id)
    refine h.pushType ?_ hsimple
    simp only [hdecl.name, only_append]
    exact ⟨⟨⟨⟨h.typeName _, by decide⟩, solid_toString _⟩, by decide⟩, hsimple⟩
  | @method s _ _ n components b within held declared entered =>
    obtain ⟨decl, scope, name, params, rfl, hdecl, -⟩ := Surroundings.enterMethod_eq entered
    refine ⟨h.types, fun m hm => ?_⟩
    rcases Array.mem_push.1 hm with hm | rfl
    · exact h.methods m hm
    · rw [hdecl.id]
      apply MethodId.solid_ofParts
      · exact h.typeName _
      · rcases hdecl.written with ⟨-, rfl⟩ | ⟨hkind, node, hnode, rfl⟩
        · exact h.simpleName _
        · exact (spelled n held).solid_name (.inr hkind) hnode
      · intro p hp
        rcases hdecl.params with hcomponents | hparams
        · exact (declared params hcomponents p hp).solid
        · exact (hparams p hp).solid
  | calls _ method recorded =>
    refine ⟨h.types, fun m hm => ?_⟩
    obtain ⟨old, hold, rfl | rfl⟩ := mem_setCalls hm
    · exact h.methods m hold
    · exact h.methods old hold

end HasSolidNames
end Found

/-- **No name of an outline has blanks in it**, if its tree is spelled. -/
theorem Outline.hasSolidNames_ofTree (line : Nat → Nat) {root : Node}
    (spelled : ∀ n, root.Holds n → n.IsSpelled) :
    (Outline.ofTree line root).found.HasSolidNames := by
  apply (Outline.grows_ofTree line root).keeps
  · exact fun _ _ step h => h.step spelled step
  · exact ⟨by simp, by simp⟩

/-- **No identifier of an index has blanks in it.** -/
theorem Index.solid_identifiers {files : List SourceFile} (read : ∀ f ∈ files, f.IsRead)
    (spelled : ∀ f ∈ files, f.IsSpelled) {m : MethodId} (h : m ∈ (ofFiles files).identifiers) :
    Solid m.text := by
  obtain ⟨d, hd, rfl⟩ := List.mem_map.1 h
  obtain ⟨f, hf, -, decl, hdecl, base, heq⟩ := exists_of_mem_methods (Array.mem_toList_iff.1 hd)
  obtain ⟨line, hline⟩ := read f hf
  have hnames := Outline.hasSolidNames_ofTree line (spelled f hf)
  rw [← hline] at hnames
  rw [heq]
  exact hnames.methods decl hdecl

end Java
end CallOrigins
