import CallOrigins.Proofs.Java.Phrases

/-!
# Constructors

Whether a method is a constructor is read off its identifier: it is one if it is named like the last
part of its type, where points and dollar signs divide.

**The law** (`Index.constructors_recognized`): a method that is declared as a method is taken for a
constructor exactly if it is named like what follows the last dollar sign in the name of its type,
and one that is declared as a constructor is taken for one exactly if there is no dollar sign there.
So both go wrong in a class `A$B` (`dollarClass_mistaken`).

The identifier is made from texts, and this matters for the characters that divide it. Names are
words (`isLettered_parse`), so they bring none of these characters in. What a package and the base of
an anonymous type are named is a text with everything in it that was written there.
-/

namespace CallOrigins.Java

open Grammar Text

/-! ## Names are words -/

/-- A text of letters, digits and what else can stand in a name. -/
def Lettered (s : String) : Prop :=
  Only (fun c => Scanner.continuesWord c = true) s

instance (s : String) : Decidable (Lettered s) :=
  inferInstanceAs (Decidable (Only _ s))

theorem Lettered.not_mem {s : String} (h : Lettered s) {c : Char}
    (hc : Scanner.continuesWord c = false) : c ∉ s.toList := by
  intro hmem
  rw [h c hmem] at hc
  cases hc

/-- A name, or a keyword. -/
def Terminal.isLettered : Terminal → Bool
  | name => true
  | word w => w.toList.all Scanner.continuesWord
  | _ => false

theorem Terminal.Allows.lettered {t : Terminal} {text : String} (h : t.Allows text)
    (ht : t.isLettered = true) : Lettered text := by
  cases t with
  | name => exact h.2
  | word w =>
    cases h
    exact List.all_eq_true.1 ht
  | _ => cases ht

namespace Form

/-- Names and keywords only. -/
def isLettered : Form → Bool
  | nothing => true
  | token t => t.isLettered
  | rule r => r == .reservedIdentifier
  | seq f g | alt f g => f.isLettered && g.isLettered
  | repeated f | as _ f | shown _ f | before _ f => f.isLettered

/-- What stands in the role of a name is a name or a keyword. -/
def lettersNames : Form → Bool
  | nothing | token _ => true
  | rule r => (definition r).kind.isSome || spellingGroups.contains r
  | seq f g | alt f g => f.lettersNames && g.lettersNames
  | repeated f | shown _ f | before _ f => f.lettersNames
  | as r f => if r = .name then f.isLettered else f.avoids .name

/-- What stands in a role is of good forms. The groups are taken to keep to this, too. -/
def keeps (target : Role) (good : Form → Bool) (groups : List Rule) : Form → Bool
  | nothing | token _ => true
  | rule r => (definition r).kind.isSome || groups.contains r
  | seq f g | alt f g => f.keeps target good groups && g.keeps target good groups
  | repeated f | shown _ f | before _ f => f.keeps target good groups
  | as r f => if r = target then good f else f.avoids target

theorem lettersNames_eq_keeps (f : Form) :
    f.lettersNames = f.keeps .name isLettered spellingGroups := by
  induction f with
  | nothing | token | rule | as => rfl
  | seq f g ihf ihg | alt f g ihf ihg => rw [lettersNames, keeps, ihf, ihg]
  | repeated f ih | shown _ f ih | before _ f ih => exact ih

namespace Yields

variable {f : Form} {given role : Option Role} {kind : Option Kind} {ns : List Node}

theorem lettered (h : f.Yields given role kind ns) (hf : f.isLettered = true) :
    ∀ n ∈ ns, Lettered n.text := by
  induction h with
  | nothing => exact fun _ hn => absurd hn List.not_mem_nil
  | token allows =>
    refine List.forall_mem_singleton.2 ?_
    rw [Node.text_leaf]
    exact allows.lettered hf
  | node hkind _ _ _ =>
    cases beq_iff_eq.1 hf
    cases hkind
  | @group _ _ _ a _ _ ha _ ih =>
    cases beq_iff_eq.1 hf
    have hwords : ∀ a ∈ (definition .reservedIdentifier).alternatives, a.form.isLettered = true := by
      decide
    exact ih (hwords a ha)
  | seq _ _ ihf ihg =>
    rw [isLettered, Bool.and_eq_true] at hf
    exact List.forall_mem_append.2 ⟨ihf hf.1, ihg hf.2⟩
  | left _ ih =>
    rw [isLettered, Bool.and_eq_true] at hf
    exact ih hf.1
  | right _ ih =>
    rw [isLettered, Bool.and_eq_true] at hf
    exact ih hf.2
  | again _ _ ihf ihg => exact List.forall_mem_append.2 ⟨ihf hf, ihg hf⟩
  | once _ ih | as _ ih | shown _ ih | before _ ih => exact ih hf

/-- A role that is given to a whole group is the role of each of its nodes. -/
theorem role_of_given {r : Role} (h : f.Yields given role kind ns) (hgiven : given = some r)
    (hrole : role = some r) : ∀ n ∈ ns, n.role = some r := by
  induction h with
  | nothing => exact fun _ hn => absurd hn List.not_mem_nil
  | token => exact List.forall_mem_singleton.2 hrole
  | node => exact List.forall_mem_singleton.2 hrole
  | group _ _ _ ih => exact ih hrole hrole
  | seq _ _ ihf ihg => exact List.forall_mem_append.2 ⟨ihf hgiven hrole, ihg hgiven hrole⟩
  | left _ ih | right _ ih | shown _ ih | before _ ih => exact ih hgiven hrole
  | again _ _ ihf ihg => exact List.forall_mem_append.2 ⟨ihf hrole hrole, ihg hrole hrole⟩
  | once _ ih => exact ih hrole hrole
  | as _ ih => exact ih hgiven (by rw [hgiven, Option.some_or])

/-- Nothing gets a role that the form avoids, where the role of the whole is another one. -/
theorem role_ne_of_avoids {r target : Role} (h : f.Yields given role kind ns)
    (hf : f.avoids target = true) (hgiven : given = none) (hrole : role = some r)
    (hne : r ≠ target) : ∀ n ∈ ns, n.role ≠ some target := by
  have hsome : some r ≠ some target := fun h => hne (Option.some.inj h)
  induction h generalizing r with
  | nothing => exact fun _ hn => absurd hn List.not_mem_nil
  | token => exact List.forall_mem_singleton.2 (hrole ▸ hsome)
  | node => exact List.forall_mem_singleton.2 (hrole ▸ hsome)
  | group _ _ nodes =>
    intro n hn
    rw [nodes.role_of_given hrole hrole n hn]
    exact hsome
  | seq _ _ ihf ihg =>
    rw [avoids, Bool.and_eq_true] at hf
    exact List.forall_mem_append.2
      ⟨ihf hf.1 hgiven hrole hne hsome, ihg hf.2 hgiven hrole hne hsome⟩
  | left _ ih =>
    rw [avoids, Bool.and_eq_true] at hf
    exact ih hf.1 hgiven hrole hne hsome
  | right _ ih =>
    rw [avoids, Bool.and_eq_true] at hf
    exact ih hf.2 hgiven hrole hne hsome
  | once nodes =>
    intro n hn
    rw [nodes.role_of_given hrole hrole n hn]
    exact hsome
  | again front back =>
    intro n hn
    rcases List.mem_append.1 hn with hn | hn
    · rw [front.role_of_given hrole hrole n hn]
      exact hsome
    · rw [back.role_of_given hrole hrole n hn]
      exact hsome
  | @as _ _ _ inner _ _ _ ih =>
    rw [avoids, Bool.and_eq_true, bne_iff_ne] at hf
    subst hgiven
    exact ih hf.2 rfl (Option.none_or ..) hf.1 fun h => hf.1 (Option.some.inj h)
  | shown _ ih | before _ ih => exact ih hf hgiven hrole hne hsome

/-- **What stands in a role**, where none is given to the whole. -/
theorem of_role {target : Role} {good : Form → Bool} {groups : List Rule} {P : Node → Prop}
    (hgroups : ∀ r ∈ groups, ∀ a ∈ (definition r).alternatives,
      a.form.keeps target good groups = true)
    (hgood : ∀ {f : Form} {kind : Option Kind} {ns : List Node},
      f.Yields none (some target) kind ns → good f = true → ∀ n ∈ ns, P n)
    (h : f.Yields given role kind ns) (hf : f.keeps target good groups = true)
    (hgiven : given = none) (hrole : role = none) : ∀ n ∈ ns, n.role = some target → P n := by
  induction h with
  | nothing => exact fun _ hn => absurd hn List.not_mem_nil
  | token | node =>
    refine List.forall_mem_singleton.2 fun htarget => ?_
    cases hrole.symm.trans htarget
  | @group _ _ r a _ hk ha _ ih =>
    rw [keeps, hk, Option.isSome_none, Bool.false_or, List.contains_iff_mem] at hf
    exact ih (hgroups r hf a ha) hrole hrole
  | seq _ _ ihf ihg =>
    rw [keeps, Bool.and_eq_true] at hf
    exact List.forall_mem_append.2 ⟨ihf hf.1 hgiven hrole, ihg hf.2 hgiven hrole⟩
  | left _ ih =>
    rw [keeps, Bool.and_eq_true] at hf
    exact ih hf.1 hgiven hrole
  | right _ ih =>
    rw [keeps, Bool.and_eq_true] at hf
    exact ih hf.2 hgiven hrole
  | once _ ih => exact ih hf hrole hrole
  | again _ _ ihf ihg => exact List.forall_mem_append.2 ⟨ihf hf hrole hrole, ihg hf hrole hrole⟩
  | @as _ _ _ r _ _ nodes ih =>
    rw [keeps] at hf
    subst hgiven
    by_cases htarget : r = target
    · subst htarget
      rw [if_pos rfl] at hf
      exact fun n hn _ => hgood nodes hf n hn
    · rw [if_neg htarget] at hf
      intro n hn hrole
      exact absurd hrole (nodes.role_ne_of_avoids hf rfl (Option.none_or ..) htarget n hn)
  | shown _ ih | before _ ih => exact ih hf hgiven hrole

theorem lettered_name (h : f.Yields given role kind ns) (hf : f.lettersNames = true)
    (hgiven : given = none) (hrole : role = none) :
    ∀ n ∈ ns, n.role = some .name → Lettered n.text := by
  rw [lettersNames_eq_keeps] at hf
  exact h.of_role (by decide) (fun nodes hf => nodes.lettered hf) hf hgiven hrole

end Yields
end Form

/-- The kinds of nodes that a walk takes names from. -/
def Kind.isNaming (k : Kind) : Bool :=
  k = .methodDeclaration || (Header.typeKind? k).isSome

/-- The name of a method or a type is a word. -/
def Node.IsLettered (n : Node) : Prop :=
  n.kind.isNaming = true → ∀ name ∈ n.child? .name, Lettered name.text

instance (n : Node) : Decidable n.IsLettered :=
  inferInstanceAs (Decidable (n.kind.isNaming = true → ∀ name ∈ n.child? .name, Lettered name.text))

theorem Node.IsPhrase.isLettered {n : Node} {r : Rule} (h : n.IsPhrase r) : n.IsLettered := by
  have hrules : rules.all (fun r => !(definition r).kind.any Kind.isNaming ||
      (definition r).alternatives.all fun a => a.form.lettersNames) = true := by
    decide +kernel
  intro hkind name hname
  obtain ⟨a, ha, hyields⟩ := h.parts
  have hr := List.all_eq_true.1 hrules r (List.mem_of_getElem? (getElem?_rules r))
  rw [h.kind, Option.any_some, hkind, Bool.not_true, Bool.false_or] at hr
  have hrole := List.find?_some hname
  exact hyields.lettered_name (List.all_eq_true.1 hr a ha) rfl rfl name
    (List.mem_of_find?_eq_some hname) (of_decide_eq_true hrole)

/-- **In the tree of a source, names are words.** -/
theorem isLettered_parse (source : String) : ∀ m, (parse source).Holds m → m.IsLettered := by
  apply forall_holds_parse
  · intro d hd n hn m hm
    rcases hd.isPhrase hn hm with ⟨role, k, token, rfl, -⟩ | ⟨r, hphrase⟩
    · intro _ name hname
      cases hname
    · exact hphrase.isLettered
  · intro hkind
    cases hkind
  · intro hkind
    cases hkind
  · intro role k parts h hkind name hname
    apply h hkind name
    have hlast : ([Node.branch none .error []].find? fun c => c.role = some .name) = none := rfl
    rw [Node.child?, Node.parts, List.find?_append, hlast, Option.or_none] at hname
    exact hname

/-- The names of methods and types in a file are words. -/
def SourceFile.IsLettered (f : SourceFile) : Prop :=
  ∀ n, f.tree.Holds n → n.IsLettered

theorem SourceFile.isLettered_read (s : Source) : (SourceFile.read s).IsLettered :=
  isLettered_parse s.content

/-! ## Declarations -/

/-- What follows the last dollar sign. -/
def dollarEnd (name : String) : String :=
  String.ofList (afterLastOf (· == '$') name.toList)

theorem eq_dollarEnd_iff {name : String} : name = dollarEnd name ↔ '$' ∉ name.toList := by
  rw [dollarEnd, ← String.toList_inj, String.toList_ofList, eq_comm, afterLastOf_eq_self_iff]
  constructor
  · intro h hmem
    simpa using h '$' hmem
  · intro h c hc
    exact beq_eq_false_iff_ne.2 (ne_of_mem_of_not_mem hc h)

/-- **The names of a type**: the qualified one ends with the simple one, there is no point in this,
and it is a word unless the type is anonymous. -/
structure TypeDecl.EndsSimply (t : TypeDecl) : Prop where
  ends : t.name = t.simpleName ∨
    ∃ front divider, (divider == '.' || divider == '$') = true ∧
      t.name.toList = front ++ divider :: t.simpleName.toList
  point : '.' ∉ t.simpleName.toList
  lettered : t.kind ≠ .anonymousType → Lettered t.simpleName

theorem TypeDecl.EndsSimply.afterLastOf_name {t : TypeDecl} (h : t.EndsSimply) :
    String.ofList (afterLastOf (fun c => c == '.' || c == '$') t.name.toList) =
      dollarEnd t.simpleName := by
  have hsimple : afterLastOf (fun c => c == '.' || c == '$') t.simpleName.toList =
      afterLastOf (· == '$') t.simpleName.toList := by
    apply afterLastOf_congr
    intro c hc
    rw [beq_eq_false_iff_ne.2 (ne_of_mem_of_not_mem hc h.point), Bool.false_or]
  rw [dollarEnd, ← hsimple]
  rcases h.ends with hname | ⟨front, divider, hdivider, hname⟩
  · rw [hname]
  · rw [hname, afterLastOf_append_cons hdivider]

/-- **A method is declared by a node** of a type. It takes the place of the node and is named as it
is written there; a constructor is named like the type, whatever is written. -/
structure MethodDecl.IsDeclaredBy (m : MethodDecl) (type : TypeDecl) (n : Node) (name : String) :
    Prop where
  kind : n.kind.declaresMethod = true
  place : m.start = n.start ∧ m.stop = n.stop
  id : ∃ params, m.id = MethodId.ofParts type.name name params
  written : n.kind ≠ .methodDeclaration ∧ name = type.simpleName ∨
    n.kind = .methodDeclaration ∧ ∃ node, n.child? .name = some node ∧ name = node.text

/-- A method is taken for a constructor if its name, as it was declared, is the end of the simple
name of its type. -/
theorem MethodDecl.IsDeclaredBy.isConstructor_iff {m : MethodDecl} {type : TypeDecl} {n : Node}
    {name : String} (h : m.IsDeclaredBy type n name) (htype : type.EndsSimply)
    (hash : '#' ∉ type.name.toList) (bracket : '(' ∉ name.toList) :
    m.id.isConstructor = true ↔ name = dollarEnd type.simpleName := by
  obtain ⟨params, hid⟩ := h.id
  rw [hid, MethodId.isConstructor, beq_iff_eq, MethodId.name_ofParts hash bracket,
    MethodId.simpleTypeName, MethodId.declaringType_ofParts hash, htype.afterLastOf_name]

namespace Found

/-- Each method was declared by a node of the tree, in a type whose names hang together. -/
structure Declared (root : Node) (f : Found) : Prop where
  types : ∀ t ∈ f.types, t.EndsSimply
  methods : ∀ m ∈ f.methods, ∃ t n name, f.types[m.type]? = some t ∧ root.Holds n ∧
    m.IsDeclaredBy t n name

namespace Declared

variable {root : Node} {f f' : Found}

theorem pushType (h : f.Declared root) {decl : TypeDecl} (hdecl : decl.EndsSimply) :
    Declared root { f with types := f.types.push decl } where
  types t ht := by
    rcases Array.mem_push.1 ht with ht | rfl
    · exact h.types t ht
    · exact hdecl
  methods m hm := by
    obtain ⟨t, n, name, ht, hrest⟩ := h.methods m hm
    have hlt : m.type < f.types.size := (Array.getElem?_eq_some_iff.1 ht).1
    refine ⟨t, n, name, ?_, hrest⟩
    rw [Array.getElem?_push, if_neg (Nat.ne_of_lt hlt), ht]

theorem step (lettered : ∀ n, root.Holds n → n.IsLettered) (h : f.Declared root)
    (step : f.Step root f') : f'.Declared root := by
  cases step with
  | @type s _ _ _ n _ within held entered =>
    obtain ⟨decl, rfl, hdecl⟩ := Surroundings.enterType_eq entered
    obtain ⟨name, hname, hwritten⟩ := hdecl.written
    have hnaming : n.kind.isNaming = true := by
      rw [Kind.isNaming, hdecl.kind, Option.isSome_some, Bool.or_true]
    have hsimple : Lettered decl.simpleName := by
      rw [hwritten]
      exact lettered n held hnaming name hname
    refine h.pushType ⟨?_, hsimple.not_mem (by decide), fun _ => hsimple⟩
    rw [hdecl.name]
    split
    next outer _ => exact .inr ⟨(f.typeName outer.id).toList, '.', rfl, by simp⟩
    next =>
      split
      · exact .inl rfl
      · exact .inr ⟨s.package.toList, '.', rfl, by simp⟩
  | anonymous within based entered =>
    obtain ⟨decl, outer, rfl, hdecl⟩ := Surroundings.enterAnonymous_eq entered
    refine h.pushType ⟨.inr ?_, ?_, fun hkind => absurd hdecl.kind hkind⟩
    · refine ⟨(f.typeName outer.id ++ "$" ++ toString (f.anonymousIn outer.id + 1)).toList, '$', rfl,
        ?_⟩
      rw [hdecl.name]
      simp
    · rw [hdecl.simpleName, lastSegment, String.toList_ofList]
      exact not_mem_afterLastOf rfl _
  | @method s _ _ n components b within held declared entered declares =>
    obtain ⟨decl, scope, name, params, rfl, hdecl, -⟩ := Surroundings.enterMethod_eq entered
    refine ⟨h.types, fun m hm => ?_⟩
    rcases Array.mem_push.1 hm with hm | rfl
    · exact h.methods m hm
    · have hlt : scope.id < f.types.size :=
        within.types scope (Surroundings.mem_of_innermost? hdecl.innermost)
      have hget : f.types[scope.id]? = some f.types[scope.id] := Array.getElem?_eq_getElem hlt
      have hname : f.typeName scope.id = f.types[scope.id].name := by
        rw [Found.typeName, hget]
        rfl
      have hsimple : f.simpleName scope.id = f.types[scope.id].simpleName := by
        rw [Found.simpleName, hget]
        rfl
      refine ⟨f.types[scope.id], n, name, by rw [hdecl.type, hget], held, declares, hdecl.place,
        ⟨params, hname ▸ hdecl.id⟩, hsimple ▸ hdecl.written⟩
  | calls _ method recorded =>
    refine ⟨h.types, fun m hm => ?_⟩
    obtain ⟨old, hold, rfl | rfl⟩ := mem_setCalls hm
    · exact h.methods m hold
    · obtain ⟨t, n, name, ht, hn, hdeclared⟩ := h.methods old hold
      exact ⟨t, n, name, ht, hn, hdeclared.kind, hdeclared.place, hdeclared.id, hdeclared.written⟩

end Declared
end Found

theorem SourceFile.IsRead.declared {f : SourceFile} (h : f.IsRead) (lettered : f.IsLettered) :
    f.outline.found.Declared f.tree := by
  obtain ⟨line, hline⟩ := h
  rw [hline]
  apply (Outline.grows_ofTree line f.tree).keeps
  · exact fun _ _ step h => h.step lettered step
  · exact ⟨by simp, by simp⟩

/-! ## Indexes -/

namespace Index

variable {ix : Index}

/-- Each method is declared by a node of its file. -/
structure Declared (ix : Index) : Prop where
  types : ∀ t ∈ ix.types, t.decl.EndsSimply
  methods : ∀ d ∈ ix.methods, ∃ f t n name, ix.fileOf? d = some f ∧
    ix.types[d.decl.type]? = some t ∧ f.tree.Holds n ∧ d.decl.IsDeclaredBy t.decl n name

theorem Declared.addFile (h : ix.Declared) {f : SourceFile} (hf : f.outline.found.Declared f.tree) :
    (ix.addFile f).Declared where
  types t ht := by
    rw [types_addFile] at ht
    rcases Array.mem_append.1 ht with ht | ht
    · exact h.types t ht
    · obtain ⟨decl, hdecl, rfl⟩ := Array.mem_map.1 ht
      have hends := hf.types decl hdecl
      exact ⟨hends.ends, hends.point, hends.lettered⟩
  methods d hd := by
    rcases mem_methods_addFile hd with hd | ⟨m, hm, rfl⟩
    · obtain ⟨g, t, n, name, hg, ht, hrest⟩ := h.methods d hd
      have hfile : d.file < ix.files.size := (Array.getElem?_eq_some_iff.1 hg).1
      have htype : d.decl.type < ix.types.size := (Array.getElem?_eq_some_iff.1 ht).1
      refine ⟨g, t, n, name, ?_, ?_, hrest⟩
      · rw [fileOf?, files_addFile, Array.getElem?_push, if_neg (Nat.ne_of_lt hfile)]
        exact hg
      · rw [types_addFile, Array.getElem?_append_left htype, ht]
    · obtain ⟨t, n, name, ht, hn, hdeclared⟩ := hf.methods m hm
      refine ⟨f, shiftType ix.files.size ix.types.size t, n, name, ?_, ?_, hn, ?_⟩
      · rw [fileOf?, files_addFile]
        exact Array.getElem?_push_size
      · show (ix.addFile f).types[m.type + ix.types.size]? = _
        rw [types_addFile, Array.getElem?_append_right (Nat.le_add_left ..), Nat.add_sub_cancel,
          Array.getElem?_map]
        exact congrArg _ ht
      · exact ⟨hdeclared.kind, hdeclared.place, hdeclared.id, hdeclared.written⟩

theorem Declared.linkSupers (h : ix.Declared) : ix.linkSupers.Declared where
  types t ht := by
    obtain ⟨old, hold, rfl⟩ := Array.mem_map.1 ht
    exact h.types old hold
  methods d hd := by
    obtain ⟨f, t, n, name, hf, ht, hrest⟩ := h.methods d hd
    exact ⟨f, _, n, name, hf, getElem?_types_linkSupers ht, hrest⟩

/-- **The methods of an index are declared by nodes of its files.** -/
theorem declared_ofFiles {files : List SourceFile} (read : ∀ f ∈ files, f.IsRead)
    (lettered : ∀ f ∈ files, f.IsLettered) : (ofFiles files).Declared := by
  have hfiles : ∀ f ∈ files, f.outline.found.Declared f.tree :=
    fun f hf => (read f hf).declared (lettered f hf)
  have hmerged : (files.foldl Index.addFile {}).Declared :=
    foldl_addFile_keeps (fun _ _ hf h => h.addFile hf) hfiles ⟨by simp, by simp⟩
  exact hmerged.linkSupers

/-- **A method counts as a constructor** exactly under a condition: its identifier says so, and calls
are bound to it as to a constructor; otherwise they are bound to it as to a method. -/
structure CountsAsConstructor (ix : Index) (d : IndexedMethod) (condition : Prop) : Prop where
  identifier : d.decl.id.isConstructor = true ↔ condition
  constructor : condition → ∀ target caller call,
    ix.bind? target d caller call = ix.bindConstructor caller call target d
  method : ¬ condition → ∀ target caller call,
    ix.bind? target d caller call = ix.bindMethod caller call target

theorem countsAsConstructor {d : IndexedMethod} {condition : Prop}
    (h : d.decl.id.isConstructor = true ↔ condition) : ix.CountsAsConstructor d condition where
  identifier := h
  constructor hcondition target caller call := by rw [bind?, if_pos (h.2 hcondition)]
  method hcondition target caller call := by rw [bind?, if_neg fun hd => hcondition (h.1 hd)]

/-- **Which methods count as constructors.** One that is declared as a method does if it is named
like the end of its type, and one that is declared as a constructor does if there is no dollar sign
in the name of its type. Where comments are written into names, the signs that divide an identifier
can get into the name of a package or of an anonymous type, and these are excepted. -/
theorem constructors_recognized (files : List SourceFile) (read : ∀ f ∈ files, f.IsRead)
    (lettered : ∀ f ∈ files, f.IsLettered) (d : IndexedMethod)
    (hd : d ∈ (ofFiles files).methods) :
    ∃ f n t, (ofFiles files).fileOf? d = some f ∧ f.tree.Holds n ∧
      d.decl.start = n.start ∧ d.decl.stop = n.stop ∧
      (ofFiles files).types[d.decl.type]? = some t ∧
      ('#' ∉ t.decl.name.toList →
        (t.decl.kind = .anonymousType → '(' ∉ t.decl.simpleName.toList) →
        (n.kind = .methodDeclaration ∧ ∃ name, n.child? .name = some name ∧
          (ofFiles files).CountsAsConstructor d (name.text = dollarEnd t.decl.simpleName)) ∨
        (n.kind = .constructorDeclaration ∨ n.kind = .compactConstructorDeclaration) ∧
          (ofFiles files).CountsAsConstructor d ('$' ∉ t.decl.simpleName.toList)) := by
  have declared := declared_ofFiles read lettered
  obtain ⟨f, t, n, name, hf, ht, hn, hdeclared⟩ := declared.methods d hd
  have htype : t.decl.EndsSimply := declared.types t (Array.mem_of_getElem? ht)
  refine ⟨f, n, t, hf, hn, hdeclared.place.1, hdeclared.place.2, ht, fun hash bracket => ?_⟩
  rcases hdeclared.written with ⟨hkind, rfl⟩ | ⟨hkind, node, hnode, rfl⟩
  · have hname : '(' ∉ t.decl.simpleName.toList := by
      by_cases hanonymous : t.decl.kind = .anonymousType
      · exact bracket hanonymous
      · exact (htype.lettered hanonymous).not_mem (by decide)
    refine .inr ⟨?_, countsAsConstructor ?_⟩
    · have hdeclares := hdeclared.kind
      unfold Kind.declaresMethod at hdeclares
      split at hdeclares
      next h => exact absurd h hkind
      next h => exact .inl h
      next h => exact .inr h
      next => cases hdeclares
    · rw [hdeclared.isConstructor_iff htype hash hname, eq_dollarEnd_iff]
  · have hmem : f ∈ files := by
      rw [fileOf?, files_ofFiles] at hf
      exact List.mem_toArray.1 (Array.mem_of_getElem? hf)
    have hname : Lettered node.text := lettered f hmem n hn (by rw [hkind]; rfl) node hnode
    exact .inl ⟨hkind, node, hnode, countsAsConstructor
      (hdeclared.isConstructor_iff htype hash (hname.not_mem (by decide)))⟩

/-! ## A class with a dollar sign -/

/-- The constructor of a class `A$B`. -/
def dollarConstructorNode : Node :=
  .branch none .constructorDeclaration [
    token (some .name) .identifier " " "A$B" 12,
    noParameters 15,
    braced .constructorBody 18 [] 20]

/-- A method `B` of the class. -/
def dollarMethodNode : Node :=
  .branch none .methodDeclaration [
    token (some .type) .voidType " " "void" 22,
    token (some .name) .identifier " " "B" 27,
    noParameters 28,
    braced .block 31 [] 33]

/-- A method that calls both. -/
def dollarCallerNode : Node :=
  .branch none .methodDeclaration [
    token (some .type) .voidType " " "void" 35,
    token (some .name) .identifier " " "f" 40,
    noParameters 41,
    braced .block 44 [
      .branch none .expressionStatement [
        .branch none .objectCreationExpression [
          sign " " "new" 46,
          token (some .type) .typeIdentifier " " "A$B" 50,
          noArguments 53],
        sign "" ";" 55],
      .branch none .expressionStatement [
        .branch none .methodInvocation [
          token (some .name) .identifier " " "B" 57,
          noArguments 58],
        sign "" ";" 60]] 62]

def dollarTree : Node :=
  .branch none .program [
    .branch none .classDeclaration [
      sign "" "class" 0,
      token (some .name) .identifier " " "A$B" 6,
      braced .classBody 10 [
        dollarConstructorNode,
        dollarMethodNode,
        dollarCallerNode] 64]]

theorem holds_dollarTree {n : Node}
    (h : n ∈ [dollarConstructorNode, dollarMethodNode, dollarCallerNode]) : dollarTree.Holds n := by
  refine .head (.head _) (.head (.tail _ (.tail _ (.head _))) (.single ?_))
  exact .tail _ (List.mem_append_left _ h)

def dollarFile : SourceFile :=
  fileOf "A.java"
    "class A$B \x7b A$B() \x7b \x7d void B() \x7b \x7d void f() \x7b new A$B(); B(); \x7d \x7d"
    dollarTree

/-- A method of that class, which is in one line. -/
def dollarMember (name : String) (start stop : Nat) (calls : List Call) : IndexedMethod where
  decl := ⟨.ofParts "A$B" name [], 0, start, stop, 1, 1, calls⟩
  file := 0

def dollarConstructor : IndexedMethod := dollarMember "A$B" 12 21 []

def dollarMethod : IndexedMethod := dollarMember "B" 22 34 []

def dollarCreation : Call := ⟨.creation, "A$B", .typed "A$B", some 0, 46, 9, 1⟩

def dollarCall : Call := ⟨.method, "B", .implicit, some 0, 57, 3, 1⟩

def dollarCaller : IndexedMethod := dollarMember "f" 35 63 [dollarCreation, dollarCall]

theorem methods_dollarFile :
    (ofFiles [dollarFile]).methods = #[dollarConstructor, dollarMethod, dollarCaller] := by
  decide +kernel

theorem isRead_dollarFile : ∀ f ∈ [dollarFile], f.IsRead := by
  simp [dollarFile, isRead_fileOf]

theorem isLettered_dollarFile : ∀ f ∈ [dollarFile], f.IsLettered := by
  refine List.forall_mem_singleton.2 ?_
  show ∀ n, dollarTree.Holds n → n.IsLettered
  decide +kernel

/-- The constructor does not count as one, so calls are bound to it as to a method. -/
theorem dollarConstructor_bound :
    (∀ f ∈ [dollarFile], f.IsRead) ∧ (∀ f ∈ [dollarFile], f.IsLettered) ∧
    dollarConstructor ∈ (ofFiles [dollarFile]).methods ∧
    dollarConstructor.decl.id.isConstructor = false ∧
    ∀ target caller call, (ofFiles [dollarFile]).bind? target dollarConstructor caller call =
      (ofFiles [dollarFile]).bindMethod caller call target := by
  have hmem : dollarConstructor ∈ (ofFiles [dollarFile]).methods := by simp [methods_dollarFile]
  refine ⟨isRead_dollarFile, isLettered_dollarFile, hmem, ?_⟩
  obtain ⟨f, n, t, hf, hn, hstart, -, ht, hcounts⟩ := constructors_recognized [dollarFile]
    isRead_dollarFile isLettered_dollarFile dollarConstructor hmem
  have htype : (ofFiles [dollarFile]).types[0]?.map (fun t => (t.decl.name, t.decl.simpleName)) =
      some ("A$B", "A$B") := by
    decide +kernel
  rw [show (ofFiles [dollarFile]).types[0]? = some t from ht] at htype
  obtain ⟨hname, hsimple⟩ := Prod.mk.inj (Option.some.inj htype)
  rw [hname, hsimple] at hcounts
  have hfile : f = dollarFile := by
    rw [fileOf?, files_ofFiles] at hf
    exact (Option.some.inj hf).symm
  have hmethods : ∀ n, dollarTree.Holds n →
      (n.kind == .methodDeclaration && 12 == n.start) = false := by
    decide +kernel
  rcases hcounts (by decide) (fun _ => by decide) with ⟨hkind, -⟩ | ⟨-, hcounts⟩
  · subst hfile
    have hother := hmethods n hn
    rw [hkind, ← hstart] at hother
    cases hother
  · exact ⟨by decide, hcounts.method (by decide)⟩

/-- **The constructor of the class does not count as one, its method `B` does**, and so neither of
them is called by its call. -/
theorem dollarClass_mistaken :
    (∀ f ∈ [dollarFile], f.IsRead) ∧ (∀ f ∈ [dollarFile], f.IsLettered) ∧
    (ofFiles [dollarFile]).methods = #[dollarConstructor, dollarMethod, dollarCaller] ∧
    (∃ n, dollarTree.Holds n ∧ n.kind = .constructorDeclaration ∧
      dollarConstructor.decl.start = n.start ∧ dollarConstructor.decl.stop = n.stop) ∧
    (∃ n, dollarTree.Holds n ∧ n.kind = .methodDeclaration ∧
      dollarMethod.decl.start = n.start ∧ dollarMethod.decl.stop = n.stop) ∧
    dollarConstructor.decl.id.isConstructor = false ∧ dollarMethod.decl.id.isConstructor = true ∧
    (ofFiles [dollarFile]).bind? 0 dollarConstructor dollarCaller dollarCreation = none ∧
    (ofFiles [dollarFile]).bind? 1 dollarMethod dollarCaller dollarCall = none := by
  refine ⟨isRead_dollarFile, isLettered_dollarFile, methods_dollarFile, ?_, ?_, by decide,
    by decide, by decide +kernel, by decide +kernel⟩
  · exact ⟨_, holds_dollarTree (.head _), rfl, by decide, by decide⟩
  · exact ⟨_, holds_dollarTree (.tail _ (.head _)), rfl, by decide, by decide⟩

end Index

end CallOrigins.Java
