import CallOrigins.Proofs.Java.SolidNames
import CallOrigins.Proofs.Java.Targets

/-!
# Methods named by their identifiers

The identifier of a method is also a name for it, with the type, the name and all the parameters.
Looked for by this name, the method is found only where the text is taken apart as it was put
together, and where no type that comes before goes by the same name.

Both can fail. A type goes by the end of its qualified name, so `a.B` also means a type `x.a.B`, and
the one that comes first is taken, even where the other one has the very name. And the two readings
of a text differ: an identifier has its parameters after its first `(`, which may belong to the
package where that is written with a comment, and has them as they are; a name has them after the
first `(` that follows its `#`, and erases them.

**The law** (`findTarget_own`) says exactly when the method itself is found.
-/

namespace CallOrigins

open Text

namespace Java

/-! ## The parameters of a name and of an identifier -/

/-- A solid list gives the erased parameters of it. -/
theorem TargetName.parseParams_of_solid {inner : String} (solid : Solid inner) :
    parseParams inner.toList = (MethodId.listed inner).map eraseType := by
  rw [parseParams, MethodId.listed, trimChars_eq_self solid]
  by_cases hinner : inner = ""
  · simp [hinner]
  · have hpiece : ∀ p ∈ pieces ',' inner.toList, compact (String.ofList p) = String.ofList p := by
      intro p hp
      exact Solid.compact_eq (solid.of_subset fun c hc => mem_of_mem_pieces hp hc)
    rw [if_neg (by simpa using hinner), if_neg hinner, List.map_map]
    exact List.map_congr_left fun p hp => congrArg eraseType (hpiece p hp)

theorem solid_of_mem_listed {inner p : String} (solid : Solid inner)
    (hp : p ∈ MethodId.listed inner) : Solid p := by
  rw [MethodId.listed] at hp
  split at hp
  next => exact absurd hp List.not_mem_nil
  next =>
    obtain ⟨cs, hcs, rfl⟩ := List.mem_map.1 hp
    exact solid.of_subset fun c hc => mem_of_mem_pieces hcs hc

/-- How many `#` there are in some texts. -/
def hashes (texts : List String) : Nat :=
  (texts.flatMap String.toList).count '#'

theorem hashes_map_eraseType_le (texts : List String) :
    hashes (texts.map eraseType) ≤ hashes texts := by
  induction texts with
  | nil => exact Nat.le_refl _
  | cons s texts ih =>
    have hone := (eraseFrom_sublist 0 false s.toList).count_le '#'
    simp only [hashes, List.map_cons, List.flatMap_cons, List.count_append, eraseType,
      String.toList_ofList] at ih ⊢
    omega

theorem hashes_listed (inner : String) :
    hashes (MethodId.listed inner) = inner.toList.count '#' := by
  rw [MethodId.listed]
  split
  next hinner => simp [hinner, hashes]
  next =>
    rw [← count_flatten_pieces (show '#' ≠ ',' by decide) inner.toList]
    simp [hashes, List.flatMap_map, List.flatMap_id']

/-- **The parameters of an identifier are read back from it** exactly where its type has no `(` and
erasing has nothing to take out of them. -/
theorem params_eq_parseParams_iff {m : MethodId} {inner : String} (h : m.IsComposed inner)
    (solid : Solid m.text) : m.params = TargetName.parseParams inner.toList ↔
      '(' ∉ m.declaringType.toList ∧ ∀ p ∈ m.params, Unmarked p := by
  have hinner : Solid inner := by
    rw [h.text] at solid
    simp only [only_append] at solid
    exact solid.1.2
  rw [TargetName.parseParams_of_solid hinner]
  by_cases opened : '(' ∈ m.declaringType.toList
  · -- the parameters then have one `#` more than the list
    refine ⟨fun heq => absurd heq ?_, fun hboth => absurd opened hboth.1⟩
    obtain ⟨back, hparams⟩ := h.exists_params_eq opened
    intro heq
    have hcount := hashes_map_eraseType_le (MethodId.listed inner)
    rw [← heq, hparams, hashes_listed, hashes_listed] at hcount
    simp only [String.toList_append, List.count_append] at hcount
    have hhash : "#".toList.count '#' = 1 := by decide
    omega
  · have hself : (MethodId.listed inner).map eraseType = MethodId.listed inner ↔
        ∀ p ∈ MethodId.listed inner, eraseType p = p := by
      simpa using List.map_inj_left (l := MethodId.listed inner) (f := eraseType) (g := id)
    rw [h.params_eq opened, eq_comm, hself, and_iff_right opened]
    refine forall_congr' fun p => forall_congr' fun hp => ?_
    exact eraseType_eq_self_iff.trans (and_iff_right (solid_of_mem_listed hinner hp))

/-! ## The method that is found -/

/-- The text of an identifier is taken apart as it was put together. -/
structure ReadsBack (m : MethodId) : Prop where
  type_ne : m.declaringType ≠ ""
  name_ne : m.name ≠ ""
  type_plain : '(' ∉ m.declaringType.toList
  unmarked : ∀ p ∈ m.params, Unmarked p

namespace Index

variable {ix : Index} {m m' : MethodId} {inner : String} {d e : IndexedMethod}

/-- The name that the text of an identifier is read as. -/
def ownName (m : MethodId) (inner : String) : TargetName :=
  ⟨m.declaringType, m.name, some (TargetName.parseParams inner.toList)⟩

theorem findTarget_text (h : m.IsComposed inner) (solid : Solid m.text) :
    ix.findTarget m.text = .ok m' ↔
      m.declaringType ≠ "" ∧ m.name ≠ "" ∧ ix.methodNamed (ownName m inner) = .ok m' := by
  have hname : Solid m.name := by
    rw [h.text] at solid
    simp only [only_append] at solid
    exact solid.1.1.1.2
  have htext : trim m.text =
      m.declaringType ++ "#" ++ m.name ++ TargetName.listText (some inner) := by
    rw [solid.trim_eq, h.text]
    simp only [TargetName.listText, String.append_assoc]
  rw [findTarget_eq_ok, TargetName.parse_of_text htext h.type_cut h.name_cut, hname.trim_eq]
  by_cases hempty : m.declaringType = "" ∨ m.name = ""
  · rw [if_pos hempty]
    refine iff_of_false (by simp) fun hne => ?_
    exact hempty.elim hne.1 hne.2.1
  · rw [if_neg hempty]
    rw [not_or] at hempty
    simp [hempty, ownName, TargetName.paramsOf]

theorem Named.exists_isComposed (named : ix.Named) (hd : d ∈ ix.methods) :
    ∃ inner, d.decl.id.IsComposed inner := by
  obtain ⟨t, -, name, params, hid⟩ := named.methods d hd
  rw [hid]
  exact MethodId.exists_isComposed t.decl.name name params

/-- Two methods of an index are one if their identifiers have the same parts. -/
theorem Named.id_eq_of_parts (named : ix.Named) (hd : d ∈ ix.methods) (he : e ∈ ix.methods)
    (plain : '(' ∉ d.decl.id.declaringType.toList)
    (htype : e.decl.id.declaringType = d.decl.id.declaringType)
    (hname : e.decl.id.name = d.decl.id.name) (hparams : e.decl.id.params = d.decl.id.params) :
    e.decl.id = d.decl.id := by
  obtain ⟨inner, hinner⟩ := named.exists_isComposed hd
  obtain ⟨inner', hinner'⟩ := named.exists_isComposed he
  exact hinner.eq_of_parts hinner' plain htype hname hparams

theorem Named.identifiedBy (named : ix.Named) (hd : d ∈ ix.methods) {owner : IndexedType}
    (owned : ix.types[d.decl.type]? = some owner) : IdentifiedBy d.decl.id owner.decl := by
  obtain ⟨t, ht, hid⟩ := named.methods d hd
  obtain rfl : t = owner := Option.some.inj (ht.symm.trans owned)
  exact hid

/-- The type in an identifier is the name of the type that declares the method, up to its first
`#`. -/
theorem Named.declaringType_eq (named : ix.Named) (hd : d ∈ ix.methods) {owner : IndexedType}
    (owned : ix.types[d.decl.type]? = some owner) :
    d.decl.id.declaringType = String.ofList (beforeFirst '#' owner.decl.name.toList) := by
  obtain ⟨name, params, hid⟩ := named.identifiedBy hd owned
  rw [hid, MethodId.declaringType_ofParts_eq]

theorem Named.declaringType_of_plain (named : ix.Named) (hd : d ∈ ix.methods) {owner : IndexedType}
    (owned : ix.types[d.decl.type]? = some owner) (plain : '#' ∉ owner.decl.name.toList) :
    d.decl.id.declaringType = owner.decl.name := by
  obtain ⟨name, params, hid⟩ := named.identifiedBy hd owned
  rw [hid, MethodId.declaringType_ofParts plain]

theorem WellFormed.eq_of_id (wf : ix.WellFormed) (hd : d ∈ ix.methods) (he : e ∈ ix.methods)
    (hid : e.decl.id = d.decl.id) : e = d := by
  obtain ⟨i, hi⟩ := Array.getElem?_of_mem hd
  obtain ⟨j, hj⟩ := Array.getElem?_of_mem he
  obtain rfl : j = i := wf.eq_of_id_eq hj hi hid
  exact Option.some.inj (hj.symm.trans hi)

/-- A method is among those that its identifier means where the parts are read back. -/
theorem isNamed_ownName (h : d.decl.id.IsComposed inner) (solid : Solid d.decl.id.text)
    {owner : IndexedType} (owned : ix.types[d.decl.type]? = some owner) :
    ix.IsNamed (ownName d.decl.id inner) d ↔ owner.GoesBy d.decl.id.declaringType ∧
      '(' ∉ d.decl.id.declaringType.toList ∧ ∀ p ∈ d.decl.id.params, Unmarked p := by
  rw [← params_eq_parseParams_iff h solid]
  constructor
  · rintro ⟨⟨owner', howner', hgoes⟩, hnames⟩
    obtain rfl : owner' = owner := Option.some.inj (howner'.symm.trans owned)
    exact ⟨hgoes, hnames.params _ rfl⟩
  · rintro ⟨hgoes, hparams⟩
    refine ⟨⟨owner, owned, hgoes⟩, rfl, ?_⟩
    rintro _ ⟨⟩
    exact hparams

theorem IsFirst.mem {p : IndexedMethod → Prop} (h : ix.IsFirst p d) : d ∈ ix.methods := by
  obtain ⟨i, hi, -⟩ := h
  exact Array.mem_of_getElem? hi

theorem IsFirst.holds {p : IndexedMethod → Prop} (h : ix.IsFirst p d) : p d := by
  obtain ⟨i, -, hp, -⟩ := h
  exact hp

/-- A method is overtaken by one with the same name and parameters, of a type that comes before and
whose qualified name is longer and ends with the type of the method. -/
def IsOvertaken (ix : Index) (d : IndexedMethod) : Prop :=
  ∃ e ∈ ix.methods, e.decl.type < d.decl.type ∧
    e.decl.id.name = d.decl.id.name ∧ e.decl.id.params = d.decl.id.params ∧
    ∃ other, ix.types[e.decl.type]? = some other ∧ other.decl.kind ≠ .anonymousType ∧
      ∃ front, other.decl.name = front ++ "." ++ d.decl.id.declaringType

theorem IsFirst.not_isOvertaken (h : ix.IsFirst (ix.IsNamed (ownName d.decl.id inner)) d) :
    ¬ix.IsOvertaken d := by
  obtain ⟨i, -, hown, hleast⟩ := h
  rintro ⟨e, he, hlt, hname, hparams, other, hother, hlonger⟩
  obtain ⟨j, hj⟩ := Array.getElem?_of_mem he
  have hrival : ix.IsNamed (ownName d.decl.id inner) e := by
    refine ⟨⟨other, hother, .inr hlonger⟩, hname, ?_⟩
    rintro _ ⟨⟩
    exact hparams.trans (hown.2.params _ rfl)
  have hafter := hleast j e hj hrival
  omega

/-- The methods that an identifier means are its own one and those that overtake it or come after
it. -/
theorem isFirst_ownName (wf : ix.WellFormed) (named : ix.Named) (hd : d ∈ ix.methods)
    (hinner : d.decl.id.IsComposed inner) (plain : '(' ∉ d.decl.id.declaringType.toList)
    (hown : ix.IsNamed (ownName d.decl.id inner) d) (hnone : ¬ix.IsOvertaken d) :
    ix.IsFirst (ix.IsNamed (ownName d.decl.id inner)) d := by
  obtain ⟨i, hi⟩ := Array.getElem?_of_mem hd
  obtain ⟨owner, owned, -⟩ := hown.1
  refine ⟨i, hi, hown, fun j e hj hrival => ?_⟩
  have he := Array.mem_of_getElem? hj
  have hparams : e.decl.id.params = d.decl.id.params :=
    (hrival.2.params _ rfl).trans (hown.2.params _ rfl).symm
  have hself : e.decl.id.declaringType = d.decl.id.declaringType → j = i := fun htype =>
    wf.eq_of_id_eq hj hi (named.id_eq_of_parts hd he plain htype hrival.2.name hparams)
  rcases Nat.lt_trichotomy d.decl.type e.decl.type with hlt | heq | hgt
  · exact .inl hlt
  · -- methods of one type have one type in their identifiers
    refine .inr ⟨heq, Nat.le_of_eq (hself ?_).symm⟩
    rw [named.declaringType_eq he (heq ▸ owned), named.declaringType_eq hd owned]
  · obtain ⟨other, hother, hname | hlonger⟩ := hrival.1
    · have hplain : '#' ∉ other.decl.name.toList := hname.symm ▸ hinner.type_cut
      obtain rfl := hself ((named.declaringType_of_plain he hother hplain).trans hname)
      rw [Option.some.inj (hj.symm.trans hi)] at hgt
      exact absurd hgt (Nat.lt_irrefl _)
    · exact absurd ⟨e, he, hgt, hrival.2.name, hparams, other, hother, hlonger⟩ hnone

/-- **When an identifier finds its own method.** In every index of files that are read and spelled,
the text of the identifier of a method finds that method exactly where it is taken apart as it was
put together, the type that declares the method goes by the type in it, and the method is not
overtaken. Where it is overtaken only, the text finds another method with the same name and
parameters. -/
theorem findTarget_own (files : List SourceFile) (read : ∀ f ∈ files, f.IsRead)
    (spelled : ∀ f ∈ files, f.IsSpelled) (d : IndexedMethod)
    (indexed : d ∈ (ofFiles files).methods) (owner : IndexedType)
    (owned : (ofFiles files).types[d.decl.type]? = some owner) :
    ((ofFiles files).findTarget d.decl.id.text = .ok d.decl.id ↔
      ReadsBack d.decl.id ∧ owner.GoesBy d.decl.id.declaringType ∧
        ¬(ofFiles files).IsOvertaken d) ∧
    (ReadsBack d.decl.id → owner.GoesBy d.decl.id.declaringType →
      ∃ e ∈ (ofFiles files).methods, (ofFiles files).findTarget d.decl.id.text = .ok e.decl.id ∧
        e.decl.id.name = d.decl.id.name ∧ e.decl.id.params = d.decl.id.params) := by
  have wf := wellFormed_ofFiles read
  have named := named_ofFiles read
  have solid : Solid d.decl.id.text :=
    solid_identifiers read spelled (List.mem_map_of_mem (Array.mem_toList_iff.2 indexed))
  obtain ⟨inner, hinner⟩ := named.exists_isComposed indexed
  have hnamed := isNamed_ownName hinner solid owned
  simp only [findTarget_text hinner solid]
  constructor
  · rw [methodNamed_eq_ok_iff]
    constructor
    · rintro ⟨htype, hname, d', hfirst, hid⟩
      obtain rfl : d' = d := wf.eq_of_id indexed hfirst.mem hid
      obtain ⟨hgoes, hplain, hunmarked⟩ := hnamed.1 hfirst.holds
      exact ⟨⟨htype, hname, hplain, hunmarked⟩, hgoes, hfirst.not_isOvertaken⟩
    · rintro ⟨reads, hgoes, hnone⟩
      have hown := hnamed.2 ⟨hgoes, reads.type_plain, reads.unmarked⟩
      exact ⟨reads.type_ne, reads.name_ne, d,
        isFirst_ownName wf named indexed hinner reads.type_plain hown hnone, rfl⟩
  · intro reads hgoes
    have hown := hnamed.2 ⟨hgoes, reads.type_plain, reads.unmarked⟩
    obtain ⟨m, hm⟩ := exists_methodNamed.2 ⟨d, indexed, hown⟩
    obtain ⟨e, hfirst, rfl⟩ := methodNamed_eq_ok_iff.1 hm
    refine ⟨e, hfirst.mem, ⟨reads.type_ne, reads.name_ne, hm⟩, hfirst.holds.2.name, ?_⟩
    exact (hfirst.holds.2.params _ rfl).trans (hown.2.params _ rfl).symm

/-! ## Two types with one end -/

/-- A class with a method, in a package whose name is written up to a place. -/
def packagedTree (package : Node) (stop : Nat) : Node :=
  .branch none .program [
    .branch none .packageDeclaration [
      sign "" "package" 0,
      package,
      sign "" ";" stop],
    .branch none .classDeclaration [
      sign " " "class" (stop + 2),
      token (some .name) .identifier " " "B" (stop + 8),
      braced .classBody (stop + 10) [
        .branch none .methodDeclaration [
          token (some .type) .voidType " " "void" (stop + 12),
          token (some .name) .identifier " " "m" (stop + 17),
          .branch (some .parameters) .formalParameters [
            sign "" "(" (stop + 18),
            sign "" ")" (stop + 19)],
          braced .block (stop + 21) [] (stop + 23)]] (stop + 25)]]

/-- The class in the package `a`. -/
def shortFile : SourceFile :=
  fileOf "B.java" "package a; class B \x7b void m() \x7b \x7d \x7d"
    (packagedTree (token none .identifier " " "a" 8) 9)

/-- The class in the package `x.a`. -/
def longFile : SourceFile :=
  fileOf "A.java" "package x.a; class B \x7b void m() \x7b \x7d \x7d"
    (packagedTree
      (.branch none .scopedIdentifier [
        token (some .scope) .identifier " " "x" 8,
        sign "" "." 9,
        token (some .name) .identifier "" "a" 10]) 11)

theorem isRead_packagedFiles : ∀ f ∈ [shortFile, longFile], f.IsRead := by
  simp [shortFile, longFile, isRead_fileOf]

theorem isSpelled_packagedFiles : ∀ f ∈ [shortFile, longFile], f.IsSpelled := by
  simp only [List.forall_mem_cons, List.not_mem_nil, false_imp_iff, implies_true, and_true]
  show (∀ n, (packagedTree _ _).Holds n → n.IsSpelled) ∧
    ∀ n, (packagedTree _ _).Holds n → n.IsSpelled
  decide +kernel

/-- The method of the class in the package `x.a`, where this class comes second. -/
def longMethod : IndexedMethod :=
  ⟨⟨⟨"x.a.B#m()"⟩, 1, 23, 35, 1, 1, []⟩, 1⟩

/-- The method of the class in the package `a`, where this class comes second. -/
def shortMethod : IndexedMethod :=
  ⟨⟨⟨"a.B#m()"⟩, 1, 21, 33, 1, 1, []⟩, 1⟩

/-- A class with the shorter name before the other one is not in its way. -/
theorem longMethod_own :
    (∀ f ∈ [shortFile, longFile], f.IsRead) ∧ (∀ f ∈ [shortFile, longFile], f.IsSpelled) ∧
    longMethod ∈ (ofFiles [shortFile, longFile]).methods ∧
    (ofFiles [shortFile, longFile]).types[longMethod.decl.type]? =
      some ⟨⟨"x.a.B", "B", .classType, 1, none, []⟩, 1, []⟩ ∧
    (ofFiles [shortFile, longFile]).findTarget "x.a.B#m()" = .ok ⟨"x.a.B#m()"⟩ := by
  have read := isRead_packagedFiles
  have spelled := isSpelled_packagedFiles
  have indexed : longMethod ∈ (ofFiles [shortFile, longFile]).methods := by decide +kernel
  have first : (ofFiles [shortFile, longFile]).types[0]? =
      some ⟨⟨"a.B", "B", .classType, 1, none, []⟩, 0, []⟩ := by decide +kernel
  have owned : (ofFiles [shortFile, longFile]).types[longMethod.decl.type]? =
      some ⟨⟨"x.a.B", "B", .classType, 1, none, []⟩, 1, []⟩ := by decide +kernel
  have htype : longMethod.decl.id.declaringType = "x.a.B" := by decide
  refine ⟨read, spelled, indexed, owned, ?_⟩
  refine (findTarget_own _ read spelled longMethod indexed _ owned).1.2
    ⟨⟨by decide, by decide, by decide, by decide⟩, .inl htype.symm, ?_⟩
  rintro ⟨e, -, hlt, -, -, other, hother, -, front, hfront⟩
  have hzero : e.decl.type = 0 := Nat.lt_one_iff.1 hlt
  rw [hzero, first] at hother
  cases hother
  have hlength : "a.B".length = (front ++ "." ++ "x.a.B").length :=
    congrArg String.length (htype ▸ hfront)
  have hshorter : "a.B".length < "x.a.B".length := by decide
  rw [String.length_append] at hlength
  omega

/-- **An identifier finds another method.** A class with the longer name before the other one is in
its way: the very name of a class gives way to the end of a longer name. -/
theorem shortMethod_overtaken :
    ∃ files d, (∀ f ∈ files, SourceFile.IsRead f) ∧ (∀ f ∈ files, SourceFile.IsSpelled f) ∧
      d ∈ (ofFiles files).methods ∧ (ofFiles files).typeNamed? d.decl.id.declaringType = some 1 ∧
      (ofFiles files).findTarget d.decl.id.text = .ok ⟨"x.a.B#m()"⟩ ∧
      d.decl.id ≠ ⟨"x.a.B#m()"⟩ := by
  refine ⟨[longFile, shortFile], shortMethod, fun f hf => isRead_packagedFiles f ?_,
    fun f hf => isSpelled_packagedFiles f ?_, by decide +kernel, by decide +kernel, ?_, by decide⟩
  · exact (List.Perm.swap _ _ _).mem_iff.1 hf
  · exact (List.Perm.swap _ _ _).mem_iff.1 hf
  · decide +kernel

end Index
end Java
end CallOrigins
