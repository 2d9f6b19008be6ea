import CallOrigins.Java.Index.Target
import CallOrigins.Proofs.Java.Assembly

/-!
# The method that a text names

A text names a method as `Type#name` or `Type#name(Param,Param)`. `IsTarget` says which texts have
this form and how they are taken apart, `Means` which methods of an index fit such a name, and
`IsFirst` which one of them comes first: types are tried in their order, and for each type its
methods in theirs.

**The law** (`findTarget_first`): a text finds a method exactly where it has the form and some
method of the index fits, and it finds the first of them. This also holds where no parameters are
given and each type offers its first method with the name only, as that is the first to fit.
-/

namespace CallOrigins.Java

open Text

/-! ## Reading a name -/

namespace TargetName

/-- A list of parameters as it is written after a name. -/
def listText : Option String → String
  | none => ""
  | some inner => "(" ++ inner ++ ")"

/-- **The form of a name**: a type up to the first `#`, then a name up to the first `(`, then
perhaps a list of parameters. Neither the type nor the name is empty. -/
structure IsTarget (s type name : String) (list : Option String) : Prop where
  text : trim s = type ++ "#" ++ name ++ listText list
  type_cut : '#' ∉ type.toList
  name_cut : '(' ∉ name.toList
  type_ne : type ≠ ""
  name_ne : trim name ≠ ""

/-- The parameters that a written list gives: its pieces between the commas, compacted and erased,
or none where it is blank. -/
def Lists (inner : String) (params : List String) : Prop :=
  if Only (fun c => isBlank c = true) inner then params = []
  else ∃ ps, ps ≠ [] ∧ (∀ p ∈ ps, ',' ∉ p.toList) ∧ ",".intercalate ps = inner ∧
    params = ps.map fun p => eraseType (compact p)

/-- A list gives the parameters that are read from it, and no others. -/
theorem parseParams_eq_iff {inner : String} {params : List String} :
    parseParams inner.toList = params ↔ Lists inner params := by
  have hempty : (trimChars inner.toList).isEmpty = true ↔
      Only (fun c => isBlank c = true) inner := by
    rw [List.isEmpty_iff, trimChars_eq_nil_iff, Only]
  rw [parseParams, Lists]
  simp only [hempty]
  split
  next => exact eq_comm
  next =>
    constructor
    · rintro rfl
      refine ⟨(pieces ',' inner.toList).map String.ofList, ?_, ?_,
        intercalate_commaPieces inner, ?_⟩
      · simpa using pieces_ne_nil ',' inner.toList
      · intro p hp
        obtain ⟨cs, hcs, rfl⟩ := List.mem_map.1 hp
        rw [String.toList_ofList]
        exact not_mem_of_mem_pieces hcs
      · simp [Function.comp_def]
    · rintro ⟨ps, hne, hcut, rfl, rfl⟩
      have hpieces : pieces ',' (",".intercalate ps).toList = ps.map String.toList := by
        rw [String.toList_intercalate]
        exact pieces_intercalate (by simpa using hne) (by simpa using hcut)
      rw [hpieces, List.map_map]
      simp [Function.comp_def]

/-- The parameters of a name that is written with or without a list. -/
def paramsOf (list : Option String) : Option (List String) :=
  list.map fun inner => parseParams inner.toList

theorem parseMember_append {name : String} (h : '(' ∉ name.toList) (list : Option String) :
    parseMember (name.toList ++ (listText list).toList) = .ok (trim name, paramsOf list) := by
  cases list with
  | none =>
    have hnone : cutFirst '(' name.toList = none := cutFirst_eq_none_iff.2 h
    simp [listText, parseMember, hnone, paramsOf, trim]
  | some inner =>
    have hcut : cutFirst '(' (name.toList ++ '(' :: (inner.toList ++ [')'])) =
        some (name.toList, inner.toList ++ [')']) := cutFirst_append h _
    have hdrop : dropBack? [')'] (inner.toList ++ [')']) = some inner.toList :=
      dropBack?_eq_some.2 rfl
    simp [listText, parseMember, hcut, hdrop, paramsOf, trim]

theorem exists_of_parseMember {member : List Char} {name : String} {params : Option (List String)}
    (h : parseMember member = .ok (name, params)) :
    ∃ written list, '(' ∉ written.toList ∧ member = written.toList ++ (listText list).toList ∧
      name = trim written ∧ params = paramsOf list := by
  rw [parseMember] at h
  cases hcut : cutFirst '(' member with
  | none =>
    rw [hcut] at h
    cases h
    exact ⟨String.ofList member, none, by simpa using cutFirst_eq_none_iff.1 hcut,
      by simp [listText], by simp [trim], rfl⟩
  | some cut =>
    obtain ⟨written, rest⟩ := cut
    rw [hcut] at h
    cases hdrop : dropBack? [')'] rest with
    | none => simp [hdrop] at h
    | some inner =>
      simp only [hdrop] at h
      cases h
      refine ⟨String.ofList written, some (String.ofList inner), ?_, ?_, by simp [trim], ?_⟩
      · simpa using not_mem_of_cutFirst hcut
      · rw [eq_append_of_cutFirst hcut, dropBack?_eq_some.1 hdrop]
        simp [listText]
      · simp [paramsOf]

/-- A text with both signs is read, unless one of its parts is empty. -/
theorem parse_of_text {s type name : String} {list : Option String}
    (text : trim s = type ++ "#" ++ name ++ listText list) (type_cut : '#' ∉ type.toList)
    (name_cut : '(' ∉ name.toList) :
    parse s = if type = "" ∨ trim name = "" then .error .emptyPart
      else .ok ⟨type, trim name, paramsOf list⟩ := by
  have htext : trimChars s.toList =
      type.toList ++ '#' :: (name.toList ++ (listText list).toList) := by
    have hlist := congrArg String.toList text
    simpa [trim] using hlist
  have hmember := parseMember_append name_cut list
  rw [parse, htext, cutFirst_append type_cut]
  simp [hmember]

theorem IsTarget.parse_eq {s type name : String} {list : Option String}
    (h : IsTarget s type name list) : parse s = .ok ⟨type, trim name, paramsOf list⟩ := by
  rw [parse_of_text h.text h.type_cut h.name_cut, if_neg (not_or.2 ⟨h.type_ne, h.name_ne⟩)]

/-- A text that is read has the form of a name. -/
theorem exists_isTarget_of_parse {s : String} {t : TargetName} (h : parse s = .ok t) :
    ∃ type name list, IsTarget s type name list ∧ t = ⟨type, trim name, paramsOf list⟩ := by
  rw [parse] at h
  cases hcut : cutFirst '#' (trimChars s.toList) with
  | none => simp [hcut] at h
  | some cut =>
    obtain ⟨type, member⟩ := cut
    simp only [hcut] at h
    cases hmember : parseMember member with
    | error e => simp [hmember] at h
    | ok parts =>
      obtain ⟨name, params⟩ := parts
      simp only [hmember] at h
      by_cases hempty : (type.isEmpty || name.isEmpty) = true
      · simp [hempty] at h
      · rw [if_neg hempty] at h
        cases h
        obtain ⟨written, list, hwritten, rfl, rfl, rfl⟩ := exists_of_parseMember hmember
        rw [Bool.or_eq_true, not_or] at hempty
        refine ⟨String.ofList type, written, list, ⟨?_, ?_, hwritten, ?_, ?_⟩, rfl⟩
        · rw [trim, eq_append_of_cutFirst hcut, ← String.toList_inj]
          simp
        · simpa using not_mem_of_cutFirst hcut
        · simpa using hempty.1
        · simpa using hempty.2

/-- **A text is read as a name exactly where it has the form of one.** -/
theorem exists_parse_iff {s : String} {P : TargetName → Prop} :
    (∃ t, parse s = .ok t ∧ P t) ↔
      ∃ type name list, IsTarget s type name list ∧ P ⟨type, trim name, paramsOf list⟩ := by
  constructor
  · rintro ⟨t, hparse, ht⟩
    obtain ⟨type, name, list, htarget, rfl⟩ := exists_isTarget_of_parse hparse
    exact ⟨type, name, list, htarget, ht⟩
  · rintro ⟨type, name, list, htarget, ht⟩
    exact ⟨_, htarget.parse_eq, ht⟩

end TargetName

/-! ## The methods that a name means -/

/-- A type goes by its qualified name and, unless it is anonymous, by what follows a point in it. -/
def IndexedType.GoesBy (owner : IndexedType) (name : String) : Prop :=
  owner.decl.name = name ∨
    owner.decl.kind ≠ .anonymousType ∧ ∃ front, owner.decl.name = front ++ "." ++ name

/-- The method has the name and, where they are given, the parameters. -/
structure TargetName.Names (t : TargetName) (d : IndexedMethod) : Prop where
  name : d.decl.id.name = t.name
  params : ∀ params, t.params = some params → d.decl.id.params = params

theorem TargetName.fitsType_iff {t : TargetName} {owner : IndexedType} :
    t.fitsType owner = true ↔ owner.GoesBy t.type := by
  have hback : endsWith ('.' :: t.type.toList) owner.decl.name.toList = true ↔
      ∃ front, owner.decl.name = front ++ "." ++ t.type := by
    rw [endsWith_iff]
    constructor
    · rintro ⟨front, hfront⟩
      exact ⟨String.ofList front, by rw [← String.toList_inj, hfront]; simp⟩
    · rintro ⟨front, hfront⟩
      exact ⟨front.toList, by rw [hfront]; simp⟩
  simp only [fitsType, Bool.or_eq_true, beq_iff_eq, Bool.and_eq_true, bne_iff_ne, hback,
    IndexedType.GoesBy]

namespace Index

variable {ix : Index} {t : TargetName} {m : MethodId} {type : Nat}

/-- The method of an index is one that a name means. -/
def IsNamed (ix : Index) (t : TargetName) (d : IndexedMethod) : Prop :=
  (∃ owner, ix.types[d.decl.type]? = some owner ∧ owner.GoesBy t.type) ∧ t.Names d

/-- Of the methods with a property, this one comes first: it has the smallest number among those of
the type with the smallest number. -/
def IsFirst (ix : Index) (p : IndexedMethod → Prop) (d : IndexedMethod) : Prop :=
  ∃ i : Nat, ix.methods[i]? = some d ∧ p d ∧ ∀ (j : Nat) (e : IndexedMethod),
    ix.methods[j]? = some e → p e → d.decl.type < e.decl.type ∨ d.decl.type = e.decl.type ∧ i ≤ j

/-- In an ascending list the first result is that of the smallest number with one. -/
theorem findSome?_eq_some_iff_of_pairwise {α : Type} {f : Nat → Option α} {xs : List Nat}
    (h : xs.Pairwise (· < ·)) {a : α} :
    xs.findSome? f = some a ↔ ∃ x ∈ xs, f x = some a ∧ ∀ y ∈ xs, y < x → f y = none := by
  induction xs with
  | nil => simp
  | cons z zs ih =>
    rw [List.pairwise_cons] at h
    rw [List.findSome?_cons]
    cases hz : f z with
    | some b =>
      constructor
      · rintro ⟨⟩
        exact ⟨z, List.mem_cons_self, hz, fun y hy hlt => by
          rcases List.mem_cons.1 hy with rfl | hy
          · exact absurd hlt (Nat.lt_irrefl _)
          · exact absurd (h.1 y hy) (Nat.lt_asymm hlt)⟩
      · rintro ⟨x, hx, hfx, hleast⟩
        rcases List.mem_cons.1 hx with rfl | hx
        · rw [← hz, hfx]
        · rw [hleast z List.mem_cons_self (h.1 x hx)] at hz
          cases hz
    | none =>
      rw [ih h.2]
      constructor
      · rintro ⟨x, hx, hfx, hleast⟩
        exact ⟨x, List.mem_cons_of_mem _ hx, hfx, List.forall_mem_cons.2 ⟨fun _ => hz, hleast⟩⟩
      · rintro ⟨x, hx, hfx, hleast⟩
        rcases List.mem_cons.1 hx with rfl | hx
        · rw [hz] at hfx
          cases hfx
        · exact ⟨x, hx, hfx, fun y hy => hleast y (List.mem_cons_of_mem _ hy)⟩

/-- The identifier of the method with a number, where it has the parameters that are given. -/
def memberAt? (ix : Index) (t : TargetName) (i : Nat) : Option MethodId :=
  ((ix.methods[i]?).map fun d => d.decl.id).filter fun m =>
    t.params.all fun params => m.params == params

/-- Where no parameters are given only the first method is kept, which is the one that counts. -/
theorem head?_membersNamed (ix : Index) (t : TargetName) (type : Nat) :
    (ix.membersNamed t type).head? = (ix.members type t.name).findSome? (ix.memberAt? t) := by
  unfold membersNamed memberAt?
  cases t.params with
  | none =>
    have hkeep : ∀ id? : Option MethodId, id?.filter (fun _ => true) = id? := by
      intro id?
      cases id? <;> rfl
    simp only [Option.all_none, hkeep]
    rw [← List.head?_filterMap, List.head?_take, if_neg Nat.one_ne_zero]
  | some params => simp [List.filter_filterMap, List.head?_filterMap]

theorem memberAt?_eq_some {i : Nat} : ix.memberAt? t i = some m ↔
    ∃ d, ix.methods[i]? = some d ∧ d.decl.id = m ∧
      ∀ params, t.params = some params → d.decl.id.params = params := by
  have hall : ∀ m : MethodId, t.params.all (fun params => m.params == params) = true ↔
      ∀ params, t.params = some params → m.params = params := by
    intro m
    cases t.params with
    | none => simp
    | some params => simp
  simp only [memberAt?, Option.filter_eq_some_iff, Option.map_eq_some_iff, hall]
  constructor
  · rintro ⟨⟨d, hd, rfl⟩, hparams⟩
    exact ⟨d, hd, rfl, hparams⟩
  · rintro ⟨d, hd, rfl, hparams⟩
    exact ⟨⟨d, hd, rfl⟩, hparams⟩

/-- **The methods of one type**: the first that a name means has the smallest number. -/
theorem head?_membersNamed_eq_some : (ix.membersNamed t type).head? = some m ↔
    ∃ (i : Nat) (d : IndexedMethod), ix.methods[i]? = some d ∧ d.decl.type = type ∧ t.Names d ∧
      d.decl.id = m ∧ ∀ (j : Nat) (e : IndexedMethod), ix.methods[j]? = some e →
        e.decl.type = type → t.Names e → i ≤ j := by
  rw [head?_membersNamed, findSome?_eq_some_iff_of_pairwise (pairwise_members ..)]
  simp only [mem_members]
  constructor
  · rintro ⟨i, ⟨d, hd, htype, hname⟩, hmember, hleast⟩
    obtain ⟨d', hd', hid, hparams⟩ := memberAt?_eq_some.1 hmember
    obtain rfl : d = d' := Option.some.inj (hd.symm.trans hd')
    refine ⟨i, d, hd, htype, ⟨hname, hparams⟩, hid, fun j e he hetype hnames => ?_⟩
    by_contra hlt
    have hnone := hleast j ⟨e, he, hetype, hnames.name⟩ (Nat.lt_of_not_le hlt)
    rw [memberAt?_eq_some.2 ⟨e, he, rfl, hnames.params⟩] at hnone
    cases hnone
  · rintro ⟨i, d, hd, htype, hnames, hid, hleast⟩
    refine ⟨i, ⟨d, hd, htype, hnames.name⟩, memberAt?_eq_some.2 ⟨d, hd, hid, hnames.params⟩, ?_⟩
    rintro j ⟨e, he, hetype, hename⟩ hlt
    cases hmember : ix.memberAt? t j with
    | none => rfl
    | some m' =>
      obtain ⟨e', he', -, hparams⟩ := memberAt?_eq_some.1 hmember
      obtain rfl : e = e' := Option.some.inj (he.symm.trans he')
      exact absurd (hleast j e he hetype ⟨hename, hparams⟩) (Nat.not_le_of_lt hlt)

theorem not_names_of_head?_membersNamed {d : IndexedMethod} (hd : d ∈ ix.methods)
    (h : (ix.membersNamed t d.decl.type).head? = none) : ¬t.Names d := by
  intro hnames
  obtain ⟨i, hi⟩ := Array.getElem?_of_mem hd
  rw [head?_membersNamed, List.findSome?_eq_none_iff] at h
  have hmember : i ∈ ix.members d.decl.type t.name :=
    mem_members.2 ⟨d, hi, rfl, hnames.name⟩
  have hnone := h i hmember
  rw [memberAt?_eq_some.2 ⟨d, hi, rfl, hnames.params⟩] at hnone
  cases hnone

theorem mem_typesNamed : type ∈ ix.typesNamed t ↔
    ∃ owner, ix.types[type]? = some owner ∧ owner.GoesBy t.type := by
  simp only [typesNamed, List.mem_filter, List.mem_range, Option.any_eq_true,
    TargetName.fitsType_iff]
  constructor
  · exact fun h => h.2
  · rintro ⟨owner, howner, hgoes⟩
    exact ⟨(Array.getElem?_eq_some_iff.1 howner).1, owner, howner, hgoes⟩

theorem methodNamed_eq_ok : ix.methodNamed t = .ok m ↔
    (ix.typesNamed t).findSome? (fun type => (ix.membersNamed t type).head?) = some m := by
  rw [← List.head?_flatMap, methodNamed]
  split
  next hnone => simp [hnone]
  next =>
    split
    next hfirst => simp [hfirst]
    next hempty => simp [hempty]

/-- **The first method that a name means**, over all types. -/
theorem methodNamed_eq_ok_iff :
    ix.methodNamed t = .ok m ↔ ∃ d, ix.IsFirst (ix.IsNamed t) d ∧ d.decl.id = m := by
  have hsorted : (ix.typesNamed t).Pairwise (· < ·) := List.pairwise_lt_range.filter _
  rw [methodNamed_eq_ok, findSome?_eq_some_iff_of_pairwise hsorted]
  constructor
  · rintro ⟨type, htype, hhead, hearlier⟩
    obtain ⟨i, d, hd, rfl, hnames, hid, hleast⟩ := head?_membersNamed_eq_some.1 hhead
    refine ⟨d, ⟨i, hd, ⟨mem_typesNamed.1 htype, hnames⟩, fun j e he hnamed => ?_⟩, hid⟩
    rcases Nat.lt_trichotomy d.decl.type e.decl.type with hlt | heq | hgt
    · exact .inl hlt
    · exact .inr ⟨heq, hleast j e he heq.symm hnamed.2⟩
    · -- a type that comes before offers none
      have hnone := hearlier _ (mem_typesNamed.2 hnamed.1) hgt
      exact absurd hnamed.2 (not_names_of_head?_membersNamed (Array.mem_of_getElem? he) hnone)
  · rintro ⟨d, ⟨i, hd, hnamed, hfirst⟩, hid⟩
    refine ⟨d.decl.type, mem_typesNamed.2 hnamed.1, head?_membersNamed_eq_some.2
      ⟨i, d, hd, rfl, hnamed.2, hid, fun j e he hetype hnames => ?_⟩, fun type htype hlt => ?_⟩
    · have he' := hfirst j e he ⟨hetype ▸ hnamed.1, hnames⟩
      omega
    · cases hhead : (ix.membersNamed t type).head? with
      | none => rfl
      | some m' =>
        obtain ⟨j, e, he, rfl, hnames, -⟩ := head?_membersNamed_eq_some.1 hhead
        have he' := hfirst j e he ⟨mem_typesNamed.1 htype, hnames⟩
        omega

theorem exists_methodNamed :
    (∃ m, ix.methodNamed t = .ok m) ↔ ∃ d ∈ ix.methods, ix.IsNamed t d := by
  constructor
  · rintro ⟨m, hm⟩
    obtain ⟨d, ⟨i, hd, hnamed, -⟩, -⟩ := methodNamed_eq_ok_iff.1 hm
    exact ⟨d, Array.mem_of_getElem? hd, hnamed⟩
  · rintro ⟨d, hd, howner, hnames⟩
    cases hfirst : (ix.typesNamed t).findSome? fun type => (ix.membersNamed t type).head? with
    | some m => exact ⟨m, methodNamed_eq_ok.2 hfirst⟩
    | none =>
      have hnone := List.findSome?_eq_none_iff.1 hfirst _ (mem_typesNamed.2 howner)
      exact absurd hnames (not_names_of_head?_membersNamed hd hnone)

/-! ## The method that a text names -/

theorem findTarget_eq_ok {s : String} :
    ix.findTarget s = .ok m ↔ ∃ t, TargetName.parse s = .ok t ∧ ix.methodNamed t = .ok m := by
  rw [findTarget]
  cases hparse : TargetName.parse s with
  | error e => simp [Except.bind]
  | ok t =>
    cases hnamed : ix.methodNamed t with
    | error e => simp [Except.bind, hnamed]
    | ok m' => simp [Except.bind, hnamed]

/-- **A method fits a name**: its type goes by the name's type, it has the name without the blanks
at its ends, and its parameters are those that the list gives, where there is one. -/
def Means (ix : Index) (type name : String) (list : Option String) (d : IndexedMethod) : Prop :=
  (∃ owner, ix.types[d.decl.type]? = some owner ∧ owner.GoesBy type) ∧
    d.decl.id.name = trim name ∧
    ∀ inner, list = some inner → TargetName.Lists inner d.decl.id.params

theorem isNamed_eq_means (ix : Index) (type name : String) (list : Option String) :
    ix.IsNamed ⟨type, trim name, TargetName.paramsOf list⟩ = ix.Means type name list := by
  funext d
  have hparams : (∀ params, TargetName.paramsOf list = some params → d.decl.id.params = params) ↔
      ∀ inner, list = some inner → TargetName.Lists inner d.decl.id.params := by
    cases list with
    | none => simp [TargetName.paramsOf]
    | some inner => simp [TargetName.paramsOf, ← TargetName.parseParams_eq_iff, eq_comm]
  rw [IsNamed, Means, ← hparams]
  apply propext
  constructor
  · rintro ⟨howner, hnames⟩
    exact ⟨howner, hnames.name, hnames.params⟩
  · rintro ⟨howner, hname, hgiven⟩
    exact ⟨howner, hname, hgiven⟩

/-- **A text finds the first method that it means**, in every index. It finds a method exactly where
it has the form of a name and the method is the first, by the order of types and then of methods, of
those that fit; and it fails exactly where it has not the form or no method of the index fits. -/
theorem findTarget_first (ix : Index) (s : String) :
    (∀ m, ix.findTarget s = .ok m ↔
      ∃ type name list, TargetName.IsTarget s type name list ∧
        ∃ d, ix.IsFirst (ix.Means type name list) d ∧ d.decl.id = m) ∧
    ((∃ e, ix.findTarget s = .error e) ↔
      ¬∃ type name list, TargetName.IsTarget s type name list ∧
        ∃ d ∈ ix.methods, ix.Means type name list d) := by
  have found : ∀ m, ix.findTarget s = .ok m ↔
      ∃ type name list, TargetName.IsTarget s type name list ∧
        ∃ d, ix.IsFirst (ix.Means type name list) d ∧ d.decl.id = m := by
    intro m
    rw [findTarget_eq_ok, TargetName.exists_parse_iff]
    simp only [methodNamed_eq_ok_iff, isNamed_eq_means]
  have some_found : (∃ m, ix.findTarget s = .ok m) ↔
      ∃ type name list, TargetName.IsTarget s type name list ∧
        ∃ d ∈ ix.methods, ix.Means type name list d := by
    simp only [findTarget_eq_ok]
    rw [exists_comm]
    simp only [exists_and_left]
    rw [TargetName.exists_parse_iff]
    simp only [exists_methodNamed, isNamed_eq_means]
  refine ⟨found, ?_⟩
  rw [← some_found]
  cases ix.findTarget s with
  | error e => simp
  | ok m => simp

end Index
end CallOrigins.Java
