import CallOrigins.Proofs.Java.Merging
import CallOrigins.Proofs.Java.References
import Mathlib.Logic.Equiv.Basic

/-!
# Renumbering an index

Two indexes that have the same files, types and methods under other numbers (`Renumbering`). Entries
that are looked up by name and found first have to stay first: types of one name keep their order,
and so do the methods of one file.

**The law**: every question to an index has the same answer in the other one, up to the numbers.
This is shown question by question, from the look-up of a name over resolution and hierarchies to
the binding of a call. Where an answer is a list of methods, its order is left open, since methods
of different files may change places.
-/

namespace CallOrigins

/-! ## Arrays in another order -/

section Arrays

variable {α κ : Type} {σ τ : Equiv.Perm Nat} {g h : α → α} {as as' as'' : Array α}

/-- The second array has the entries of the first one, changed by `g`, in the places that `σ`
tells. -/
structure Moves (σ : Equiv.Perm Nat) (g : α → α) (as as' : Array α) : Prop where
  get : ∀ i, as'[σ i]? = (as[i]?).map g
  fixed : ∀ i, as.size ≤ i → σ i = i

/-- Entries with one key keep their order. -/
def KeepsOrder (σ : Equiv.Perm Nat) (key : α → κ) (as : Array α) : Prop :=
  ∀ i j x y, as[i]? = some x → as[j]? = some y → key x = key y → i < j → σ i < σ j

namespace Moves

theorem lt_size (m : Moves σ g as as') (i : Nat) : σ i < as.size ↔ i < as.size := by
  constructor
  · intro hi
    by_contra hle
    rw [m.fixed i (Nat.le_of_not_lt hle)] at hi
    exact hle hi
  · intro hi
    by_contra hle
    have hfixed := m.fixed (σ i) (Nat.le_of_not_lt hle)
    rw [σ.injective hfixed] at hle
    exact hle hi

theorem size_eq (m : Moves σ g as as') : as'.size = as.size := by
  have hlt : ∀ j, j < as'.size ↔ j < as.size := by
    intro j
    obtain ⟨i, rfl⟩ := σ.surjective j
    rw [m.lt_size, ← Nat.not_le, ← Nat.not_le, ← Array.getElem?_eq_none_iff,
      ← Array.getElem?_eq_none_iff, m.get, Option.map_eq_none_iff]
  exact Nat.le_antisymm (Nat.le_of_not_lt fun h => Nat.lt_irrefl _ ((hlt _).1 h))
    (Nat.le_of_not_lt fun h => Nat.lt_irrefl _ ((hlt _).2 h))

/-- Every entry of the second array is one of the first. -/
theorem exists_of_get (m : Moves σ g as as') {j : Nat} {y : α} (hy : as'[j]? = some y) :
    ∃ i x, σ i = j ∧ as[i]? = some x ∧ g x = y := by
  have hget := m.get (σ.symm j)
  rw [Equiv.apply_symm_apply, hy] at hget
  obtain ⟨x, hx, hg⟩ := Option.map_eq_some_iff.1 hget.symm
  exact ⟨σ.symm j, x, Equiv.apply_symm_apply σ j, hx, hg⟩

end Moves

end Arrays

/-! ## Breadth-first order -/

section BreadthFirst

variable {σ : Equiv.Perm Nat} {next next' : Nat → List Nat}

theorem breadthFirstFrom_map (h : ∀ x, next' (σ x) = (next x).map σ) (fuel : Nat)
    (met queue : List Nat) :
    breadthFirstFrom next' fuel (met.map σ) (queue.map σ) =
      (breadthFirstFrom next fuel met queue).map σ := by
  induction fuel generalizing met queue with
  | zero => rfl
  | succ fuel ih =>
    cases queue with
    | nil => rfl
    | cons x queue =>
      have hmem : σ x ∈ met.map σ ↔ x ∈ met := List.mem_map_of_injective σ.injective
      rw [List.map_cons, breadthFirstFrom, breadthFirstFrom]
      by_cases hx : x ∈ met
      · rw [if_pos (hmem.2 hx), if_pos hx, ih]
      · have hnext := ih (x :: met) (queue ++ next x)
        rw [List.map_cons, List.map_append, ← h] at hnext
        rw [if_neg (fun hx' => hx (hmem.1 hx')), if_neg hx, hnext, List.map_cons]

/-- The numbers below a bound are the same numbers in another order. -/
theorem range_map_perm {size : Nat} (h : ∀ x, σ x < size ↔ x < size) :
    ((List.range size).map σ).Perm (List.range size) := by
  refine (List.perm_ext_iff_of_nodup (List.nodup_range.map σ.injective) List.nodup_range).2 ?_
  intro x
  rw [List.mem_map, List.mem_range]
  constructor
  · rintro ⟨y, hy, rfl⟩
    exact (h y).2 (List.mem_range.1 hy)
  · intro hx
    refine ⟨σ.symm x, List.mem_range.2 ((h _).1 ?_), σ.apply_symm_apply x⟩
    rwa [σ.apply_symm_apply]

theorem breadthFirst_map {size : Nat} (h : ∀ x, next' (σ x) = (next x).map σ)
    (hsize : ∀ x, σ x < size ↔ x < size) (starts : List Nat) :
    breadthFirst size next' (starts.map σ) = (breadthFirst size next starts).map σ := by
  have hedges : ((List.range size).map (fun x => (next' x).length)).sum =
      ((List.range size).map (fun x => (next x).length)).sum := by
    rw [← ((range_map_perm hsize).map (fun x => (next' x).length)).sum_nat, List.map_map]
    congr 2
    funext x
    simp [h]
  have hsum : ∀ l : List Nat, l.foldr (· + ·) 0 = l.sum := fun l => rfl
  rw [breadthFirst, breadthFirst, hsum, hsum, hedges, List.length_map]
  exact breadthFirstFrom_map h _ [] starts

end BreadthFirst

namespace Java

/-- A type under other numbers. -/
def IndexedType.renumber (file type : Nat → Nat) (t : IndexedType) : IndexedType where
  decl := { t.decl with outer := t.decl.outer.map type }
  file := file t.file
  supers := t.supers.map type

/-- A method under other numbers. -/
def IndexedMethod.renumber (file type : Nat → Nat) (d : IndexedMethod) : IndexedMethod where
  decl := { d.decl with type := type d.decl.type }
  file := file d.file

namespace Index

/-- **A renumbering** of one index gives the other. -/
structure Renumbering (ix ix' : Index) where
  file : Equiv.Perm Nat
  type : Equiv.Perm Nat
  method : Equiv.Perm Nat
  files : Moves file id ix.files ix'.files
  types : Moves type (IndexedType.renumber file type) ix.types ix'.types
  methods : Moves method (IndexedMethod.renumber file type) ix.methods ix'.methods
  typesOrdered : KeepsOrder type (fun t => t.decl.name) ix.types
  methodsOrdered : KeepsOrder method (fun d => d.file) ix.methods

variable {ix ix' : Index}

/-- The types around a type, one step at a time. -/
theorem WellFormed.enclosingTypes_eq (wf : ix.WellFormed) (type : Nat) :
    ix.enclosingTypes type = type ::
      match ix.types[type]?.bind (fun t => t.decl.outer) with
      | some outer => ix.enclosingTypes outer
      | none => [] := by
  have henough : ∀ type fuel, type < fuel → ix.outward fuel type = ix.outward (type + 1) type := by
    intro type
    induction type using Nat.strongRecOn with
    | ind type ih =>
      intro fuel hfuel
      obtain ⟨fuel, rfl⟩ :=
        Nat.exists_eq_add_one_of_ne_zero (Nat.ne_of_gt (Nat.zero_lt_of_lt hfuel))
      rw [outward, outward]
      cases hout : ix.types[type]?.bind (fun t => t.decl.outer) with
      | none => rfl
      | some outer =>
        obtain ⟨t, ht, houter⟩ := Option.bind_eq_some_iff.1 hout
        have hlt := wf.nested type t outer ht houter
        dsimp only
        rw [ih outer hlt fuel (by omega), ih outer hlt type hlt]
  rw [enclosingTypes, outward]
  cases hout : ix.types[type]?.bind (fun t => t.decl.outer) with
  | none => rfl
  | some outer =>
    obtain ⟨t, ht, houter⟩ := Option.bind_eq_some_iff.1 hout
    dsimp only
    rw [henough outer type (wf.nested type t outer ht houter), enclosingTypes]

namespace Renumbering

variable (R : Renumbering ix ix')

/-! ## Types -/

theorem typeNamed? (name : String) :
    ix'.typeNamed? name = (ix.typeNamed? name).map R.type := by
  cases hfound : ix.typeNamed? name with
  | none =>
    rw [typeNamed?_eq_none_iff] at hfound
    refine typeNamed?_eq_none_iff.2 fun j t' ht' hname => ?_
    obtain ⟨i, t, -, ht, rfl⟩ := R.types.exists_of_get ht'
    exact hfound i t ht hname
  | some i =>
    obtain ⟨⟨t, ht, hname⟩, hfirst⟩ := typeNamed?_eq_some_iff.1 hfound
    refine typeNamed?_eq_some_iff.2 ⟨⟨t.renumber R.file R.type, ?_, hname⟩, ?_⟩
    · rw [R.types.get, ht]
      rfl
    · intro j t' ht' hname'
      obtain ⟨j, u, rfl, hu, rfl⟩ := R.types.exists_of_get ht'
      rcases Nat.lt_or_eq_of_le (hfirst j u hu hname') with hlt | rfl
      · exact Nat.le_of_lt (R.typesOrdered i j t u ht hu (hname.trans hname'.symm) hlt)
      · exact Nat.le_refl _

theorem memberType? (type : Nat) (simple : String) :
    ix'.memberType? (R.type type) simple = (ix.memberType? type simple).map R.type := by
  rw [Index.memberType?, Index.memberType?, R.types.get]
  cases ix.types[type]? with
  | none => rfl
  | some t => exact R.typeNamed? _

theorem isCalled (type : Nat) (simple : String) :
    ix'.isCalled (R.type type) simple = ix.isCalled type simple := by
  rw [Index.isCalled, Index.isCalled, R.types.get]
  cases ix.types[type]? <;> rfl

theorem supersOf (type : Nat) : ix'.supersOf (R.type type) = (ix.supersOf type).map R.type := by
  rw [Index.supersOf, Index.supersOf, R.types.get]
  cases ix.types[type]? <;> rfl

theorem hierarchy (starts : List Nat) :
    ix'.hierarchy (starts.map R.type) = (ix.hierarchy starts).map R.type := by
  rw [Index.hierarchy, Index.hierarchy, R.types.size_eq]
  exact breadthFirst_map R.supersOf R.types.lt_size starts

theorem inheritedType? (type : Nat) (simple : String) :
    ix'.inheritedType? (R.type type) simple = (ix.inheritedType? type simple).map R.type := by
  rw [Index.inheritedType?, Index.inheritedType?, R.supersOf, R.hierarchy, List.findSome?_map,
    List.map_findSome?]
  simp only [Function.comp_def, R.memberType?]

theorem typeInScope? (simple : String) (scope : Nat) :
    ix'.typeInScope? simple (R.type scope) = (ix.typeInScope? simple scope).map R.type := by
  rw [Index.typeInScope?, Index.typeInScope?, R.isCalled, R.memberType?, R.inheritedType?]
  cases ix.isCalled scope simple with
  | true => rfl
  | false => cases ix.memberType? scope simple <;> rfl

theorem typeInFile? (o : Outline) (simple : String) :
    ix'.typeInFile? o simple = (ix.typeInFile? o simple).map R.type := by
  unfold Index.typeInFile?
  cases o.imports.find? (fun i => Text.endsWith ('.' :: simple.toList) i.toList) with
  | some i => exact R.typeNamed? i
  | none =>
    dsimp only
    generalize (if o.package.isEmpty then simple else o.package ++ "." ++ simple) = inPackage
    rw [R.typeNamed? inPackage]
    cases ix.typeNamed? inPackage with
    | some t => rfl
    | none =>
      dsimp only [Option.map_none]
      rw [List.map_findSome?]
      simp only [Function.comp_def, R.typeNamed?]

section Resolution

variable (wf : ix.WellFormed) (wf' : ix'.WellFormed)

include wf wf'

theorem enclosingTypes (type : Nat) :
    ix'.enclosingTypes (R.type type) = (ix.enclosingTypes type).map R.type := by
  induction type using Nat.strongRecOn with
  | ind type ih =>
    rw [wf.enclosingTypes_eq, wf'.enclosingTypes_eq, R.types.get]
    cases ht : ix.types[type]? with
    | none => rfl
    | some t =>
      cases houter : t.decl.outer with
      | none => simp [IndexedType.renumber, houter]
      | some outer =>
        have hout := ih outer (wf.nested type t outer ht houter)
        simp [IndexedType.renumber, houter, hout]

theorem resolveSimple? (simple : String) (file : Nat) (scope : Option Nat) :
    ix'.resolveSimple? simple (R.file file) (scope.map R.type) =
      (ix.resolveSimple? simple file scope).map R.type := by
  have hscopes : (ix'.scopesAround (scope.map R.type)).findSome? (ix'.typeInScope? simple) =
      ((ix.scopesAround scope).findSome? (ix.typeInScope? simple)).map R.type := by
    cases scope with
    | none => rfl
    | some s =>
      rw [Option.map_some, scopesAround, scopesAround, R.enclosingTypes wf wf', List.findSome?_map,
        List.map_findSome?]
      simp only [Function.comp_def, R.typeInScope?]
  rw [resolveSimple?_eq, resolveSimple?_eq, hscopes, R.files.get, Option.map_or, Option.map_id,
    Option.map_bind]
  simp only [id_eq, R.typeInFile?]
  rfl

theorem resolveParts? (head : String) (rest : Option String) (file : Nat) (scope : Option Nat) :
    ix'.resolveParts? head rest (R.file file) (scope.map R.type) =
      (ix.resolveParts? head rest file scope).map R.type := by
  rw [Index.resolveParts?, Index.resolveParts?, R.resolveSimple? wf wf']
  cases ix.resolveSimple? head file scope with
  | none => rfl
  | some t =>
    cases rest with
    | none => rfl
    | some r => exact R.memberType? t r

/-- **A type name means the same.** -/
theorem resolveType? (name : String) (file : Nat) (scope : Option Nat) :
    ix'.resolveType? name (R.file file) (scope.map R.type) =
      (ix.resolveType? name file scope).map R.type := by
  rw [Index.resolveType?, Index.resolveType?]
  cases Text.cutFirst '.' name.toList with
  | none => exact R.resolveParts? wf wf' name none file scope
  | some parts =>
    dsimp only
    rw [R.typeNamed?, R.resolveParts? wf wf']
    cases ix.typeNamed? name <;> rfl

theorem resolvedSupers (t : IndexedType) :
    ix'.resolvedSupers (t.renumber R.file R.type) = (ix.resolvedSupers t).map R.type := by
  rw [Index.resolvedSupers, Index.resolvedSupers, List.map_filterMap]
  refine List.filterMap_congr fun s _ => ?_
  exact R.resolveType? wf wf' s t.file t.decl.outer

theorem superclass? (type : Nat) :
    ix'.superclass? (R.type type) = (ix.superclass? type).map R.type := by
  have hinterface : ∀ u, ix'.isInterface (R.type u) = ix.isInterface u := by
    intro u
    rw [Index.isInterface, Index.isInterface, R.types.get]
    cases ix.types[u]? <;> rfl
  rw [Index.superclass?, Index.superclass?, R.types.get]
  cases ix.types[type]? with
  | none => rfl
  | some t =>
    rw [Option.map_some]
    dsimp only [IndexedType.renumber]
    by_cases hkind : t.decl.kind = .interfaceType
    · rw [if_pos hkind, if_pos hkind]
      rfl
    · rw [if_neg hkind, if_neg hkind]
      cases t.decl.supertypes with
      | nil => rfl
      | cons s rest =>
        dsimp only
        rw [R.resolveType? wf wf']
        cases ix.resolveType? s t.file t.decl.outer with
        | none => rfl
        | some u =>
          dsimp only [Option.map_some]
          rw [hinterface]
          cases ix.isInterface u <;> rfl

/-- Linking the supertypes keeps a renumbering. -/
def linkSupers : Renumbering ix.linkSupers ix'.linkSupers :=
  { R with
    types :=
      { get := fun i => by
          rw [Index.linkSupers, Index.linkSupers, types_withSupers, types_withSupers,
            Array.getElem?_map, Array.getElem?_map, R.types.get]
          cases ix.types[i]? with
          | none => rfl
          | some t =>
            rw [Option.map_some, Option.map_some, Option.map_some, R.resolvedSupers wf wf']
            rfl
        fixed := fun i hi => R.types.fixed i (by
          rwa [Index.linkSupers, types_withSupers, Array.size_map] at hi) }
    typesOrdered := by
      intro i j t u ht hu hname
      rw [Index.linkSupers, types_withSupers, Array.getElem?_map] at ht hu
      obtain ⟨t₀, ht₀, rfl⟩ := Option.map_eq_some_iff.1 ht
      obtain ⟨u₀, hu₀, rfl⟩ := Option.map_eq_some_iff.1 hu
      exact R.typesOrdered i j t₀ u₀ ht₀ hu₀ hname }

end Resolution

/-! ## Methods -/

theorem methodNumber? (wf : ix.WellFormed) (wf' : ix'.WellFormed) (m : MethodId) :
    ix'.methodNumber? m = (ix.methodNumber? m).map R.method := by
  cases hfound : ix.methodNumber? m with
  | none =>
    refine methodNumber?_eq_none_iff.2 fun d' hd' => ?_
    obtain ⟨j, hj⟩ := Array.mem_iff_getElem?.1 hd'
    obtain ⟨i, d, -, hd, rfl⟩ := R.methods.exists_of_get hj
    exact methodNumber?_eq_none_iff.1 hfound d (Array.mem_of_getElem? hd)
  | some i =>
    obtain ⟨d, hd, hid⟩ := wf.methodNumber?_eq_some_iff.1 hfound
    refine wf'.methodNumber?_eq_some_iff.2 ⟨d.renumber R.file R.type, ?_, hid⟩
    rw [R.methods.get, hd]
    rfl

theorem method? (wf : ix.WellFormed) (wf' : ix'.WellFormed) (m : MethodId) :
    ix'.method? m = (ix.method? m).map (IndexedMethod.renumber R.file R.type) := by
  rw [Index.method?, Index.method?, R.methodNumber? wf wf']
  cases ix.methodNumber? m with
  | none => rfl
  | some i => exact R.methods.get i

theorem fileOf? (d : IndexedMethod) :
    ix'.fileOf? (d.renumber R.file R.type) = ix.fileOf? d := by
  rw [Index.fileOf?, Index.fileOf?]
  exact (R.files.get d.file).trans Option.map_id'

/-- The methods that satisfy a condition are the same, in some order. -/
theorem methodsWhere {p p' : IndexedMethod → Bool}
    (h : ∀ d, p' (d.renumber R.file R.type) = p d) :
    (ix'.methodsWhere p').Perm ((ix.methodsWhere p).map R.method) := by
  have hnodup (ix : Index) (p : IndexedMethod → Bool) : (ix.methodsWhere p).Nodup :=
    (pairwise_methodsWhere ix p).imp Nat.ne_of_lt
  refine (List.perm_ext_iff_of_nodup (hnodup ix' p')
    ((hnodup ix p).map R.method.injective)).2 fun j => ?_
  rw [List.mem_map]
  constructor
  · intro hj
    obtain ⟨d', hd', hp'⟩ := mem_methodsWhere.1 hj
    obtain ⟨i, d, rfl, hd, rfl⟩ := R.methods.exists_of_get hd'
    exact ⟨i, mem_methodsWhere.2 ⟨d, hd, (h d).symm.trans hp'⟩, rfl⟩
  · rintro ⟨i, hi, rfl⟩
    obtain ⟨d, hd, hp⟩ := mem_methodsWhere.1 hi
    refine mem_methodsWhere.2 ⟨d.renumber R.file R.type, ?_, (h d).trans hp⟩
    rw [R.methods.get, hd]
    rfl

theorem accepts (arity : Option Nat) (method : Nat) :
    ix'.accepts arity (R.method method) = ix.accepts arity method := by
  cases arity with
  | none => rfl
  | some n =>
    unfold Index.accepts
    rw [R.methods.get]
    cases ix.methods[method]? <;> rfl

/-- Those among methods that accept a number of arguments are the same. -/
theorem filter_accepts {ms ms' : List Nat} (h : ms'.Perm (ms.map R.method)) (arity : Option Nat) :
    (ms'.filter (ix'.accepts arity)).Perm ((ms.filter (ix.accepts arity)).map R.method) := by
  refine (h.filter _).trans (List.Perm.of_eq ?_)
  rw [List.filter_map]
  congr 2
  exact funext (R.accepts arity)

theorem declaredMethods (type : Nat) (name : String) (arity : Option Nat) :
    (ix'.declaredMethods (R.type type) name arity).Perm
      ((ix.declaredMethods type name arity).map R.method) := by
  rw [Index.declaredMethods, Index.declaredMethods, members_eq, members_eq]
  refine R.filter_accepts (R.methodsWhere fun d => decide_eq_decide.2 ?_) arity
  rw [Prod.mk.injEq, Prod.mk.injEq]
  exact and_congr_left fun _ => R.type.injective.eq_iff

/-- Of lists that have the same methods, the first one that is not empty. -/
theorem find?_nonempty {F F' : Nat → List Nat} (h : ∀ t, (F' (R.type t)).Perm ((F t).map R.method))
    (types : List Nat) :
    ((((types.map R.type).map F').find? (fun ms => !ms.isEmpty)) = none ∧
      (types.map F).find? (fun ms => !ms.isEmpty) = none) ∨
    ∃ ms ms', (types.map F).find? (fun ms => !ms.isEmpty) = some ms ∧
      ((types.map R.type).map F').find? (fun ms => !ms.isEmpty) = some ms' ∧
      ms'.Perm (ms.map R.method) := by
  induction types with
  | nil => exact .inl ⟨rfl, rfl⟩
  | cons t types ih =>
    have hempty : (F' (R.type t)).isEmpty = (F t).isEmpty := by
      rw [(h t).isEmpty_eq, List.isEmpty_map]
    simp only [List.map_cons, List.find?_cons, hempty]
    cases (F t).isEmpty with
    | true => exact ih
    | false => exact .inr ⟨F t, F' (R.type t), rfl, rfl, h t⟩

theorem find?_nonempty_getD {F F' : Nat → List Nat}
    (h : ∀ t, (F' (R.type t)).Perm ((F t).map R.method)) (types : List Nat) :
    ((((types.map R.type).map F').find? (fun ms => !ms.isEmpty)).getD []).Perm
      ((((types.map F).find? (fun ms => !ms.isEmpty)).getD []).map R.method) := by
  rcases R.find?_nonempty h types with ⟨hnone', hnone⟩ | ⟨ms, ms', hms, hms', hperm⟩
  · rw [hnone, hnone']
    exact .nil
  · rw [hms, hms']
    exact hperm

theorem inheritedMethods (starts : List Nat) (name : String) (arity : Option Nat) :
    (ix'.inheritedMethods (starts.map R.type) name arity).Perm
      ((ix.inheritedMethods starts name arity).map R.method) := by
  rw [Index.inheritedMethods, Index.inheritedMethods, R.hierarchy]
  exact R.find?_nonempty_getD (fun t => R.declaredMethods t name arity) _

theorem inheritedMethods_singleton (name : String) (arity : Option Nat) (t : Nat) :
    (ix'.inheritedMethods [R.type t] name arity).Perm
      ((ix.inheritedMethods [t] name arity).map R.method) :=
  R.inheritedMethods [t] name arity

/-! ## Binding -/

/-- The accuracy depends on which candidates there are, not on their order. -/
theorem accuracyOf {candidates candidates' : List Nat}
    (h : candidates'.Perm (candidates.map R.method)) (target : Nat) :
    Index.accuracyOf candidates' (R.method target) = Index.accuracyOf candidates target := by
  have hone : candidates' = [R.method target] ↔ candidates = [target] := by
    constructor
    · rintro rfl
      have hmap := List.perm_singleton.1 h.symm
      obtain ⟨only, rfl, honly⟩ := List.map_eq_singleton_iff.1 hmap
      rw [R.method.injective honly]
    · rintro rfl
      exact List.perm_singleton.1 h
  have hmem : R.method target ∈ candidates' ↔ target ∈ candidates := by
    rw [h.mem_iff, List.mem_map_of_injective R.method.injective]
  simp only [Index.accuracyOf, hone, hmem]

section Binding

variable (wf : ix.WellFormed) (wf' : ix'.WellFormed) (caller : IndexedMethod) (call : Call)

include wf wf'

theorem bindImplicit (name : String) (arity : Option Nat) :
    (ix'.bindImplicit (caller.renumber R.file R.type) name arity).Perm
      ((ix.bindImplicit caller name arity).map R.method) := by
  unfold Index.bindImplicit
  dsimp only [IndexedMethod.renumber]
  rw [R.enclosingTypes wf wf', R.files.get, Option.map_id]
  have hsingleton := R.inheritedMethods_singleton name arity
  rcases @find?_nonempty _ _ R (fun t => ix.inheritedMethods [t] name arity)
    (fun t => ix'.inheritedMethods [t] name arity) hsingleton (ix.enclosingTypes caller.decl.type)
    with ⟨hnone', hnone⟩ | ⟨ms, ms', hms, hms', hperm⟩
  · rw [hnone, hnone']
    dsimp only [id_eq]
    cases ix.files[caller.file]? with
    | none => exact .nil
    | some f =>
      have htypes : ∀ imports : List (String × String),
          imports.filterMap (fun i => ix'.resolveType? i.1 (R.file caller.file) none) =
            (imports.filterMap (fun i => ix.resolveType? i.1 caller.file none)).map R.type := by
        intro imports
        rw [List.map_filterMap]
        exact List.filterMap_congr fun i _ => R.resolveType? wf wf' i.1 caller.file none
      refine (List.Perm.of_eq ?_).trans (@find?_nonempty_getD _ _ R
        (fun t => ix.inheritedMethods [t] name arity)
        (fun t => ix'.inheritedMethods [t] name arity) hsingleton _)
      exact congrArg (fun types => ((types.map fun t => ix'.inheritedMethods [t] name arity).find?
        fun ms => !ms.isEmpty).getD []) (htypes _)
  · rw [hms, hms']
    exact hperm

/-- **A call can mean the same methods.** -/
theorem bindCall :
    (ix'.bindCall (caller.renumber R.file R.type) call).Perm
      ((ix.bindCall caller call).map R.method) := by
  unfold Index.bindCall
  cases call.receiver with
  | implicit => exact R.bindImplicit wf wf' caller call.name call.argCount
  | superclass =>
    dsimp only [IndexedMethod.renumber]
    rw [R.superclass? wf wf']
    cases ix.superclass? caller.decl.type with
    | none => exact .nil
    | some t => exact R.inheritedMethods_singleton _ _ t
  | typed name =>
    have htype := R.resolveType? wf wf' name caller.file (some caller.decl.type)
    rw [Option.map_some] at htype
    dsimp only [IndexedMethod.renumber]
    rw [htype]
    cases ix.resolveType? name caller.file (some caller.decl.type) with
    | none => exact .nil
    | some t => exact R.inheritedMethods_singleton _ _ t
  | unknown =>
    dsimp only
    rw [methodsNamed_eq, methodsNamed_eq]
    exact R.filter_accepts (R.methodsWhere fun d => rfl) call.argCount

theorem bindMethod (target : Nat) :
    ix'.bindMethod (caller.renumber R.file R.type) call (R.method target) =
      ix.bindMethod caller call target := by
  unfold Index.bindMethod
  split
  · exact R.accuracyOf (R.bindCall wf wf' caller call) target
  · exact R.accuracyOf (R.bindCall wf wf' caller call) target
  · rfl

theorem createdType? :
    ix'.createdType? (caller.renumber R.file R.type) call =
      (ix.createdType? caller call).map R.type := by
  have hresolve : ∀ name,
      ix'.resolveType? name (R.file caller.file) (some (R.type caller.decl.type)) =
        (ix.resolveType? name caller.file (some caller.decl.type)).map R.type :=
    fun name => R.resolveType? wf wf' name caller.file (some caller.decl.type)
  unfold Index.createdType?
  split
  · exact hresolve _
  · split
    · exact hresolve _
    · rfl
  · rfl
  · exact R.superclass? wf wf' caller.decl.type
  · rfl

theorem bindConstructor (target : Nat) (constructor : IndexedMethod) :
    ix'.bindConstructor (caller.renumber R.file R.type) call (R.method target)
        (constructor.renumber R.file R.type) =
      ix.bindConstructor caller call target constructor := by
  rw [Index.bindConstructor, Index.bindConstructor, R.createdType? wf wf']
  cases ix.createdType? caller call with
  | none => rfl
  | some t =>
    change (if R.type t = R.type constructor.decl.type then _ else _) = _
    simp only [R.type.injective.eq_iff]
    split
    · exact R.accuracyOf (R.declaredMethods t _ _) target
    · rfl

/-- **A call is the same reference to a method.** -/
theorem bind? (target : Nat) (method : IndexedMethod) :
    ix'.bind? (R.method target) (method.renumber R.file R.type) (caller.renumber R.file R.type)
        call = ix.bind? target method caller call := by
  rw [Index.bind?, Index.bind?, R.bindConstructor wf wf', R.bindMethod wf wf']
  rfl

end Binding

end Renumbering

end Index
end Java
end CallOrigins
