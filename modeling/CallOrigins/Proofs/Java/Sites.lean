import CallOrigins.Proofs.Java.Visibility
import Mathlib.Data.List.Forall2

/-!
# Where the methods of an outline are declared

A walk over a tree finds methods one after the other, and each of them is declared by a node of the
tree. Here the walk is followed through the addresses of the tree: which types are around the node
at an address (`Node.typesAround`), at which addresses the methods are declared (`MethodAt`), and how
two of these addresses lie to each other (`Node.DeclaredBefore`).

**The law** (`Outline.exists_sites`): the methods of an outline are declared at addresses that
ascend. A method that is declared inside of another one stands in the body of a type that is declared
in the body of the other. And the calls of each method are those of its own body.
-/

namespace CallOrigins.Java

/-! ## The types around an address -/

/-- The fields and the type parameters of a type. -/
abbrev TypeScope.Known := List (String × String) × List String

/-- What is known of a type inside of it, its number aside. -/
def TypeScope.known (scope : TypeScope) : Known :=
  (scope.fields, scope.typeParameters)

/-- **How a node stands in a file**: as the whole, as the body of a type, as a member of a type, or
as a piece of code. -/
inductive Standing where
  | whole | typeBody | member | code
  deriving DecidableEq

namespace Node

/-- The names of the type parameters that a declaration writes. -/
def ownTypeParameters (n : Node) : List String :=
  ((n.child? .typeParameters).map Header.typeParameters).getD []

/-- The fields of the type that a node declares. Those of a record's components come first, the last
component at the front. -/
def typeFields (n : Node) : List (String × String) :=
  let components :=
    if Header.typeKind? n.kind = some .recordType then
      ((n.child? .parameters).map Header.parameters).getD []
    else []
  (components.map Prod.swap).reverse ++ Header.fieldsOfAll (Surroundings.bodyParts n.parts)

end Node

namespace Standing

/-- The type whose body a part of a node is: one that is declared, that of a creation with a class
body, or that of a constant of an enumeration. -/
def opened? (st : Standing) (n part : Node) : Option TypeScope.Known :=
  if st = .whole ∨ st = .typeBody then none
  else if (Header.typeKind? n.kind).isSome then
    if part.role = some .body then some (n.typeFields, n.ownTypeParameters) else none
  else if n.kind = .objectCreationExpression ∧ part.kind = .classBody ∨
      st = .member ∧ n.kind = .enumConstant ∧ part.role = some .body then
    some (Header.fieldsOfAll part.parts, [])
  else none

/-- How a part of a node stands. -/
def next (st : Standing) (n part : Node) : Standing :=
  if (st.opened? n part).isSome then .typeBody
  else
    match st with
    | .typeBody => .member
    | .member => if n.kind = .enumBodyDeclarations then .member else .code
    | _ => .code

/-- How the node at an address stands, where the tree itself stands in a given way. -/
def along (st : Standing) (n : Node) : Address → Standing
  | [] => st
  | i :: a =>
    match n.parts[i]? with
    | none => st
    | some c => (st.next n c).along c a

/-- The types that are opened on the way to an address, the innermost first. -/
def typesAlong (st : Standing) (n : Node) : Address → List TypeScope.Known
  | [] => []
  | i :: a =>
    match n.parts[i]? with
    | none => []
    | some c => (st.next n c).typesAlong c a ++ (st.opened? n c).toList

variable {n m c : Node} {a : Address} {i : Nat}

theorem along_cons (st : Standing) (hc : n.parts[i]? = some c) (a : Address) :
    st.along n (i :: a) = (st.next n c).along c a := by
  rw [along.eq_def]
  simp only [hc]

theorem typesAlong_cons (st : Standing) (hc : n.parts[i]? = some c) (a : Address) :
    st.typesAlong n (i :: a) = (st.next n c).typesAlong c a ++ (st.opened? n c).toList := by
  rw [typesAlong.eq_def]
  simp only [hc]

theorem along_append (st : Standing) (hm : n.at? a = some m) (b : Address) :
    st.along n (a ++ b) = (st.along n a).along m b := by
  induction a generalizing st n with
  | nil =>
    cases hm
    rfl
  | cons i a ih =>
    obtain ⟨c, hc, hm⟩ := Option.bind_eq_some_iff.1 hm
    rw [List.cons_append, along_cons st hc, along_cons st hc]
    exact ih _ hm

theorem typesAlong_append (st : Standing) (hm : n.at? a = some m) (b : Address) :
    st.typesAlong n (a ++ b) = (st.along n a).typesAlong m b ++ st.typesAlong n a := by
  induction a generalizing st n with
  | nil =>
    cases hm
    exact (List.append_nil _).symm
  | cons i a ih =>
    obtain ⟨c, hc, hm⟩ := Option.bind_eq_some_iff.1 hm
    rw [List.cons_append, typesAlong_cons st hc, typesAlong_cons st hc, along_cons st hc, ih _ hm,
      List.append_assoc]

end Standing

/-- How the node at an address of a file stands. -/
def Node.standingAt (root : Node) (a : Address) : Standing :=
  Standing.whole.along root a

/-- **The types around an address of a file**, the innermost first. -/
def Node.typesAround (root : Node) (a : Address) : List TypeScope.Known :=
  Standing.whole.typesAlong root a

/-! ## Surroundings -/

namespace Surroundings

/-- The surroundings are those of a node of the file, at an address where it stands in a given
way. -/
structure StandsAt (s : Surroundings) (line : Nat → Nat) (root : Node) (a : Address) (n : Node)
    (st : Standing) : Prop where
  node : root.at? a = some n
  standing : root.standingAt a = st
  line : s.line = line
  scopes : s.scopes.map TypeScope.known = root.typesAround a

/-- The surroundings inside of one more type. -/
structure Opens (s inner : Surroundings) (known : TypeScope.Known) : Prop where
  line : inner.line = s.line
  scopes : inner.scopes.map TypeScope.known = known :: s.scopes.map TypeScope.known

variable {s inner : Surroundings} {line : Nat → Nat} {root n c : Node} {a : Address} {st : Standing}
  {i : Nat}

theorem StandsAt.typesAround_part (h : s.StandsAt line root a n st) (hc : n.parts[i]? = some c) :
    root.typesAround (a ++ [i]) = (st.opened? n c).toList ++ s.scopes.map TypeScope.known := by
  rw [h.scopes, ← h.standing]
  refine (Standing.typesAlong_append _ h.node [i]).trans ?_
  rw [Standing.typesAlong_cons _ hc]
  rfl

theorem StandsAt.standingAt_part (h : s.StandsAt line root a n st) (hc : n.parts[i]? = some c) :
    root.standingAt (a ++ [i]) = st.next n c := by
  rw [← h.standing]
  refine (Standing.along_append _ h.node [i]).trans ?_
  rw [Standing.along_cons _ hc]
  rfl

/-- A part that is the body of no other type has the same surroundings. -/
theorem StandsAt.part (h : s.StandsAt line root a n st) (hc : n.parts[i]? = some c)
    (hnone : st.opened? n c = none) : s.StandsAt line root (a ++ [i]) c (st.next n c) where
  node := Node.at?_part h.node hc
  standing := h.standingAt_part hc
  line := h.line
  scopes := by rw [h.typesAround_part hc, hnone, Option.toList_none, List.nil_append]

theorem StandsAt.opened (h : s.StandsAt line root a n st) (hc : n.parts[i]? = some c)
    {known : TypeScope.Known} (hopened : st.opened? n c = some known) (hinner : s.Opens inner known) :
    inner.StandsAt line root (a ++ [i]) c .typeBody where
  node := Node.at?_part h.node hc
  standing := by
    rw [h.standingAt_part hc]
    unfold Standing.next
    rw [hopened, Option.isSome_some, if_pos rfl]
  line := hinner.line.trans h.line
  scopes := by
    rw [h.typesAround_part hc, hopened, hinner.scopes, Option.toList_some, List.singleton_append]

/-! ## Entering -/

variable {f f' : Found}

theorem opens_enterType {components : List String}
    (h : s.enterType f n = some (inner, components, f')) :
    s.Opens inner (n.typeFields, n.ownTypeParameters) ∧ f'.methods = f.methods ∧
      (Header.typeKind? n.kind).isSome = true := by
  unfold enterType at h
  split at h
  next kind name hkind hname =>
    cases h
    refine ⟨⟨rfl, ?_⟩, rfl, by rw [hkind]; rfl⟩
    simp only [inside, List.map_cons, TypeScope.known, Node.typeFields, Node.ownTypeParameters,
      hkind, Option.some.injEq]
    rfl
  next => cases h

theorem opens_enterAnonymous {base : String} {number : Nat} {members : List Node}
    (h : s.enterAnonymous f base number members = some (inner, f')) :
    s.Opens inner (Header.fieldsOfAll members, []) ∧ f'.methods = f.methods := by
  unfold enterAnonymous at h
  split at h
  next => cases h
  next =>
    cases h
    exact ⟨⟨rfl, rfl⟩, rfl⟩

end Surroundings

/-! ## Methods -/

namespace Node

/-- The variables of the parameters that a method writes. A compact constructor writes none. -/
def parameterVariables (n : Node) : List (String × String) :=
  if n.kind = .compactConstructorDeclaration then []
  else
    (((n.child? .parameters).map Header.parameters).getD []).map
      (fun p => (p.2, Surroundings.variableType p.1))

/-- What is known of a method when its body starts. -/
def openingBody (n : Node) : Body where
  calls := []
  locals := [n.parameterVariables.reverse]
  typeParameters := n.ownTypeParameters

/-- The number of the part that is the body of a declaration. -/
def bodyIndex? (n : Node) : Option Nat :=
  n.parts.findIdx? (fun c => c.role = some .body)

/-- The calls in the body of a method. -/
def bodyCalls (line : Nat → Nat) (scopes : List TypeScope) (n : Node) : List Call :=
  (n.child? .body).elim [] (fun body => body.callsMade line scopes n.openingBody)

end Node

theorem Surroundings.enterMethod_opening {s : Surroundings} {f f' : Found} {n : Node} {b : Body}
    {components : Option (List String)}
    (hcomponents : components.isSome = decide (n.kind = .compactConstructorDeclaration))
    (h : s.enterMethod f n components = some (b, f')) :
    b = n.openingBody ∧ ∃ decl : MethodDecl, f'.methods = f.methods.push decl ∧
      decl.start = n.start ∧ decl.stop = n.stop := by
  unfold enterMethod at h
  split at h
  next => cases h
  next scope hscope =>
    dsimp only at h
    split at h
    next => cases h
    next name hname =>
      cases components with
      | some types =>
        cases h
        refine ⟨?_, _, rfl, rfl, rfl⟩
        have hkind : n.kind = .compactConstructorDeclaration := of_decide_eq_true hcomponents.symm
        simp [Node.openingBody, Node.parameterVariables, hkind, Node.ownTypeParameters]
      | none =>
        cases h
        refine ⟨?_, _, rfl, rfl, rfl⟩
        have hkind : n.kind ≠ .compactConstructorDeclaration := of_decide_eq_false hcomponents.symm
        generalize hparams : ((n.child? .parameters).map Header.parameters).getD [] = params
        have hdeclare := Body.declareAll_eq (b := ⟨[], [[]], n.ownTypeParameters⟩) rfl
          (params.map (fun p => (p.2, variableType p.1)))
        rw [Body.declareAll, List.foldl_map, List.append_nil] at hdeclare
        rw [Node.openingBody, Node.parameterVariables, if_neg hkind, hparams]
        exact hdeclare

/-- **A method is declared at an address**: by a node that stands there as a member of a type, whose
place it takes, and its calls are those of the body of that node. -/
structure MethodAt (line : Nat → Nat) (root : Node) (a : Address) (m : MethodDecl) (n : Node)
    (scopes : List TypeScope) : Prop where
  node : root.at? a = some n
  standing : root.standingAt a = .member
  kind : n.kind.declaresMethod = true
  start : m.start = n.start
  stop : m.stop = n.stop
  types : scopes.map TypeScope.known = root.typesAround a
  calls : m.calls = n.bodyCalls line scopes

/-- **One address is that of a method which is declared before another.** If the second one is
inside of the first, it is so in the body of a type, and this is in the body of the first. -/
def Node.DeclaredBefore (root : Node) (a b : Address) : Prop :=
  a < b ∧ ∀ rest, b = a ++ rest → ∃ n i body below, root.at? a = some n ∧ n.bodyIndex? = some i ∧
    n.parts[i]? = some body ∧ rest = i :: below ∧ body.Passes OpensTypeBody below

/-! ## What a part of a walk adds -/

/-- **What a part of a walk adds**: methods that are declared at ascending addresses of a region. -/
def Found.Adds (line : Nat → Nat) (root : Node) (region : Address → Prop) (f f' : Found) : Prop :=
  ∃ (sites : List Address) (ms : List MethodDecl), f'.methods.toList = f.methods.toList ++ ms ∧
    List.Forall₂ (fun a m => ∃ n scopes, MethodAt line root a m n scopes) sites ms ∧
      sites.Pairwise root.DeclaredBefore ∧ ∀ a ∈ sites, region a

/-- The addresses of what is in the parts of a node from one of them on. -/
def Address.FromPart (a : Address) (i : Nat) (x : Address) : Prop :=
  ∃ j rest, i ≤ j ∧ x = a ++ j :: rest

/-- The addresses in the bodies of the types that are declared in a node. -/
def Address.InTypeOf (a : Address) (n : Node) (x : Address) : Prop :=
  ∃ rest, x = a ++ rest ∧ n.Passes Node.OpensTypeBody rest

theorem Node.declaredBefore_of_lt (root : Node) (a : Address) {i j : Nat} (hij : i < j)
    (x y : Address) : root.DeclaredBefore (a ++ i :: x) (a ++ j :: y) := by
  refine ⟨List.append_left_lt (List.cons_lt_cons_iff.2 (.inl hij)), fun rest h => ?_⟩
  rw [List.append_assoc, List.cons_append] at h
  have := (List.cons.inj (List.append_cancel_left h)).1
  omega

namespace Found.Adds

variable {line : Nat → Nat} {root : Node} {R R' Q : Address → Prop} {f f' f'' : Found}

theorem of_methods_eq (h : f'.methods = f.methods) : f.Adds line root Q f' :=
  ⟨[], [], by rw [h, List.append_nil], .nil, .nil, fun _ h => absurd h List.not_mem_nil⟩

theorem of_start (h : f'.Adds line root Q f'') (hmethods : f'.methods = f.methods) :
    f.Adds line root Q f'' := by
  obtain ⟨sites, ms, hms, hsites⟩ := h
  exact ⟨sites, ms, by rw [hms, hmethods], hsites⟩

theorem imp (h : f.Adds line root R f') (himp : ∀ x, R x → Q x) : f.Adds line root Q f' := by
  obtain ⟨sites, ms, hms, hsites, hpairs, hregion⟩ := h
  exact ⟨sites, ms, hms, hsites, hpairs, fun a ha => himp a (hregion a ha)⟩

theorem trans (h : f.Adds line root R f') (h' : f'.Adds line root R' f'')
    (before : ∀ x y, R x → R' y → root.DeclaredBefore x y) :
    f.Adds line root (fun x => R x ∨ R' x) f'' := by
  obtain ⟨sites, ms, hms, hsites, hpairs, hregion⟩ := h
  obtain ⟨sites', ms', hms', hsites', hpairs', hregion'⟩ := h'
  refine ⟨sites ++ sites', ms ++ ms', ?_, List.rel_append hsites hsites', ?_, ?_⟩
  · rw [hms', hms, List.append_assoc]
  · exact List.pairwise_append.2 ⟨hpairs, hpairs',
      fun x hx y hy => before x y (hregion x hx) (hregion' y hy)⟩
  · intro x hx
    rcases List.mem_append.1 hx with hx | hx
    · exact .inl (hregion x hx)
    · exact .inr (hregion' x hx)

/-- What a part of a node adds, and then the parts after it. -/
theorem cons_part {a : Address} {i : Nat} (h : f.Adds line root R f') (h' : f'.Adds line root R' f'')
    (hpart : ∀ x, R x → a ++ [i] <+: x) (hafter : ∀ x, R' x → a.FromPart (i + 1) x) :
    f.Adds line root (fun x => R x ∨ R' x) f'' := by
  refine h.trans h' fun x y hx hy => ?_
  obtain ⟨rest, rfl⟩ := hpart x hx
  obtain ⟨j, rest', hj, rfl⟩ := hafter y hy
  rw [List.append_assoc, List.singleton_append]
  exact root.declaredBefore_of_lt a hj rest rest'

/-- A method, and what is declared in its body. -/
theorem method {a : Address} {decl : MethodDecl} {calls : List Call}
    (hmethods : f'.methods = f.methods.push decl) (h : f'.Adds line root R f'')
    (before : ∀ x, R x → root.DeclaredBefore a x ∧ a <+: x)
    (hmethod : ∃ n scopes, MethodAt line root a { decl with calls } n scopes) :
    f.Adds line root (fun x => a <+: x) (f''.setCalls f.methods.size calls) := by
  obtain ⟨sites, ms, hms, hsites, hpairs, hregion⟩ := h
  refine ⟨a :: sites, { decl with calls } :: ms, ?_, .cons hmethod hsites, ?_, ?_⟩
  · have hlength : f.methods.size < (f.methods.toList ++ decl :: ms).length := by simp
    have hlist : f''.methods.toList = f.methods.toList ++ decl :: ms := by
      rw [hms, hmethods, Array.toList_push, List.append_assoc, List.singleton_append]
    rw [setCalls, Array.toList_modify, hlist, List.modify_eq_take_cons_drop hlength]
    simp [← Array.length_toList, List.drop_append]
  · exact List.pairwise_cons.2 ⟨fun x hx => (before x (hregion x hx)).1, hpairs⟩
  · intro x hx
    rcases List.mem_cons.1 hx with rfl | hx
    · exact List.prefix_rfl
    · exact (before x (hregion x hx)).2

end Found.Adds

/-! ## The walk -/

section Walk

variable {line : Nat → Nat} {root n c : Node} {a x : Address} {i : Nat} {st : Standing}

theorem Address.FromPart.isPrefix (h : a.FromPart i x) : a <+: x := by
  obtain ⟨j, rest, -, rfl⟩ := h
  exact List.prefix_append a _

theorem Address.FromPart.of_le {j : Nat} (h : a.FromPart j x) (hij : i ≤ j) : a.FromPart i x := by
  obtain ⟨k, rest, hk, rfl⟩ := h
  exact ⟨k, rest, by omega, rfl⟩

theorem Address.FromPart.of_isPrefix (h : a ++ [i] <+: x) : a.FromPart i x := by
  obtain ⟨rest, rfl⟩ := h
  exact ⟨i, rest, Nat.le_refl i, by rw [List.append_assoc, List.singleton_append]⟩

theorem Address.InTypeOf.of_part (hc : n.parts[i]? = some c) (h : Address.InTypeOf (a ++ [i]) c x) :
    a.InTypeOf n x := by
  obtain ⟨rest, rfl, hpasses⟩ := h
  refine ⟨i :: rest, ?_, (Node.passes_cons hc rest).2 (.inr hpasses)⟩
  rw [List.append_assoc, List.singleton_append]

theorem Address.InTypeOf.isPrefix (h : a.InTypeOf n x) : a <+: x := by
  obtain ⟨rest, rfl, -⟩ := h
  exact List.prefix_append a rest

theorem Address.InTypeOf.of_opens (hc : n.parts[i]? = some c) (hopens : n.OpensTypeBody c)
    (h : a ++ [i] <+: x) : a.InTypeOf n x := by
  obtain ⟨rest, rfl⟩ := h
  refine ⟨i :: rest, ?_, (Node.passes_cons hc rest).2 (.inl hopens)⟩
  rw [List.append_assoc, List.singleton_append]

/-- A node declares no type and is gone through as code. -/
structure Standing.GoesThrough (st : Standing) (n : Node) : Prop where
  standing : st = .code ∨ st = .member
  noType : (Header.typeKind? n.kind).isSome = false
  noConstant : st = .member → n.kind ≠ .enumConstant
  noMembers : st = .member → n.kind ≠ .enumBodyDeclarations

namespace Standing.GoesThrough

theorem opened?_classBody (h : st.GoesThrough n) (hn : n.kind = .objectCreationExpression)
    (hc : c.kind = .classBody) : st.opened? n c = some (Header.fieldsOfAll c.parts, []) := by
  have hst : ¬ (st = .whole ∨ st = .typeBody) := by
    rcases h.standing with rfl | rfl <;> simp
  rw [opened?, if_neg hst, h.noType, if_neg (by simp), if_pos (.inl ⟨hn, hc⟩)]

theorem opened?_eq_none (h : st.GoesThrough n)
    (hc : ¬ (n.kind = .objectCreationExpression ∧ c.kind = .classBody)) :
    st.opened? n c = none := by
  rw [opened?, h.noType]
  split
  · rfl
  · rw [if_neg (by simp), if_neg]
    rintro (hopens | ⟨hst, hkind, -⟩)
    · exact hc hopens
    · exact h.noConstant hst hkind

theorem next_eq_code (h : st.GoesThrough n)
    (hc : ¬ (n.kind = .objectCreationExpression ∧ c.kind = .classBody)) : st.next n c = .code := by
  have hmembers := h.noMembers
  unfold next
  rw [h.opened?_eq_none hc]
  rcases h.standing with rfl | rfl
  · rfl
  · simp [hmembers rfl]

end Standing.GoesThrough

theorem Standing.GoesThrough.of_method (h : n.kind.declaresMethod = true) :
    Standing.member.GoesThrough n where
  standing := .inr rfl
  noType := by
    generalize n.kind = k at h
    cases k <;> first | rfl | cases h
  noConstant := by
    intro _ hkind
    rw [hkind] at h
    cases h
  noMembers := by
    intro _ hkind
    rw [hkind] at h
    cases h

/-- The body of a declaration is the first of its parts in this role. -/
theorem Node.bodyIndex?_eq (hc : n.parts[i]? = some c) (hbody : c.role = some .body)
    (hbefore : ∀ d ∈ n.parts.take i, d.role ≠ some .body) :
    n.bodyIndex? = some i ∧ n.child? .body = some c := by
  obtain ⟨hi, rfl⟩ := List.getElem?_eq_some_iff.1 hc
  have hfirst (j : Nat) (hj : j < i) : n.parts[j].role ≠ some .body :=
    hbefore _ (List.mem_take_iff_getElem.2 ⟨j, by omega, rfl⟩)
  refine ⟨List.findIdx?_eq_some_iff_getElem.2 ⟨hi, by simpa using hbody, ?_⟩,
    List.find?_eq_some_iff_getElem.2 ⟨by simpa using hbody, i, hi, rfl, ?_⟩⟩
  · intro j hj
    simpa using hfirst j hj
  · intro j hj
    simpa using hfirst j hj

theorem Standing.opened?_of_type (hst : st = .code ∨ st = .member)
    (htype : (Header.typeKind? n.kind).isSome = true) (hc : c.role = some .body) :
    st.opened? n c = some (n.typeFields, n.ownTypeParameters) := by
  have hnot : ¬ (st = .whole ∨ st = .typeBody) := by
    rcases hst with rfl | rfl <;> simp
  rw [opened?, if_neg hnot, htype, if_pos rfl, if_pos hc]

theorem Standing.opened?_of_members
    (hst : st = .typeBody ∨ st = .member ∧ n.kind = .enumBodyDeclarations) :
    st.opened? n c = none := by
  rcases hst with rfl | ⟨rfl, hkind⟩
  · rfl
  · simp [opened?, hkind, Header.typeKind?]

theorem Standing.next_of_members
    (hst : st = .typeBody ∨ st = .member ∧ n.kind = .enumBodyDeclarations) :
    st.next n c = .member := by
  unfold next
  rw [opened?_of_members hst]
  rcases hst with rfl | ⟨rfl, hkind⟩
  · rfl
  · simp [hkind]

theorem head_of_drop {cs : List Node} (h : n.parts.drop i = c :: cs) : n.parts[i]? = some c := by
  rw [← List.head?_drop, h, List.head?_cons]

theorem tail_of_drop {cs : List Node} (h : n.parts.drop i = c :: cs) : n.parts.drop (i + 1) = cs := by
  rw [← List.tail_drop, h, List.tail_cons]

-- The cases are those of the walk itself, one theorem for each of its functions.
mutual
theorem walkBody_adds (s : Surroundings) (n : Node) {a : Address}
    (stands : s.StandsAt line root a n .code) (p : Progress) :
    p.found.Adds line root (a.InTypeOf n) (walkBody s n p).found := by
  match n with
  | .leaf _ _ _ => exact .of_methods_eq rfl
  | .branch r k parts =>
    rw [walkBody]
    by_cases htype : (Header.typeKind? k).isSome = true
    · rw [if_pos htype]
      split
      next => exact .of_methods_eq rfl
      next inner components f entered =>
        obtain ⟨hopens, hmethods, -⟩ := Surroundings.opens_enterType entered
        have hinner := walkTypeBody_adds stands (.inl rfl) htype hopens components 0 parts rfl f
        exact (hinner.of_start hmethods).imp fun x hx => hx.2
    · rw [if_neg htype]
      have hthrough : Standing.code.GoesThrough (.branch r k parts) :=
        ⟨.inl rfl, by simpa [Node.kind] using htype, by simp, by simp⟩
      refine (walkAll_adds stands hthrough (isSome_creationBase s _) 0 parts rfl _).imp ?_
      exact fun x hx => hx.2
termination_by structural n
theorem walkAll_adds {s : Surroundings} {n : Node} {a : Address} {st : Standing}
    (stands : s.StandsAt line root a n st) (through : st.GoesThrough n)
    {base : Option (String × Nat)}
    (hbase : base.isSome = decide (n.kind = .objectCreationExpression)) (i : Nat)
    (cs : List Node) (hcs : n.parts.drop i = cs) (p : Progress) :
    p.found.Adds line root (fun x => a.FromPart i x ∧ a.InTypeOf n x) (walkAll s base cs p).found := by
  match cs with
  | [] => exact .of_methods_eq rfl
  | .leaf r k t :: cs =>
    rw [walkAll_cons s cs p (.inr fun _ _ h => by cases h)]
    exact (walkAll_adds stands through hbase (i + 1) cs (tail_of_drop hcs) p).imp
      fun x hx => ⟨hx.1.of_le (Nat.le_succ i), hx.2⟩
  | .branch r k members :: cs =>
    have hc := head_of_drop hcs
    have hrest := tail_of_drop hcs
    by_cases hopen : base.isSome = true ∧ k = .classBody
    · obtain ⟨⟨⟨name, number⟩, rfl⟩, rfl⟩ := And.imp_left Option.isSome_iff_exists.1 hopen
      have hcreation : n.kind = .objectCreationExpression := of_decide_eq_true hbase.symm
      rw [walkAll_classBody]
      cases entered : s.enterAnonymous p.found name number members with
      | none =>
        exact (walkAll_adds stands through hbase (i + 1) cs hrest p).imp
          fun x hx => ⟨hx.1.of_le (Nat.le_succ i), hx.2⟩
      | some inner =>
        obtain ⟨hopens, hmethods⟩ := Surroundings.opens_enterAnonymous entered
        have hinner := stands.opened hc (through.opened?_classBody hcreation rfl) hopens
        have hfirst := (walkMembers_adds hinner (.inl rfl) [] 0 members rfl _).of_start hmethods
        have hothers := walkAll_adds stands through hbase (i + 1) cs hrest
          { p with found := walkMembers inner.1 [] members inner.2 }
        refine (hfirst.cons_part hothers (fun x hx => hx.isPrefix) fun x hx => hx.1).imp ?_
        rintro x (hx | hx)
        · exact ⟨.of_isPrefix hx.isPrefix, .of_opens hc (.inr ⟨hcreation, rfl⟩) hx.isPrefix⟩
        · exact ⟨hx.1.of_le (Nat.le_succ i), hx.2⟩
    · have hclass : ¬ (n.kind = .objectCreationExpression ∧
          (Node.branch r k members).kind = .classBody) :=
        fun h => hopen ⟨hbase.trans (decide_eq_true h.1), h.2⟩
      have hpart := stands.part hc (through.opened?_eq_none hclass)
      rw [through.next_eq_code hclass] at hpart
      have hfirst := walkBody_adds s (.branch r k members) hpart p
      have hothers := walkAll_adds stands through hbase (i + 1) cs hrest
        (walkBody s (.branch r k members) p)
      rw [walkAll_through s cs p hopen]
      refine (hfirst.cons_part hothers (fun x hx => hx.isPrefix) fun x hx => hx.1).imp ?_
      rintro x (hx | hx)
      · exact ⟨.of_isPrefix hx.isPrefix, .of_part hc hx⟩
      · exact ⟨hx.1.of_le (Nat.le_succ i), hx.2⟩
termination_by structural cs
theorem walkTypeBody_adds {s inner : Surroundings} {n : Node} {a : Address} {st : Standing}
    (stands : s.StandsAt line root a n st) (hst : st = .code ∨ st = .member)
    (htype : (Header.typeKind? n.kind).isSome = true)
    (hopens : s.Opens inner (n.typeFields, n.ownTypeParameters)) (components : List String) (i : Nat)
    (cs : List Node) (hcs : n.parts.drop i = cs) (f : Found) :
    f.Adds line root (fun x => a.FromPart i x ∧ a.InTypeOf n x)
      (walkTypeBody inner components cs f) := by
  match cs with
  | [] => exact .of_methods_eq rfl
  | .leaf r k t :: cs =>
    rw [walkTypeBody]
    by_cases hbody : (Node.leaf r k t).role = some .body
    · rw [if_pos hbody]
      exact .of_methods_eq rfl
    · rw [if_neg hbody]
      exact (walkTypeBody_adds stands hst htype hopens components (i + 1) cs (tail_of_drop hcs)
        f).imp fun x hx => ⟨hx.1.of_le (Nat.le_succ i), hx.2⟩
  | .branch r k members :: cs =>
    have hc := head_of_drop hcs
    rw [walkTypeBody]
    by_cases hbody : (Node.branch r k members).role = some .body
    · rw [if_pos hbody]
      have hopened := Standing.opened?_of_type hst htype hbody
      have hinner := stands.opened hc hopened hopens
      refine (walkMembers_adds hinner (.inl rfl) components 0 members rfl f).imp ?_
      exact fun x hx => ⟨.of_isPrefix hx.isPrefix, .of_opens hc (.inl ⟨htype, hbody⟩) hx.isPrefix⟩
    · rw [if_neg hbody]
      exact (walkTypeBody_adds stands hst htype hopens components (i + 1) cs (tail_of_drop hcs)
        f).imp fun x hx => ⟨hx.1.of_le (Nat.le_succ i), hx.2⟩
termination_by structural cs
theorem walkMembers_adds {s : Surroundings} {n : Node} {a : Address} {st : Standing}
    (stands : s.StandsAt line root a n st)
    (hst : st = .typeBody ∨ st = .member ∧ n.kind = .enumBodyDeclarations) (components : List String)
    (i : Nat) (cs : List Node) (hcs : n.parts.drop i = cs) (f : Found) :
    f.Adds line root (a.FromPart i) (walkMembers s components cs f) := by
  match cs with
  | [] => exact .of_methods_eq rfl
  | c :: cs =>
    have hpart := stands.part (head_of_drop hcs) (Standing.opened?_of_members hst)
    rw [Standing.next_of_members hst] at hpart
    have hfirst := walkMember_adds s c hpart components f
    have hothers := walkMembers_adds stands hst components (i + 1) cs (tail_of_drop hcs)
      (walkMember s components c f)
    rw [walkMembers]
    refine (hfirst.cons_part hothers (fun x hx => hx) fun x hx => hx).imp ?_
    rintro x (hx | hx)
    · exact .of_isPrefix hx
    · exact hx.of_le (Nat.le_succ i)
termination_by structural cs
theorem walkMember_adds (s : Surroundings) (n : Node) {a : Address}
    (stands : s.StandsAt line root a n .member) (components : List String) (f : Found) :
    f.Adds line root (fun x => a <+: x) (walkMember s components n f) := by
  match n with
  | .leaf _ _ _ => exact .of_methods_eq rfl
  | .branch r k parts =>
    rw [walkMember.eq_def]
    dsimp only
    split
    -- the three kinds of methods, then the four kinds of types
    iterate 3
      · split
        next => exact .of_methods_eq rfl
        next b f' entered =>
          obtain ⟨rfl, decl, hmethods, hstart, hstop⟩ :=
            Surroundings.enterMethod_opening (by rfl) entered
          exact walkMethodBody_adds stands rfl 0 parts rfl (by simp) ⟨f', _⟩ hmethods hstart hstop
            rfl
    iterate 4
      · split
        next => exact .of_methods_eq rfl
        next inner inside f' entered =>
          obtain ⟨hopens, hmethods, htype⟩ := Surroundings.opens_enterType entered
          have hinner := walkTypeBody_adds stands (.inr rfl) htype hopens inside 0 parts rfl f'
          exact (hinner.of_start hmethods).imp fun x hx => hx.1.isPrefix
    · have hmembers := walkMembers_adds stands (.inr ⟨rfl, rfl⟩) components 0 parts rfl f
      exact hmembers.imp fun x hx => hx.isPrefix
    · have hconstant := walkConstantBody_adds stands rfl
        (s.line (Node.branch r .enumConstant parts).start) 0 parts rfl f
      exact hconstant.imp fun x hx => hx.isPrefix
    · have htype : (Header.typeKind? k).isSome = false := by
        unfold Header.typeKind?
        split
        all_goals first | rfl | exact absurd rfl (by assumption)
      have hthrough : Standing.member.GoesThrough (.branch r k parts) :=
        ⟨.inr rfl, htype, fun _ h => absurd h (by assumption), fun _ h => absurd h (by assumption)⟩
      have hall := walkAll_adds stands hthrough (isSome_creationBase s _) 0 parts rfl ⟨f, none⟩
      exact hall.imp fun x hx => hx.1.isPrefix
termination_by structural n
theorem walkMethodBody_adds {s : Surroundings} {n : Node} {a : Address}
    (stands : s.StandsAt line root a n .member) (hkind : n.kind.declaresMethod = true) (i : Nat)
    (cs : List Node) (hcs : n.parts.drop i = cs)
    (hbefore : ∀ c ∈ n.parts.take i, c.role ≠ some .body) (p : Progress) {f : Found}
    {decl : MethodDecl} (hmethods : p.found.methods = f.methods.push decl)
    (hstart : decl.start = n.start) (hstop : decl.stop = n.stop)
    (hb : p.body = some n.openingBody) :
    f.Adds line root (fun x => a <+: x) (walkMethodBody s f.methods.size cs p) := by
  match cs with
  | [] =>
    have hnone : n.child? .body = none := by
      refine List.find?_eq_none.2 fun c hc => ?_
      rw [← List.take_append_drop i n.parts, hcs, List.append_nil] at hc
      simpa using hbefore c hc
    refine .method (R := fun _ => False) hmethods (.of_methods_eq rfl) (fun _ h => h.elim) ?_
    refine ⟨n, s.scopes, stands.node, stands.standing, hkind, hstart, hstop, stands.scopes, ?_⟩
    rw [hb, Node.bodyCalls, hnone]
    rfl
  | c :: cs =>
    have hc := head_of_drop hcs
    rw [walkMethodBody]
    by_cases hbody : c.role = some .body
    · rw [if_pos hbody]
      obtain ⟨hindex, hchild⟩ := Node.bodyIndex?_eq hc hbody hbefore
      have hthrough : Standing.member.GoesThrough n := .of_method hkind
      have hclass : ¬ (n.kind = .objectCreationExpression ∧ c.kind = .classBody) := by
        rintro ⟨h, -⟩
        rw [h] at hkind
        cases hkind
      have hpart := stands.part hc (hthrough.opened?_eq_none hclass)
      rw [hthrough.next_eq_code hclass] at hpart
      refine .method hmethods (walkBody_adds s c hpart p) ?_ ?_
      · rintro x ⟨rest, rfl, hpasses⟩
        rw [List.append_assoc, List.singleton_append]
        refine ⟨⟨Address.lt_append_cons .., fun rest' h => ?_⟩, List.prefix_append a _⟩
        exact ⟨n, i, c, rest, stands.node, hindex, hc, (List.append_cancel_left h).symm, hpasses⟩
      · refine ⟨n, s.scopes, stands.node, stands.standing, hkind, hstart, hstop, stands.scopes, ?_⟩
        rw [walkBody_body s c p hb, Node.bodyCalls, hchild, ← stands.line]
        simp [Node.openingBody]
    · rw [if_neg hbody]
      refine walkMethodBody_adds stands hkind (i + 1) cs (tail_of_drop hcs) ?_ p hmethods hstart hstop
        hb
      intro d hd
      rw [List.take_add_one, hc, Option.toList_some] at hd
      rcases List.mem_append.1 hd with hd | hd
      · exact hbefore d hd
      · rw [List.mem_singleton.1 hd]
        exact hbody
termination_by structural cs
theorem walkConstantBody_adds {s : Surroundings} {n : Node} {a : Address}
    (stands : s.StandsAt line root a n .member) (hkind : n.kind = .enumConstant) (number : Nat)
    (i : Nat) (cs : List Node) (hcs : n.parts.drop i = cs) (f : Found) :
    f.Adds line root (a.FromPart i) (walkConstantBody s number cs f) := by
  match cs with
  | [] => exact .of_methods_eq rfl
  | .leaf r k t :: cs =>
    rw [walkConstantBody]
    by_cases hbody : (Node.leaf r k t).role = some .body
    · rw [if_pos hbody]
      exact .of_methods_eq rfl
    · rw [if_neg hbody]
      exact (walkConstantBody_adds stands hkind number (i + 1) cs (tail_of_drop hcs) f).imp
        fun x hx => hx.of_le (Nat.le_succ i)
  | .branch r k members :: cs =>
    have hc := head_of_drop hcs
    rw [walkConstantBody]
    by_cases hbody : (Node.branch r k members).role = some .body
    · rw [if_pos hbody]
      dsimp only
      split
      next => exact .of_methods_eq rfl
      next inner f' entered =>
        obtain ⟨hopens, hmethods⟩ := Surroundings.opens_enterAnonymous entered
        have hopened : Standing.member.opened? n (.branch r k members) =
            some (Header.fieldsOfAll members, []) := by
          simp [Standing.opened?, hkind, hbody, Header.typeKind?, Node.parts]
        have hinner := stands.opened hc hopened hopens
        refine ((walkMembers_adds hinner (.inl rfl) [] 0 members rfl f').of_start hmethods).imp ?_
        exact fun x hx => .of_isPrefix hx.isPrefix
    · rw [if_neg hbody]
      exact (walkConstantBody_adds stands hkind number (i + 1) cs (tail_of_drop hcs) f).imp
        fun x hx => hx.of_le (Nat.le_succ i)
termination_by structural cs
end

end Walk

/-! ## The file -/

namespace Outline

/-- What a declaration at the top of a file adds. -/
theorem addTop_adds (line : Nat → Nat) {root n : Node} {i : Nat} (hn : root.parts[i]? = some n)
    (o : Outline) :
    o.found.Adds line root (fun x => [i] <+: x) (o.addTop line n).found := by
  unfold addTop
  split
  · split <;> exact .of_methods_eq rfl
  · split <;> exact .of_methods_eq rfl
  · dsimp only
    split
    next => exact .of_methods_eq rfl
    next inner components f entered =>
      obtain ⟨hopens, hmethods, htype⟩ := Surroundings.opens_enterType entered
      have hwhole : Surroundings.StandsAt ⟨line, o.package, []⟩ line root [] root .whole :=
        ⟨rfl, rfl, rfl, rfl⟩
      have hstands := hwhole.part hn rfl
      have hbody := walkTypeBody_adds hstands (.inl rfl) htype hopens components 0 n.parts rfl f
      exact (hbody.of_start hmethods).imp fun x hx => hx.1.isPrefix

/-- **The methods of an outline are declared at ascending addresses of the tree**, one inside of
another only where a type is declared in the body of the other. -/
theorem exists_sites (line : Nat → Nat) (root : Node) :
    ∃ sites : List Address, sites.Pairwise root.DeclaredBefore ∧
      List.Forall₂ (fun a m => ∃ n scopes, MethodAt line root a m n scopes) sites
        (ofTree line root).methods.toList := by
  -- the nodes at the top from one of them on, with its number
  have hfold (i : Nat) (ns : List Node) (hns : root.parts.drop i = ns) (o : Outline) :
      o.found.Adds line root (Address.FromPart [] i)
        (ns.foldl (fun o n => if n.isNamed = true then o.addTop line n else o) o).found := by
    induction ns generalizing i o with
    | nil => exact .of_methods_eq rfl
    | cons n ns ih =>
      rw [List.foldl_cons]
      have hrest := ih (i + 1) (tail_of_drop hns)
      by_cases hnamed : n.isNamed = true
      · rw [if_pos hnamed]
        have htop := addTop_adds line (head_of_drop hns) o
        refine (htop.cons_part (a := []) (hrest _) (fun x hx => hx) fun x hx => hx).imp ?_
        rintro x (hx | hx)
        · exact .of_isPrefix hx
        · exact hx.of_le (Nat.le_succ i)
      · rw [if_neg hnamed]
        exact (hrest o).imp fun x hx => hx.of_le (Nat.le_succ i)
  obtain ⟨sites, ms, hms, hsites, hpairs, -⟩ :=
    hfold 0 root.parts rfl { hasErrors := root.hasError }
  refine ⟨sites, hpairs, ?_⟩
  have hmethods : (ofTree line root).methods.toList = ms := by
    rw [ofTree, Node.children, List.foldl_filter]
    exact hms
  rw [hmethods]
  exact hsites

end Outline
end CallOrigins.Java
