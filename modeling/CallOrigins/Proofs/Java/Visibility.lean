import CallOrigins.Proofs.Java.Addresses
import Mathlib.Data.List.Infix

/-!
# The variables that can be seen from a place in a body

While a walk goes through the body of a method it keeps a stack of open blocks with their variables.
What this comes to is said here of the tree alone. A node declares some variables (`Node.declares`).
A declaration is seen from a later place if every block around the declaration is around that place
as well (`Node.Sees`); where one name is declared by several of them, the last one counts.

**The law** (`walkBody_body`): in a walk through a body, the node at an address makes its call with
just the variables that are seen from this address (`Node.visible`), and the calls are those of the
nodes that are met, in the order of their addresses (`Node.callsMade`).
-/

namespace CallOrigins.Java

/-! ## What a node declares -/

namespace Node

/-- The variables of a declaration of variables. -/
def declaredVariables (n : Node) : List (String × String) :=
  match n.child? .type with
  | none => []
  | some type =>
    (n.childrenAs .declarator).filterMap (fun d =>
      (d.child? .name).map (fun name =>
        (name.text, if type.erased == "var" then inferredType d else type.erased)))

/-- The one variable of a loop, a resource, a caught exception or a test. -/
def ownVariable (n : Node) : List (String × String) :=
  match n.child? .name with
  | none => []
  | some name =>
    let type := ((writtenType? n).map Node.erased).getD ""
    [(name.text, if type == "var" then "" else type)]

/-- The parameters of a lambda expression. -/
def lambdaParameters (n : Node) : List (String × String) :=
  match n.child? .parameters with
  | none => []
  | some ps =>
    match ps.kind with
    | .formalParameters => (Header.parameters ps).map Prod.swap
    | .identifier => [(ps.text, "")]
    | _ => (ps.children.filter (fun p => p.kind == .identifier)).map (fun p => (p.text, ""))

/-- **The variables that a node declares**, with their types. -/
def declares (n : Node) : List (String × String) :=
  match n.kind with
  | .localVariableDeclaration | .fieldDeclaration => n.declaredVariables
  | .enhancedForStatement | .resource | .catchFormalParameter | .instanceofExpression =>
    n.ownVariable
  | .lambdaExpression => n.lambdaParameters
  | _ => []

end Node

namespace Body

/-- Declares variables one after the other. -/
def declareAll (b : Body) (vs : List (String × String)) : Body :=
  vs.foldl (fun b v => b.declare v.1 v.2) b

/-- The body of a method with one innermost block more, of which nothing but the variables matters
to a call. -/
theorem declareAll_eq {b : Body} {scope : List (String × String)}
    {outer : List (List (String × String))} (h : b.locals = scope :: outer)
    (vs : List (String × String)) :
    b.declareAll vs = { b with locals := (vs.reverse ++ scope) :: outer } := by
  induction vs generalizing b scope with
  | nil =>
    rw [List.reverse_nil, List.nil_append, ← h]
    rfl
  | cons v vs ih =>
    have hdeclare : b.declare v.1 v.2 = { b with locals := (v :: scope) :: outer } := by
      rw [declare, h]
    rw [declareAll, List.foldl_cons, hdeclare]
    refine (ih rfl).trans ?_
    rw [List.reverse_cons, List.append_assoc, List.singleton_append]

theorem declareVariables_eq (b : Body) (n : Node) :
    declareVariables b n = b.declareAll n.declaredVariables := by
  unfold declareVariables Node.declaredVariables declareAll
  cases n.child? .type with
  | none => rfl
  | some type =>
    dsimp only
    rw [List.foldl_filterMap]
    congr 1
    funext b d
    cases d.child? .name <;> rfl

theorem declareOne_eq (b : Body) (n : Node) : declareOne b n = b.declareAll n.ownVariable := by
  unfold declareOne Node.ownVariable
  cases n.child? .name <;> rfl

theorem declareParameters_eq (b : Body) (n : Node) :
    declareParameters b n = b.declareAll n.lambdaParameters := by
  unfold declareParameters Node.lambdaParameters declareAll
  cases n.child? .parameters with
  | none => rfl
  | some ps => cases hk : ps.kind <;> simp [List.foldl_map, hk]

/-- **What meeting a node does to a body**: the call of the node is added, and then its variables. -/
theorem meet_eq (b : Body) (line : Nat → Nat) (scopes : List TypeScope) (n : Node) :
    b.meet line scopes n =
      declareAll { b with calls := (call? line scopes b n).toList ++ b.calls } n.declares := by
  cases hk : n.kind
  case methodInvocation | objectCreationExpression | explicitConstructorInvocation |
      methodReference =>
    simp only [meet, Node.declares, hk]
    split
    next c hc => simp [hc, note, declareAll]
    next hc => simp [hc, declareAll]
  all_goals
    simp [meet, call?, Node.declares, hk, declareVariables_eq, declareOne_eq, declareParameters_eq,
      declareAll]

/-- The type of a local variable is looked up in all the open blocks together. -/
theorem local?_eq (b : Body) (name : String) : b.local? name = b.locals.flatten.lookup name := by
  unfold local?
  induction b.locals with
  | nil => rfl
  | cons scope outer ih =>
    rw [List.findSome?_cons, List.flatten_cons, List.lookup_append, ih]
    cases scope.lookup name <;> rfl

/-- The body of a method in which some more variables are seen. -/
def seeing (b : Body) (vs : List (String × String)) : Body :=
  { b with calls := [], locals := [vs.reverse ++ b.locals.flatten] }

end Body

/-! ## What matters to a call -/

section Congruence

variable {scopes scopes' : List TypeScope} {b b' : Body}

/-- Is a text the name of a type parameter, of the method or of a type around it? -/
def isTypeParameter (scopes : List TypeScope) (b : Body) (type : String) : Bool :=
  b.typeParameters.contains type || scopes.any (fun s => s.typeParameters.contains type)

/-- **The same is seen from two places**: the same variables, fields and type parameters. -/
structure SameView (scopes : List TypeScope) (b : Body) (scopes' : List TypeScope) (b' : Body) :
    Prop where
  locals : b.locals.flatten = b'.locals.flatten
  fields : ∀ name, field? scopes name = field? scopes' name
  typeParameters : ∀ type, isTypeParameter scopes b type = isTypeParameter scopes' b' type

theorem Receiver.ofVariable_congr (h : SameView scopes b scopes' b') (type : String) :
    Receiver.ofVariable scopes b type = Receiver.ofVariable scopes' b' type := by
  have hparameter := h.typeParameters type
  unfold isTypeParameter at hparameter
  unfold ofVariable
  rw [hparameter]

theorem Receiver.ofName_congr (h : SameView scopes b scopes' b') (name : String) :
    Receiver.ofName scopes b name = Receiver.ofName scopes' b' name := by
  unfold ofName
  rw [Body.local?_eq, Body.local?_eq, h.locals, h.fields, funext (ofVariable_congr h)]

mutual
theorem receiverOf_congr (h : SameView scopes b scopes' b') (n : Node) :
    receiverOf scopes b n = receiverOf scopes' b' n := by
  match n with
  | .leaf r k t => cases k <;> simp only [receiverOf, Receiver.ofName_congr h]
  | .branch r k parts =>
    have hparts := receiverOfFirst_congr h parts
    cases k <;>
      simp only [receiverOf, Receiver.ofAccess, Receiver.ofVariable_congr h, h.fields, hparts]
theorem receiverOfFirst_congr (h : SameView scopes b scopes' b') (ns : List Node) :
    receiverOfFirst scopes b ns = receiverOfFirst scopes' b' ns := by
  match ns with
  | [] => rfl
  | n :: ns =>
    rw [receiverOfFirst, receiverOfFirst, receiverOf_congr h n, receiverOfFirst_congr h ns]
end

/-- **Only what is seen from its place matters to a call.** -/
theorem call?_congr (line : Nat → Nat) (h : SameView scopes b scopes' b') (n : Node) :
    call? line scopes b n = call? line scopes' b' n := by
  have hreceiver : receiverOf scopes b = receiverOf scopes' b' := funext (receiverOf_congr h)
  simp only [call?, hreceiver, Receiver.ofVariable_congr h]

end Congruence

/-! ## What is seen from an address -/

namespace Node

/-- The node at an address is a block of its own. -/
def opensBlockAt (n : Node) (a : Address) : Bool :=
  (n.at? a).any (fun m => m.kind.opensBlock)

/-- **A declaration is seen from a later place**, if every block around it is around that place. -/
def Sees (n : Node) (place decl : Address) : Prop :=
  decl < place ∧ ∀ e ∈ decl.inits, n.opensBlockAt e = true → e <+: place

/-- A declaration is seen after a node, if no block of the node is around it. -/
def Outlasts (n : Node) (decl : Address) : Prop :=
  ∀ e ∈ decl.inits, n.opensBlockAt e = false

instance (n : Node) (place : Address) : DecidablePred (n.Sees place) :=
  fun _ => inferInstanceAs (Decidable (_ ∧ _))

instance (n : Node) : DecidablePred n.Outlasts :=
  fun decl => inferInstanceAs (Decidable (∀ e ∈ decl.inits, _))

/-- The variables that the node at an address declares. -/
def declaresAt (n : Node) (a : Address) : List (String × String) :=
  (n.at? a).elim [] declares

/-- **The variables that are seen from an address**, as they are declared. -/
def visible (n : Node) (place : Address) : List (String × String) :=
  (n.metAddresses.filter (fun decl => n.Sees place decl)).flatMap n.declaresAt

/-- The variables of a node that are seen after it. -/
def outlasting (n : Node) : List (String × String) :=
  (n.metAddresses.filter (fun decl => n.Outlasts decl)).flatMap n.declaresAt

/-- The variables of a part that are seen after it. Those of a class body in a creation are none of
the method around it. -/
def outlastingPart (creation : Bool) (c : Node) : List (String × String) :=
  if creation = true ∧ c.kind = .classBody then [] else c.outlasting

section Equations

variable {n c : Node} {i j : Nat} {a d : Address}

theorem opensBlockAt_nil (n : Node) : n.opensBlockAt [] = n.kind.opensBlock := rfl

theorem opensBlockAt_cons (hc : n.parts[i]? = some c) (a : Address) :
    n.opensBlockAt (i :: a) = c.opensBlockAt a := by
  rw [opensBlockAt, at?_cons_of_part hc, opensBlockAt]

theorem declaresAt_cons (hc : n.parts[i]? = some c) (a : Address) :
    n.declaresAt (i :: a) = c.declaresAt a := by
  rw [declaresAt, at?_cons_of_part hc, declaresAt]

theorem not_sees_nil (n : Node) (d : Address) : ¬ n.Sees [] d :=
  fun h => absurd h.1 (List.not_lt_nil d)

theorem sees_nil (n : Node) (i : Nat) (a : Address) : n.Sees (i :: a) [] := by
  simp [Sees]

/-- What is declared in an earlier part is seen if it outlasts that part, and what is declared in
the same part if it is seen there. -/
theorem sees_cons (hc : n.parts[j]? = some c) :
    n.Sees (i :: a) (j :: d) ↔ j < i ∧ c.Outlasts d ∨ j = i ∧ c.Sees a d := by
  simp only [Sees, Outlasts, List.inits_cons, List.forall_mem_cons, List.nil_prefix, implies_true,
    true_and, List.forall_mem_map, opensBlockAt_cons hc, List.cons_prefix_cons,
    List.cons_lt_cons_iff]
  constructor
  · rintro ⟨hlt | ⟨rfl, hlt⟩, h⟩
    · refine .inl ⟨hlt, fun e he => ?_⟩
      by_contra hopens
      have := (h e he (by simpa using hopens)).1
      omega
    · exact .inr ⟨rfl, hlt, fun e he hopens => (h e he hopens).2⟩
  · rintro (⟨hlt, h⟩ | ⟨rfl, hlt, h⟩)
    · exact ⟨.inl hlt, fun e he hopens => absurd hopens (by simp [h e he])⟩
    · exact ⟨.inr ⟨rfl, hlt⟩, fun e he hopens => ⟨rfl, h e he hopens⟩⟩

theorem outlasts_cons (hc : n.parts[j]? = some c) :
    n.Outlasts (j :: d) ↔ n.kind.opensBlock = false ∧ c.Outlasts d := by
  simp only [Outlasts, List.inits_cons, List.forall_mem_cons, List.forall_mem_map,
    opensBlockAt_cons hc, opensBlockAt_nil]

/-- What is declared in the parts of a node, where each part is looked at on its own. -/
theorem flatMap_metAddressesAmong {creation : Bool} {P : Address → Prop}
    {Q : Node → Address → Prop} [DecidablePred P] [∀ c, DecidablePred (Q c)] {k : Nat}
    {cs : List Node} (h : ∀ i c, cs[i]? = some c →
      n.parts[k + i]? = some c ∧ ∀ d, P ((k + i) :: d) ↔ Q c d) :
    ((metAddressesAmong creation k cs).filter P).flatMap n.declaresAt =
      cs.flatMap (fun c =>
        if creation = true ∧ c.kind = .classBody then []
        else (c.metAddresses.filter (Q c)).flatMap c.declaresAt) := by
  induction cs generalizing k with
  | nil => rfl
  | cons c cs ih =>
    obtain ⟨hc, hP⟩ := h 0 c rfl
    rw [metAddressesAmong, List.filter_append, List.flatMap_append, List.flatMap_cons, ih]
    · congr 1
      split
      · rfl
      · rw [List.filter_map, List.flatMap_map]
        simp only [Function.comp_def, Nat.add_zero] at hP hc ⊢
        simp only [hP, declaresAt_cons hc]
    · intro i d hd
      have hnext := h (i + 1) d hd
      rwa [← Nat.add_assoc, Nat.add_right_comm] at hnext

theorem visible_nil (n : Node) : n.visible [] = [] := by
  have hnone : n.metAddresses.filter (fun d => n.Sees [] d) = [] :=
    List.filter_eq_nil_iff.2 fun d _ => by simpa using n.not_sees_nil d
  rw [visible, hnone, List.flatMap_nil]

variable {r : Option Role} {k : Kind} {cs : List Node}

/-- **What is seen from inside of a part**: the variables of the node, those of the parts before
that outlast them, and what is seen in the part itself. -/
theorem visible_cons (htype : (Header.typeKind? n.kind).isSome = false) (hc : n.parts[i]? = some c)
    (hopens : ¬ n.OpensType c) (a : Address) :
    n.visible (i :: a) = n.declares ++
      (n.parts.take i).flatMap (outlastingPart (n.kind = .objectCreationExpression)) ++
        c.visible a := by
  have hpart : ¬ (decide (n.kind = .objectCreationExpression) = true ∧ c.kind = .classBody) :=
    fun h => hopens (.inr ⟨of_decide_eq_true h.1, h.2⟩)
  generalize hcreation : decide (n.kind = .objectCreationExpression) = creation at hpart ⊢
  obtain ⟨hi, hget⟩ := List.getElem?_eq_some_iff.1 hc
  have hsplit : n.parts = n.parts.take i ++ c :: n.parts.drop (i + 1) := by
    rw [← hget, List.cons_getElem_drop_succ, List.take_append_drop]
  have hmet : n.metAddresses = [] :: (metAddressesAmong creation 0 (n.parts.take i) ++
      (c.metAddresses.map (i :: ·) ++
        metAddressesAmong creation (i + 1) (n.parts.drop (i + 1)))) := by
    rw [metAddresses_of_part htype hc, hcreation]
    conv_lhs => rw [hsplit]
    rw [metAddressesAmong_append, metAddressesAmong, if_neg hpart, Nat.zero_add,
      List.length_take_of_le hi.le]
  have hbefore : ((metAddressesAmong creation 0 (n.parts.take i)).filter
      (fun d => n.Sees (i :: a) d)).flatMap n.declaresAt =
        (n.parts.take i).flatMap (outlastingPart creation) := by
    refine flatMap_metAddressesAmong fun j d hd => ?_
    rw [List.getElem?_take] at hd
    by_cases hji : j < i
    · rw [if_pos hji] at hd
      rw [Nat.zero_add]
      refine ⟨hd, fun e => (sees_cons hd).trans ?_⟩
      simp [hji, hji.ne]
    · rw [if_neg hji] at hd
      cases hd
  have hat : ((c.metAddresses.map (i :: ·)).filter (fun d => n.Sees (i :: a) d)).flatMap
      n.declaresAt = c.visible a := by
    rw [List.filter_map, List.flatMap_map]
    simp [Function.comp_def, visible, sees_cons hc, declaresAt_cons hc]
  have hafter : (metAddressesAmong creation (i + 1) (n.parts.drop (i + 1))).filter
      (fun d => n.Sees (i :: a) d) = [] := by
    refine List.filter_eq_nil_iff.2 fun d hd => ?_
    obtain ⟨j, c', e, hc', rfl, -⟩ := mem_metAddressesAmong.1 hd
    rw [List.getElem?_drop] at hc'
    rw [decide_eq_true_eq, sees_cons hc']
    omega
  rw [visible, hmet, List.filter_cons_of_pos (by simpa using n.sees_nil i a), List.flatMap_cons,
    List.filter_append, List.filter_append, List.flatMap_append, List.flatMap_append, hbefore, hat,
    hafter, List.flatMap_nil, List.append_nil, List.append_assoc]
  rfl

/-- The declaration of a type leaves no variables. -/
theorem outlasting_of_type {r : Option Role} {k : Kind} (cs : List Node)
    (htype : (Header.typeKind? k).isSome = true) : (branch r k cs).outlasting = [] := by
  cases k <;> first | rfl | cases htype

/-- **What outlasts a node**: nothing if it is a block, and otherwise its variables and those that
outlast its parts. -/
theorem outlasting_branch {r : Option Role} {k : Kind} (cs : List Node)
    (htype : (Header.typeKind? k).isSome = false) :
    (branch r k cs).outlasting =
      if k.opensBlock then []
      else (branch r k cs).declares ++
        cs.flatMap (outlastingPart (k = .objectCreationExpression)) := by
  rw [outlasting, metAddresses, htype, if_neg (by simp)]
  by_cases hopens : k.opensBlock = true
  · have hnone : ∀ d, ¬ (branch r k cs).Outlasts d := by
      intro d h
      have hroot := h [] (by simp)
      rw [opensBlockAt_nil, kind, hopens] at hroot
      cases hroot
    simp [hnone, hopens]
  · rw [if_neg hopens,
      List.filter_cons_of_pos (by simpa [Outlasts, opensBlockAt_nil, kind] using hopens),
      List.flatMap_cons]
    congr 1
    refine flatMap_metAddressesAmong fun i c hc => ?_
    rw [Nat.zero_add]
    refine ⟨hc, fun d => (outlasts_cons hc).trans ?_⟩
    simp [kind, hopens]

end Equations
end Node

/-! ## The calls of a body -/

namespace Node

variable (line : Nat → Nat) (scopes : List TypeScope) (b : Body)

/-- The call that the node at an address makes, with the variables that are seen from there. -/
def callMade? (n : Node) (a : Address) : Option Call :=
  (n.at? a).bind (call? line scopes (b.seeing (n.visible a)))

/-- **The calls of a tree in the body of a method.** -/
def callsMade (n : Node) : List Call :=
  n.metAddresses.filterMap (n.callMade? line scopes b)

theorem callsMade_branch {r : Option Role} {k : Kind} (cs : List Node)
    (htype : (Header.typeKind? k).isSome = false) :
    (branch r k cs).callsMade line scopes b =
      (call? line scopes (b.seeing []) (branch r k cs)).toList ++
        (metAddressesAmong (k = .objectCreationExpression) 0 cs).filterMap
          ((branch r k cs).callMade? line scopes b) := by
  have hroot : (branch r k cs).callMade? line scopes b [] =
      call? line scopes (b.seeing []) (branch r k cs) := by
    rw [callMade?, visible_nil, at?_nil, Option.bind_some]
  rw [callsMade, metAddresses, htype, if_neg (by simp), List.filterMap_cons, hroot]
  cases call? line scopes (b.seeing []) (branch r k cs) <;> rfl

end Node

/-- In a body, a walk has come to the part of a node with a number: the variables of the node are
known, and those of the parts before that outlast them. -/
structure Body.ComesTo (b : Body) (n : Node) (i : Nat) (b' : Body) : Prop where
  locals : b'.locals.flatten = (n.declares ++
    (n.parts.take i).flatMap (Node.outlastingPart (n.kind = .objectCreationExpression))).reverse ++
      b.locals.flatten
  typeParameters : b'.typeParameters = b.typeParameters

section Walk

variable {n c : Node} {b b' : Body} {i : Nat}

/-- The call at an address is the one that the part makes, seen from where the walk comes to it. -/
theorem Body.ComesTo.callMade?_eq (h : b.ComesTo n i b')
    (htype : (Header.typeKind? n.kind).isSome = false) (hc : n.parts[i]? = some c)
    (hopens : ¬ n.OpensType c) (line : Nat → Nat) (scopes : List TypeScope) (a : Address) :
    n.callMade? line scopes b (i :: a) = c.callMade? line scopes b' a := by
  have hseeing : b.seeing (n.visible (i :: a)) = b'.seeing (c.visible a) := by
    rw [seeing, seeing, h.locals, h.typeParameters, Node.visible_cons htype hc hopens,
      List.reverse_append, List.append_assoc]
  rw [Node.callMade?, Node.callMade?, Node.at?_cons_of_part hc, hseeing]

theorem Body.ComesTo.next (h : b.ComesTo n i b') (hc : n.parts[i]? = some c) {b'' : Body}
    (hlocals : b''.locals.flatten =
      (Node.outlastingPart (n.kind = .objectCreationExpression) c).reverse ++ b'.locals.flatten)
    (hparams : b''.typeParameters = b'.typeParameters) : b.ComesTo n (i + 1) b'' where
  locals := by
    rw [hlocals, h.locals, List.take_add_one, hc, Option.toList_some, List.flatMap_append,
      List.flatMap_singleton]
    simp only [List.reverse_append, List.append_assoc]
  typeParameters := hparams.trans h.typeParameters

variable {s : Surroundings} {p : Progress} {calls : List Call} {scope : List (String × String)}
  {outer : List (List (String × String))} {params : List String}

theorem Body.comesTo_zero (hparams : b'.typeParameters = b.typeParameters)
    (hlocals : b'.locals.flatten = n.declares.reverse ++ b.locals.flatten) : b.ComesTo n 0 b' where
  locals := by rw [hlocals, List.take_zero, List.flatMap_nil, List.append_nil]
  typeParameters := hparams

theorem Body.meet_mk (line : Nat → Nat) (scopes : List TypeScope) (n : Node) :
    Body.meet ⟨calls, scope :: outer, params⟩ line scopes n =
      ⟨(call? line scopes (seeing ⟨calls, scope :: outer, params⟩ []) n).toList ++ calls,
        (n.declares.reverse ++ scope) :: outer, params⟩ := by
  have hlocals : (Body.locals ⟨calls, scope :: outer, params⟩).flatten =
      (seeing ⟨calls, scope :: outer, params⟩ []).locals.flatten := by
    simp [seeing]
  have hcall : call? line scopes ⟨calls, scope :: outer, params⟩ n =
      call? line scopes (seeing ⟨calls, scope :: outer, params⟩ []) n :=
    call?_congr line ⟨hlocals, fun _ => rfl, fun _ => rfl⟩ n
  rw [meet_eq, hcall]
  exact declareAll_eq rfl n.declares

theorem Progress.body_meet (hb : p.body = some ⟨calls, scope :: outer, params⟩) (n : Node) :
    (p.meet s n).body = some
      ⟨(call? s.line s.scopes (Body.seeing ⟨calls, scope :: outer, params⟩ []) n).toList ++ calls,
        if n.kind.opensBlock then n.declares.reverse :: scope :: outer
        else (n.declares.reverse ++ scope) :: outer, params⟩ := by
  show p.body.map _ = _
  rw [hb, Option.map_some]
  by_cases hopens : n.kind.opensBlock = true
  · rw [if_pos hopens, if_pos hopens, Body.openBlock, Body.meet_mk, List.append_nil]
    rfl
  · rw [if_neg hopens, if_neg hopens, Body.meet_mk]

/-- The class body of a creation is left out of the body around it. -/
theorem walkAll_opened (s : Surroundings) {base : Option (String × Nat)} (cs : List Node)
    (p : Progress) (h : base.isSome = true ∧ c.kind = .classBody) :
    ∃ p', walkAll s base (c :: cs) p = walkAll s base cs p' ∧ p'.body = p.body := by
  obtain ⟨⟨name, line⟩, rfl⟩ := Option.isSome_iff_exists.1 h.1
  cases c with
  | leaf r k t => exact ⟨p, rfl, rfl⟩
  | branch r k members =>
    obtain rfl : k = .classBody := h.2
    refine ⟨_, walkAll_classBody s name line r members cs p, ?_⟩
    split <;> rfl

theorem walkAll_through (s : Surroundings) {base : Option (String × Nat)} (cs : List Node)
    (p : Progress) (h : ¬ (base.isSome = true ∧ c.kind = .classBody)) :
    walkAll s base (c :: cs) p = walkAll s base cs (walkBody s c p) := by
  refine walkAll_cons s cs p ?_
  cases base with
  | none => exact .inl rfl
  | some base =>
    refine .inr fun r members hc => h ⟨rfl, ?_⟩
    rw [hc, Node.kind]

-- A walk through a part of a node is seen from the node: its calls are those at addresses that
-- start with the number of the part.
mutual
/-- **A walk through a body adds the calls of the tree**, each with the variables that are seen from
its address, and leaves the variables that outlast the tree. -/
theorem walkBody_body (s : Surroundings) (n : Node) (p : Progress) {calls : List Call}
    {scope : List (String × String)} {outer : List (List (String × String))} {params : List String}
    (hb : p.body = some ⟨calls, scope :: outer, params⟩) :
    (walkBody s n p).body = some
      ⟨(n.callsMade s.line s.scopes ⟨calls, scope :: outer, params⟩).reverse ++ calls,
        (n.outlasting.reverse ++ scope) :: outer, params⟩ := by
  match n with
  | .leaf r k t => exact hb
  | .branch r k parts =>
    have hmeet := Progress.body_meet (s := s) hb (.branch r k parts)
    rw [walkBody]
    by_cases htype : (Header.typeKind? k).isSome = true
    · rw [if_pos htype, Node.outlasting_of_type parts htype, List.reverse_nil, List.nil_append]
      have hstays : (p.meet s (.branch r k parts)).body =
          some ⟨calls, scope :: outer, params⟩ := by
        rw [hmeet]
        cases k <;> first | rfl | cases htype
      have hnone : (Node.branch r k parts).callsMade s.line s.scopes
          ⟨calls, scope :: outer, params⟩ = [] := by
        cases k <;> first | rfl | cases htype
      rw [hnone, List.reverse_nil, List.nil_append]
      split <;> exact hstays
    · have hk : (Header.typeKind? k).isSome = false := by simpa using htype
      have hnone : (Header.typeKind? (Node.branch r k parts).kind).isSome = false := hk
      have hbase := isSome_creationBase s (.branch r k parts)
      have hstart {locals : List (List (String × String))} (cs : List Call)
          (h : locals.flatten = (Node.branch r k parts).declares.reverse ++
            (scope :: outer).flatten) :
          Body.ComesTo ⟨calls, scope :: outer, params⟩ (.branch r k parts) 0 ⟨cs, locals, params⟩ :=
        Body.comesTo_zero rfl h
      rw [if_neg htype, Node.callsMade_branch _ _ _ parts hk, Node.outlasting_branch parts hk]
      have hone (call : Option Call) : call.toList.reverse = call.toList := by
        cases call <;> rfl
      show Option.map _ (walkAll _ _ _ _).body = _
      by_cases hopens : k.opensBlock = true
      · rw [Node.kind, if_pos hopens] at hmeet
        rw [walkAll_body s hnone hbase 0 parts rfl _ hmeet (hstart _ (by simp)), hbase,
          Option.map_some, if_pos hopens, if_pos hopens, Body.closeBlock]
        simp only [List.reverse_append, List.append_assoc, hone]
        rfl
      · rw [Node.kind, if_neg hopens] at hmeet
        rw [walkAll_body s hnone hbase 0 parts rfl _ hmeet (hstart _ (by simp)), hbase,
          Option.map_some, if_neg hopens, if_neg hopens]
        simp only [List.reverse_append, List.append_assoc, hone]
        rfl
/-- The parts of a node from one of them on, where the whole node is in the body `b`. -/
theorem walkAll_body (s : Surroundings) {base : Option (String × Nat)} {n : Node} {b : Body}
    {calls : List Call} {scope : List (String × String)} {outer : List (List (String × String))}
    {params : List String} (htype : (Header.typeKind? n.kind).isSome = false)
    (hbase : base.isSome = decide (n.kind = .objectCreationExpression)) (i : Nat) (cs : List Node)
    (hcs : n.parts.drop i = cs) (p : Progress)
    (hb : p.body = some ⟨calls, scope :: outer, params⟩)
    (hcomes : b.ComesTo n i ⟨calls, scope :: outer, params⟩) :
    (walkAll s base cs p).body = some
      ⟨((Node.metAddressesAmong base.isSome i cs).filterMap
          (n.callMade? s.line s.scopes b)).reverse ++ calls,
        ((cs.flatMap (Node.outlastingPart base.isSome)).reverse ++ scope) :: outer, params⟩ := by
  match cs with
  | [] => exact hb
  | c :: cs =>
    have hc : n.parts[i]? = some c := by
      rw [← List.head?_drop, hcs, List.head?_cons]
    have hrest : n.parts.drop (i + 1) = cs := by
      rw [← List.tail_drop, hcs, List.tail_cons]
    rw [Node.metAddressesAmong, List.filterMap_append, List.flatMap_cons]
    by_cases hopen : base.isSome = true ∧ c.kind = .classBody
    · have hnone : Node.outlastingPart base.isSome c = [] := if_pos hopen
      obtain ⟨p', hwalk, hp'⟩ := walkAll_opened s cs p hopen
      rw [if_pos hopen, hnone, hwalk]
      refine walkAll_body s htype hbase (i + 1) cs hrest p' (hp'.trans hb) ?_
      refine hcomes.next hc ?_ rfl
      rw [← hbase, hnone, List.reverse_nil, List.nil_append]
    · have hpart : Node.outlastingPart base.isSome c = c.outlasting := if_neg hopen
      have hopens : ¬ n.OpensType c := by
        rintro (h | h)
        · rw [htype] at h
          cases h
        · exact hopen ⟨hbase.trans (decide_eq_true h.1), h.2⟩
      have hcalls : (c.metAddresses.map (i :: ·)).filterMap (n.callMade? s.line s.scopes b) =
          c.callsMade s.line s.scopes ⟨calls, scope :: outer, params⟩ := by
        rw [List.filterMap_map]
        exact List.filterMap_congr fun a _ => hcomes.callMade?_eq htype hc hopens s.line s.scopes a
      have hwalk := walkBody_body s c p hb
      have hnext (made : List Call) :
          b.ComesTo n (i + 1) ⟨made, (c.outlasting.reverse ++ scope) :: outer, params⟩ := by
        refine hcomes.next hc ?_ rfl
        rw [← hbase, hpart, List.flatten_cons, List.flatten_cons, List.append_assoc]
      rw [if_neg hopen, hpart, hcalls, walkAll_through s cs p hopen,
        walkAll_body s htype hbase (i + 1) cs hrest _ hwalk (hnext _)]
      simp only [List.reverse_append, List.append_assoc]
end

end Walk
end CallOrigins.Java
