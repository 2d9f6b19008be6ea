import CallOrigins.Proofs.Java.LexicalScope

/-!
# Variables without a written type

Where `var` stands in the place of a type, a variable has no written type. It then has that of the
object that is created for it or none at all, and nothing is known of a receiver that has none.

**The law** (`Outline.receiver_typed_var`): this holds of every declaration but that of parameters. So
a call has a receiver of the type `var` only if `var` is written as a type in the call itself or in the
creation for its variable, or if its variable is a field or a parameter that is written with `var`. Of
these the language knows the parameters of lambda expressions, and they are taken by the word
(`lambdaParameter_typed_var`).
-/

namespace CallOrigins.Java

open Index (token sign braced noParameters noArguments)

/-! ## Declarations with `var` -/

namespace Node

/-- The type that is written for the variables of a node, those of a lambda expression aside. -/
def declaredType? (n : Node) : Option String :=
  match n.kind with
  | .localVariableDeclaration | .fieldDeclaration => (n.child? .type).map erased
  | .enhancedForStatement | .resource | .catchFormalParameter | .instanceofExpression =>
    (writtenType? n).map erased
  | _ => none

/-- A variable has the type of the object that is created for it. -/
def CreatesFor (n : Node) (v : String × String) : Prop :=
  ∃ d ∈ n.childrenAs .declarator, ∃ name value type,
    d.child? .name = some name ∧ name.text = v.1 ∧ d.child? .value = some value ∧
      value.kind = .objectCreationExpression ∧ value.child? .type = some type ∧ type.erased = v.2

/-- A parameter of a method or of a lambda expression is written with `var`. -/
def WritesVarParameter (n : Node) (name : String) : Prop :=
  ∃ parameters, n.child? .parameters = some parameters ∧ ("var", name) ∈ Header.parameters parameters

variable {n : Node} {v : String × String} {name : String}

theorem inferredType_cases (d : Node) :
    inferredType d = "" ∨ ∃ value type, d.child? .value = some value ∧
      value.kind = .objectCreationExpression ∧ value.child? .type = some type ∧
        type.erased = inferredType d := by
  unfold inferredType
  cases hvalue : d.child? .value with
  | none => exact .inl rfl
  | some value =>
    dsimp only
    by_cases hkind : value.kind = .objectCreationExpression
    · rw [if_pos hkind]
      cases htype : value.child? .type with
      | none => exact .inl rfl
      | some type => exact .inr ⟨value, type, rfl, hkind, htype, rfl⟩
    · exact .inl (if_neg hkind)

/-- **A variable that is declared with `var`** has no type, or that of the object that is created for
it. -/
theorem type_of_var (h : n.declaredType? = some "var") (hv : v ∈ n.declares) :
    v.2 = "" ∨ n.CreatesFor v := by
  unfold declaredType? at h
  unfold declares at hv
  cases hkind : n.kind
  case localVariableDeclaration | fieldDeclaration =>
    simp only [hkind] at h hv
    obtain ⟨type, htype, herased⟩ := Option.map_eq_some_iff.1 h
    rw [declaredVariables, htype] at hv
    obtain ⟨d, hd, hv⟩ := List.mem_filterMap.1 hv
    obtain ⟨name, hname, rfl⟩ := Option.map_eq_some_iff.1 hv
    rw [herased]
    rcases inferredType_cases d with hnone | ⟨value, created, hvalue, hcreation, hcreated, hinferred⟩
    · exact .inl hnone
    · exact .inr ⟨d, hd, name, value, created, hname, rfl, hvalue, hcreation, hcreated, hinferred⟩
  case enhancedForStatement | resource | catchFormalParameter | instanceofExpression =>
    simp only [hkind] at h hv
    unfold ownVariable at hv
    rw [h] at hv
    cases hname : n.child? .name with
    | none =>
      rw [hname] at hv
      exact absurd hv List.not_mem_nil
    | some name =>
      rw [hname] at hv
      exact .inl (congrArg Prod.snd (List.mem_singleton.1 hv))
  all_goals
    simp only [hkind] at h
    cases h

/-- A lambda expression gives a parameter the type `var` only if it is written so. -/
theorem writesVarParameter_of_lambda (h : (name, "var") ∈ n.lambdaParameters) :
    n.WritesVarParameter name := by
  unfold lambdaParameters at h
  cases hparameters : n.child? .parameters with
  | none =>
    rw [hparameters] at h
    exact absurd h List.not_mem_nil
  | some ps =>
    rw [hparameters] at h
    dsimp only at h
    split at h
    next =>
      obtain ⟨p, hp, hswap⟩ := List.mem_map.1 h
      obtain rfl : p = ("var", name) := by rw [← Prod.swap_swap p, hswap]; rfl
      exact ⟨ps, hparameters, hp⟩
    next => simp at h
    next =>
      obtain ⟨p, -, hp⟩ := List.mem_map.1 h
      exact absurd (congrArg Prod.snd hp) (by simp)

theorem pointsToBrackets_eq {cs : List Char} (h : '[' ∉ Surroundings.pointsToBrackets cs) :
    Surroundings.pointsToBrackets cs = cs := by
  fun_induction Surroundings.pointsToBrackets cs with
  | case1 cs => exact absurd (.head _) h
  | case2 c cs _ ih => rw [ih fun hmem => h (.tail _ hmem)]
  | case3 => rfl

theorem variableType_eq_var {type : String} (h : Surroundings.variableType type = "var") :
    type = "var" := by
  have hchars : Surroundings.pointsToBrackets type.toList = "var".toList := by
    rw [← h, Surroundings.variableType, String.toList_ofList]
  have hnone : '[' ∉ Surroundings.pointsToBrackets type.toList := by
    rw [hchars]
    decide
  exact String.toList_inj.1 ((pointsToBrackets_eq hnone).symm.trans hchars)

/-- And so does a method. -/
theorem writesVarParameter_of_method (h : (name, "var") ∈ n.parameterVariables) :
    n.WritesVarParameter name := by
  unfold parameterVariables at h
  split at h
  next => exact absurd h List.not_mem_nil
  next =>
    obtain ⟨p, hp, hv⟩ := List.mem_map.1 h
    cases hparameters : n.child? .parameters with
    | none =>
      rw [hparameters] at hp
      exact absurd hp List.not_mem_nil
    | some ps =>
      rw [hparameters] at hp
      have htype := variableType_eq_var (congrArg Prod.snd hv)
      refine ⟨ps, hparameters, ?_⟩
      obtain rfl : p = ("var", name) := Prod.ext htype (congrArg Prod.fst hv)
      exact hp

/-- **What gives a variable the type `var`**: a parameter that is written so, or the creation of an
object of such a type. -/
theorem origin_of_var (h : (name, "var") ∈ n.declares) :
    n.kind = .lambdaExpression ∧ n.WritesVarParameter name ∨ n.CreatesFor (name, "var") := by
  by_cases hdeclared : n.declaredType? = some "var"
  · exact .inr ((type_of_var hdeclared h).resolve_left (by simp))
  · -- where another type is written, the variable has that one
    unfold declaredType? at hdeclared
    unfold declares at h
    cases hkind : n.kind
    case localVariableDeclaration | fieldDeclaration =>
      simp only [hkind] at h hdeclared
      unfold declaredVariables at h
      cases htype : n.child? .type with
      | none =>
        rw [htype] at h
        exact absurd h List.not_mem_nil
      | some type =>
        rw [htype] at h hdeclared
        have hne : type.erased ≠ "var" := fun heq => hdeclared (congrArg some heq)
        obtain ⟨d, -, h⟩ := List.mem_filterMap.1 h
        obtain ⟨_, -, hv⟩ := Option.map_eq_some_iff.1 h
        rw [if_neg (by simpa using hne)] at hv
        exact absurd (congrArg Prod.snd hv) hne
    case enhancedForStatement | resource | catchFormalParameter | instanceofExpression =>
      simp only [hkind] at h
      unfold ownVariable at h
      cases hname : n.child? .name with
      | none =>
        rw [hname] at h
        exact absurd h List.not_mem_nil
      | some name =>
        rw [hname] at h
        have hv := congrArg Prod.snd (List.mem_singleton.1 h)
        dsimp only at hv
        split at hv
        next => exact absurd hv.symm (by decide)
        next hne => exact absurd (beq_iff_eq.2 hv.symm) hne
    case lambdaExpression =>
      simp only [hkind] at h
      exact .inl ⟨rfl, writesVarParameter_of_lambda h⟩
    all_goals
      simp only [hkind] at h
      exact absurd h List.not_mem_nil

end Node

/-! ## Receivers that are variables -/

mutual
/-- The name of the variable that an expression is: a name, or a field of this object. -/
def Node.variableName? : Node → Option String
  | .leaf _ k t => if k = .identifier then some t.text else none
  | .branch r k parts =>
    let n := Node.branch r k parts
    match k with
    | .fieldAccess =>
      if (n.child? .object).map Node.kind = some .thisWord then (n.child? .field).map Node.text
      else none
    | .parenthesizedExpression => firstVariableName? parts
    | _ => none
/-- The name of the variable that the first named node is. -/
def firstVariableName? : List Node → Option String
  | [] => none
  | n :: ns => if n.isNamed then n.variableName? else firstVariableName? ns
end

/-- The variable that is the receiver of a call. -/
def Node.calledVariableName? (n : Node) : Option String :=
  match n.kind with
  | .methodInvocation => (n.child? .object).bind variableName?
  | .methodReference => n.children.head?.bind variableName?
  | _ => none

section Receivers

variable {scopes : List TypeScope} {b : Body} {type : String}

/-- Where no type parameters are known, no less is known of a variable. -/
theorem Receiver.ofVariable_typed {declared : String}
    (h : ofVariable scopes b declared = .typed type) :
    declared = type ∧ ofVariable [] ⟨[], [], []⟩ declared = .typed type := by
  unfold ofVariable at h ⊢
  dsimp only at h ⊢
  split at h
  next => cases h
  next hnot =>
    cases h
    simp only [Bool.or_eq_true, not_or] at hnot
    refine ⟨rfl, if_neg ?_⟩
    simp only [List.contains_nil, List.any_nil, Bool.or_self, Bool.false_or, Bool.or_eq_true, not_or]
    exact ⟨hnot.1.2, hnot.2⟩

theorem Receiver.ofName_typed {name : String} (h : ofName scopes b name = .typed type) :
    ofName [] ⟨[], [], []⟩ name = .typed type ∨
      b.local? name = some type ∨ field? scopes name = some type := by
  unfold ofName at h
  cases hlocal : b.local? name with
  | some declared =>
    rw [hlocal] at h
    exact .inr (.inl (by rw [(ofVariable_typed h).1]))
  | none =>
    rw [hlocal] at h
    cases hfield : field? scopes name with
    | some declared =>
      rw [hfield] at h
      exact .inr (.inr (by rw [(ofVariable_typed h).1]))
    | none =>
      rw [hfield] at h
      exact .inl h

theorem Receiver.ofAccess_typed {n : Node} (h : ofAccess scopes b n = .typed type) :
    ofAccess [] ⟨[], [], []⟩ n = .typed type ∨
      (n.child? .object).map Node.kind = some .thisWord ∧
        ∃ field, n.child? .field = some field ∧ field? scopes field.text = some type := by
  unfold ofAccess at h ⊢
  cases hobject : n.child? .object with
  | none =>
    rw [hobject] at h
    cases h
  | some object =>
    cases hfield : n.child? .field with
    | none =>
      rw [hobject, hfield] at h
      cases h
    | some field =>
      rw [hobject, hfield] at h
      dsimp only at h ⊢
      by_cases houter : field.kind = .thisWord
      · rw [if_pos houter] at h ⊢
        exact .inl h
      · rw [if_neg houter] at h ⊢
        by_cases hthis : object.kind = .thisWord
        · rw [if_pos hthis] at h
          cases hdeclared : field? scopes field.text with
          | none =>
            rw [hdeclared] at h
            cases h
          | some declared =>
            rw [hdeclared] at h
            refine .inr ⟨congrArg some hthis, field, rfl, ?_⟩
            rw [hdeclared, (ofVariable_typed h).1]
        · rw [if_neg hthis] at h ⊢
          exact .inl h

-- The induction is on the expression: what stands in parentheses is looked through.
mutual
/-- **The type of a receiver** is told by the expression alone, or it is that of a variable. -/
theorem receiverOf_typed (n : Node) (h : receiverOf scopes b n = .typed type) :
    receiverOf [] ⟨[], [], []⟩ n = .typed type ∨
      ∃ name, n.variableName? = some name ∧
        (b.local? name = some type ∨ field? scopes name = some type) := by
  match n with
  | .leaf r k t =>
    cases k
    case identifier =>
      rcases Receiver.ofName_typed h with h | h
      · exact .inl h
      · exact .inr ⟨t.text, rfl, h⟩
    all_goals exact .inl h
  | .branch r k parts =>
    cases k
    case fieldAccess =>
      rcases Receiver.ofAccess_typed h with h | ⟨hthis, field, hfield, h⟩
      · exact .inl h
      · refine .inr ⟨field.text, ?_, .inr h⟩
        rw [Node.variableName?]
        exact (if_pos hthis).trans (by rw [hfield]; rfl)
    case castExpression =>
      rw [receiverOf] at h ⊢
      cases htype : (Node.branch r .castExpression parts).child? .type with
      | none =>
        rw [htype] at h
        cases h
      | some written =>
        rw [htype] at h
        exact .inl (Receiver.ofVariable_typed h).2
    case parenthesizedExpression => exact receiverOfFirst_typed parts h
    all_goals exact .inl h
theorem receiverOfFirst_typed (ns : List Node) (h : receiverOfFirst scopes b ns = .typed type) :
    receiverOfFirst [] ⟨[], [], []⟩ ns = .typed type ∨
      ∃ name, firstVariableName? ns = some name ∧
        (b.local? name = some type ∨ field? scopes name = some type) := by
  match ns with
  | [] => cases h
  | n :: ns =>
    rw [receiverOfFirst] at h
    rw [receiverOfFirst, firstVariableName?]
    by_cases hnamed : n.isNamed = true
    · rw [if_pos hnamed] at h
      rw [if_pos hnamed, if_pos hnamed]
      exact receiverOf_typed n h
    · rw [if_neg hnamed] at h
      rw [if_neg hnamed, if_neg hnamed]
      exact receiverOfFirst_typed ns h
end

/-- **A call tells the type of its receiver by itself**, whatever variables there are around it. -/
def Node.TellsReceiver (n : Node) (type : String) : Prop :=
  ∃ line c, call? line [] ⟨[], [], []⟩ n = some c ∧ c.receiver = .typed type

theorem tellsReceiver_or_variable {line : Nat → Nat} {n : Node} {c : Call}
    (h : call? line scopes b n = some c) (htyped : c.receiver = .typed type) :
    n.TellsReceiver type ∨
      ∃ name, n.calledVariableName? = some name ∧
        (b.local? name = some type ∨ field? scopes name = some type) := by
  unfold Node.TellsReceiver Node.calledVariableName?
  unfold call? at h ⊢
  cases hkind : n.kind
  case methodInvocation =>
    simp only [hkind] at h ⊢
    cases hname : n.child? .name with
    | none =>
      rw [hname] at h
      cases h
    | some name =>
      rw [hname] at h
      cases hobject : n.child? .object with
      | none =>
        rw [hobject] at h
        cases h
        cases htyped
      | some object =>
        rw [hobject] at h
        cases h
        exact (receiverOf_typed object htyped).imp (fun h => ⟨line, _, rfl, h⟩) id
  case objectCreationExpression =>
    simp only [hkind] at h ⊢
    exact .inl ⟨line, c, h, htyped⟩
  case explicitConstructorInvocation =>
    simp only [hkind] at h ⊢
    exact .inl ⟨line, c, h, htyped⟩
  case methodReference =>
    simp only [hkind] at h ⊢
    cases hqualifier : n.children.head? with
    | none =>
      rw [hqualifier] at h
      cases h
    | some qualifier =>
      cases hname : referredName? n with
      | none =>
        rw [hqualifier, hname] at h
        cases h
      | some name =>
        rw [hqualifier, hname] at h
        cases h
        by_cases htype : qualifier.kind.isType = true
        · refine .inl ⟨line, _, rfl, ?_⟩
          change (if _ then _ else _) = _ at htyped ⊢
          rw [if_pos htype] at htyped ⊢
          exact (Receiver.ofVariable_typed htyped).2
        · change (if _ then _ else _) = _ at htyped
          rw [if_neg htype] at htyped
          refine (receiverOf_typed qualifier htyped).imp (fun h => ⟨line, _, rfl, ?_⟩) id
          exact (if_neg htype).trans h
  all_goals
    simp only [hkind] at h
    cases h

end Receivers

/-! ## The calls of a file -/

/-- **The variable of a call is of the type `var`**: it is declared so in the method at `a`, by a
parameter around the call at `q` that is written with `var`, or before the call with the creation of
such an object, or it is a field of such a type. -/
def Node.HasVarAround (root : Node) (a q : Address) (name : String) : Prop :=
  (∃ own outer d n, root.layers q = .code own :: outer ∧ own.lookup name = some "var" ∧
    a <+: d ∧ root.at? d = some n ∧
      (d <+: q ∧ (n.kind = .lambdaExpression ∨ d = a) ∧ n.WritesVarParameter name ∨
        d < q ∧ n.CreatesFor (name, "var"))) ∨
  ∃ known ∈ root.typesAround a, known.1.lookup name = some "var"

/-- What is seen with the type `var` in a body. -/
theorem Node.origin_of_visible {body : Node} {below : Address} {name : String}
    (h : (name, "var") ∈ body.visible below) :
    ∃ d n, body.at? d = some n ∧
      (d <+: below ∧ n.kind = .lambdaExpression ∧ n.WritesVarParameter name ∨
        d < below ∧ n.CreatesFor (name, "var")) := by
  obtain ⟨d, hd, hdeclared⟩ := List.mem_flatMap.1 h
  have hsees : body.Sees below d := of_decide_eq_true (List.mem_filter.1 hd).2
  unfold declaresAt at hdeclared
  cases hn : body.at? d with
  | none =>
    rw [hn] at hdeclared
    exact absurd hdeclared List.not_mem_nil
  | some n =>
    rw [hn] at hdeclared
    refine ⟨d, n, hn, (origin_of_var hdeclared).imp ?_ fun h => ⟨hsees.1, h⟩⟩
    rintro ⟨hkind, hwritten⟩
    -- a lambda expression is a block of its own, so it is around what sees its parameters
    refine ⟨hsees.2 d ((List.mem_inits d d).2 (List.prefix_refl d)) ?_, hkind, hwritten⟩
    rw [opensBlockAt, hn, Option.any_some, hkind]
    rfl

/-- A variable of the type `var` in the code of a method is declared there. -/
theorem MethodAt.hasVarAround {line : Nat → Nat} {root n body : Node} {a below : Address} {i : Nat}
    {m : MethodDecl} {scopes : List TypeScope} {name : String} {own : List (String × String)}
    {outer : List Layer} (h : MethodAt line root a m n scopes) (hbody : n.parts[i]? = some body)
    (hlayers : root.layers (a ++ i :: below) = .code own :: outer)
    (hlookup : own.lookup name = some "var")
    (hown : own = (body.visible below).reverse ++ n.parameterVariables.reverse) :
    root.HasVarAround a (a ++ i :: below) name := by
  obtain ⟨front, back, hsplit, -⟩ := List.lookup_eq_some_iff.1 hlookup
  have hmem : (name, "var") ∈ (body.visible below).reverse ++ n.parameterVariables.reverse := by
    rw [← hown, hsplit]
    exact List.mem_append_right _ (.head _)
  rcases List.mem_append.1 hmem with hmem | hmem
  · obtain ⟨d, x, hx, horigin⟩ := Node.origin_of_visible (List.mem_reverse.1 hmem)
    refine .inl ⟨own, outer, a ++ i :: d, x, hlayers, hlookup, List.prefix_append a _, ?_,
      horigin.imp ?_ ?_⟩
    · rw [Node.at?_append_of_at? h.node, Node.at?_cons_of_part hbody, hx]
    · rintro ⟨haround, hkind, hwritten⟩
      refine ⟨?_, .inl hkind, hwritten⟩
      exact (List.prefix_append_right_inj a).2 ((List.prefix_cons_inj i).2 haround)
    · rintro ⟨hlt, hcreates⟩
      exact ⟨List.append_left_lt (List.cons_lt_cons_iff.2 (.inr ⟨rfl, hlt⟩)), hcreates⟩
  · have hwritten := Node.writesVarParameter_of_method (List.mem_reverse.1 hmem)
    exact .inl ⟨own, outer, a, n, hlayers, hlookup, List.prefix_refl a, h.node,
      .inl ⟨List.prefix_append a _, .inr rfl, hwritten⟩⟩

/-- **Variables without a written type.** A variable that is declared with `var` has the type of the
object that is created for it, or none. In the calls of an outline, nothing is known of a receiver
that has none. A receiver has the type `var` only if the call tells so by itself, or if its variable
has this type. -/
theorem Outline.receiver_typed_var (line : Nat → Nat) (root : Node) :
    (∀ (n : Node) (v : String × String), n.declaredType? = some "var" → v ∈ n.declares →
      v.2 = "" ∨ n.CreatesFor v) ∧
    ∃ sites : List Address,
      List.Forall₂
        (fun a m => root.DeclaresMethod a m ∧
          ∃ calls : List Address, calls.Pairwise (· < ·) ∧ (∀ q, q ∈ calls ↔ root.OwnsCall a q) ∧
            List.Forall₂ (fun q c => ∃ call own outer, root.at? q = some call ∧
              root.layers q = .code own :: outer ∧
              (∀ name, call.receiverName? = some name → own.lookup name = some "" →
                c.receiver = .unknown) ∧
              (c.receiver = .typed "var" → call.TellsReceiver "var" ∨
                ∃ name, call.calledVariableName? = some name ∧ root.HasVarAround a q name))
              calls m.calls)
        sites (ofTree line root).methods.toList ∧
      sites.Pairwise (· < ·) := by
  refine ⟨fun n v => Node.type_of_var, forall_calls line root (fun a b h => h.1) ?_⟩
  rintro a m n scopes q c h ⟨i, body, below, call, -, hbody, rfl, hcall, hpasses, hmade⟩
  obtain ⟨outer, hlayers, hreceiver⟩ := h.exists_layers hbody hcall hpasses hmade
  have hat : root.at? (a ++ i :: below) = some call := by
    rw [Node.at?_append_of_at? h.node, Node.at?_cons_of_part hbody, hcall]
  refine ⟨call, _, outer, hat, hlayers, fun name hname hdeclared => ?_, fun htyped => ?_⟩
  · rw [hreceiver name hname, Layer.type?_cons, Layer.declared, hdeclared, Option.some_or]
    simp [Receiver.ofDeclared]
  · refine (tellsReceiver_or_variable hmade htyped).imp id ?_
    rintro ⟨name, hname, hlocal | hfield⟩
    · refine ⟨name, hname, h.hasVarAround hbody hlayers ?_ rfl⟩
      simpa [Body.local?_eq, Body.seeing, Node.openingBody] using hlocal
    · obtain ⟨scope, hscope, hlookup⟩ := List.exists_of_findSome?_eq_some hfield
      refine ⟨name, hname, .inr ⟨scope.known, ?_, hlookup⟩⟩
      rw [← h.types]
      exact List.mem_map_of_mem hscope

/-- A call of a method of `x`. -/
def fooCall : Node :=
  .branch (some .body) .methodInvocation [
    token (some .object) .identifier " " "x" 38,
    sign "" "." 39,
    token (some .name) .identifier "" "foo" 40,
    noArguments 43]

/-- A class with a method that has a lambda expression, whose parameter `x` is written with `var`. -/
def lambdaTree : Node :=
  .branch none .program [
    .branch none .classDeclaration [
      sign "" "class" 0,
      token (some .name) .identifier " " "A" 6,
      braced .classBody 8 [
        .branch none .methodDeclaration [
          token (some .type) .voidType " " "void" 10,
          token (some .name) .identifier " " "f" 15,
          noParameters 16,
          braced .block 19 [
            .branch none .localVariableDeclaration [
              token (some .type) .typeIdentifier " " "C" 21,
              .branch (some .declarator) .variableDeclarator [
                token (some .name) .identifier " " "c" 23,
                sign " " "=" 25,
                .branch (some .value) .lambdaExpression [
                  .branch (some .parameters) .formalParameters [
                    sign " " "(" 27,
                    .branch none .formalParameter [
                      token (some .type) .typeIdentifier "" "var" 28,
                      token (some .name) .identifier " " "x" 32],
                    sign "" ")" 33],
                  sign " " "->" 35,
                  fooCall]],
              sign "" ";" 45]] 47]] 49]]

/-- **The parameter of a lambda expression is taken to be of the type `var`**: so is the receiver of
the call in `class A { void f() { C c = (var x) -> x.foo(); } }`, which does not tell so by itself. -/
theorem lambdaParameter_typed_var :
    ∃ m c q, m ∈ (Outline.ofTree (fun _ => 1) lambdaTree).methods.toList ∧ c ∈ m.calls ∧
      lambdaTree.at? q = some fooCall ∧ fooCall.Makes c ∧ ¬ fooCall.TellsReceiver "var" ∧
      c.receiver = .typed "var" := by
  have hcall : call? (fun _ => 1) [⟨0, [("x", "var")], []⟩] ⟨[], [], []⟩ fooCall =
      some ⟨.method, "foo", .typed "var", some 0, 40, 5, 1⟩ := by
    decide +kernel
  refine ⟨⟨⟨"A#f()"⟩, 0, 10, 48, 1, 1, [⟨.method, "foo", .typed "var", some 0, 40, 5, 1⟩]⟩, _,
    [0, 2, 1, 3, 1, 1, 2, 2], ?_, .head _, rfl, Node.makes_of_call? hcall, ?_, rfl⟩
  · exact List.mem_of_getElem? (i := 0) (by decide +kernel)
  · rintro ⟨line, c, hc, hreceiver⟩
    have hunknown : c.receiver = .unknown := by
      obtain rfl := Option.some.inj hc
      rfl
    rw [hunknown] at hreceiver
    cases hreceiver

end CallOrigins.Java
