import CallOrigins.Proofs.Java.Attribution

/-!
# Names as receivers

A receiver that is a simple name is a variable, if one of this name is declared around the call. What
is declared around a place is layered (`Node.layers`): the code of a member is a layer, with the
variables that are seen from the place, and so are the fields of every type. A type may stand in code,
so layers of both kinds alternate.

**The law** (`Outline.receiver_of_name`): the type of the receiver is that of the first variable of
this name in the innermost code or, if there is none, in the fields of the types around it, the
innermost first. This is the first one in all the layers, unless the name is declared by code further
out: the variables of such code are passed over (`outerParameter_passed_over`).

What is seen is told by blocks alone (`Node.Sees`), which is not quite the scope that the language
gives to a declaration (`Node.Covers`). The groups of a switch are apart from each other, the variable
of a loop is seen in what the loop goes over, that of a resource in the clauses of its try, that of a
test up to the end of the block, and a variable in all of its declaration. The receiver is of the type
that the scopes give to its name, where no declaration of the name strays in one of these ways
(`Node.Strays`).
-/

namespace CallOrigins.Java

open Index (token sign braced noParameters noArguments)

/-! ## Scopes -/

/-- The kinds of nodes with variables in the head that are known in the body. -/
def Kind.hasHead : Kind → Bool
  | .enhancedForStatement | .lambdaExpression | .catchClause | .tryWithResourcesStatement => true
  | _ => false

namespace Node

/-- **Where the scope of what is declared in a node ends**, if it ends with a node: with the node, or
with the whole switch for what is declared in a group of it. -/
def scopeEnd? (n : Node) (e : Address) : Option Address :=
  (n.at? e).bind (fun m =>
    match m.kind with
    | .block | .forStatement | .enhancedForStatement | .catchClause | .lambdaExpression
    | .tryWithResourcesStatement | .switchRule => some e
    | .switchBlockStatementGroup => some e.dropLast
    | _ => none)

/-- A part of a node with a head is neither the body nor the part with the declaration. -/
def IsAside (n : Node) (decl e : Address) : Prop :=
  e.dropLast <+: decl ∧ ¬ e <+: decl ∧ (n.at? e.dropLast).any (fun m => m.kind.hasHead) = true ∧
    (n.at? e).bind role ≠ some .body

instance (n : Node) (decl : Address) : DecidablePred (n.IsAside decl) :=
  fun _ => inferInstanceAs (Decidable (_ ∧ _))

/-- **The scope of a declaration has a place in it.** -/
def Covers (n : Node) (place decl : Address) : Prop :=
  decl < place ∧ (∀ e ∈ decl.inits, ∀ last ∈ n.scopeEnd? e, last <+: place) ∧
    ∀ e ∈ place.inits, ¬ n.IsAside decl e

instance (n : Node) (place : Address) : DecidablePred (n.Covers place) :=
  fun _ => inferInstanceAs (Decidable (_ ∧ _))

/-- A node up to one of its parts. -/
def upTo (n : Node) (i : Nat) : Node :=
  .branch n.role n.kind (n.parts.take (i + 1))

/-- **The variables of a declaration** that are known at a place in its scope: in the declaration
itself, those up to the part with the place. Those of tests are left out, as their scope follows the
flow of control. -/
def declaredFor (n : Node) (place decl : Address) : List (String × String) :=
  (n.at? decl).elim [] (fun m =>
    if m.kind = .instanceofExpression then []
    else if decl <+: place then (m.upTo (place.getD decl.length 0)).declares
    else m.declares)

/-- **The variables in whose scope a place is**, as they are declared. -/
def inScope (n : Node) (place : Address) : List (String × String) :=
  (n.metAddresses.filter (fun decl => n.Covers place decl)).flatMap (n.declaredFor place)

/-- **A declaration of a name strays from its scope** to a place, or the place from the scope. -/
inductive Strays (n : Node) (place decl : Address) (name : String) : Prop where
  /-- The place is in another group of the same switch. -/
  | group (e : Address) (declares : name ∈ (n.declaresAt decl).map Prod.fst) (around : e <+: decl)
    (kind : (n.at? e).any (fun m => m.kind = .switchBlockStatementGroup) = true)
    (switch : e.dropLast <+: place) (other : ¬ e <+: place)
  /-- The place is in what a loop goes over, or in a clause of a try with resources. -/
  | head (e : Address) (declares : name ∈ (n.declaresAt decl).map Prod.fst)
    (sees : n.Sees place decl) (around : e <+: place) (aside : n.IsAside decl e)
  /-- The declaration is a test. -/
  | test (m : Node) (declares : name ∈ (n.declaresAt decl).map Prod.fst)
    (sees : n.Sees place decl) (node : n.at? decl = some m) (kind : m.kind = .instanceofExpression)
  /-- The place is in the declaration, in front of the variable. -/
  | later (m : Node) (node : n.at? decl = some m) (inside : decl <+: place)
    (differ : (m.upTo (place.getD decl.length 0)).declares.reverse.lookup name ≠
      m.declares.reverse.lookup name)

section Agreement

variable {n : Node} {place decl : Address} {name : String}

/-- A scope ends with each block that a walk opens, but for the groups of a switch. -/
theorem scopeEnd?_eq (n : Node) (e : Address) :
    n.scopeEnd? e = if n.opensBlockAt e = true then
      some (if (n.at? e).any (fun m => m.kind = .switchBlockStatementGroup) = true then e.dropLast
        else e)
      else none := by
  unfold scopeEnd? opensBlockAt
  cases n.at? e with
  | none => rfl
  | some m =>
    rw [Option.bind_some, Option.any_some, Option.any_some]
    generalize m.kind = k
    cases k <;> rfl

/-- What is seen is in scope, unless the place is aside. -/
theorem Sees.covers (h : n.Sees place decl) (haside : ∀ e, e <+: place → ¬ n.IsAside decl e) :
    n.Covers place decl := by
  refine ⟨h.1, fun e he last hlast => ?_, fun e he => haside e ((List.mem_inits e place).1 he)⟩
  rw [scopeEnd?_eq] at hlast
  by_cases hopens : n.opensBlockAt e = true
  · have haround := h.2 e he hopens
    rw [if_pos hopens] at hlast
    split at hlast
    · cases hlast
      exact (List.dropLast_prefix e).trans haround
    · cases hlast
      exact haround
  · rw [if_neg hopens] at hlast
    cases hlast

/-- What is in scope is seen, unless the place is in another group of a switch. -/
theorem Covers.sees (h : n.Covers place decl)
    (hgroup : ∀ e, e <+: decl → (n.at? e).any (fun m => m.kind = .switchBlockStatementGroup) = true →
      e.dropLast <+: place → e <+: place) : n.Sees place decl := by
  refine ⟨h.1, fun e he hopens => ?_⟩
  have hend := h.2.1 e he
  rw [scopeEnd?_eq, if_pos hopens] at hend
  split at hend
  next hkind => exact hgroup e ((List.mem_inits e decl).1 he) hkind (hend _ rfl)
  next => exact hend _ rfl

/-- Where no declaration strays, each one gives the same variable of the name. -/
theorem lookup_declaredFor (h : ¬ n.Strays place decl name) :
    (if n.Covers place decl then (n.declaredFor place decl).reverse.lookup name else none) =
      if n.Sees place decl then (n.declaresAt decl).reverse.lookup name else none := by
  have hnone : name ∉ (n.declaresAt decl).map Prod.fst →
      (n.declaresAt decl).reverse.lookup name = none := by
    intro hname
    refine List.lookup_eq_none_iff.2 fun v hv => bne_iff_ne.2 ?_
    rintro rfl
    exact hname (List.mem_map_of_mem (List.mem_reverse.1 hv))
  have hsame : (name ∈ (n.declaresAt decl).map Prod.fst → n.Sees place decl) →
      (n.declaredFor place decl).reverse.lookup name = (n.declaresAt decl).reverse.lookup name := by
    intro hsees
    cases hm : n.at? decl with
    | none => simp [declaredFor, declaresAt, hm]
    | some m =>
      rw [declaredFor, hm, Option.elim_some]
      split
      next hkind =>
        exact (hnone fun hname => h (.test m hname (hsees hname) hm hkind)).symm
      next =>
        rw [declaresAt, hm, Option.elim_some]
        split
        next hinside =>
          by_contra hdiffer
          exact h (.later m hm hinside hdiffer)
        next => rfl
  by_cases hname : name ∈ (n.declaresAt decl).map Prod.fst
  · have hiff : n.Covers place decl ↔ n.Sees place decl := by
      refine ⟨fun hcovers => hcovers.sees fun e he hkind hswitch => ?_,
        fun hsees => hsees.covers fun e he haside => h (.head e hname hsees he haside)⟩
      by_contra hother
      exact h (.group e hname he hkind hswitch hother)
    simp only [hiff]
    split
    next hsees => exact hsame fun _ => hsees
    next => rfl
  · rw [hsame fun h => absurd h hname, hnone hname, ite_self, ite_self]

/-- **Where no declaration of a name strays**, the last one that is seen is the last one in scope. -/
theorem lookup_inScope (h : ∀ decl ∈ n.metAddresses, ¬ n.Strays place decl name) :
    (n.inScope place).reverse.lookup name = (n.visible place).reverse.lookup name := by
  unfold inScope visible
  generalize n.metAddresses = decls at h
  induction decls with
  | nil => rfl
  | cons decl decls ih =>
    have hstep : ∀ (P : Address → Prop) [DecidablePred P] (f : Address → List (String × String)),
        (((decl :: decls).filter P).flatMap f).reverse.lookup name =
          (((decls.filter P).flatMap f).reverse.lookup name).or
            (if P decl then (f decl).reverse.lookup name else none) := by
      intro P _ f
      by_cases hP : P decl <;> simp [hP, List.lookup_append]
    rw [hstep, hstep, ih fun d hd => h d (.tail _ hd), lookup_declaredFor (h decl (.head _))]

end Agreement
end Node

/-! ## Layers -/

/-- **A layer of variables around a place**: those of the code of a member, the latest one first, or
the fields of a type. -/
inductive Layer where
  | code (declared : List (String × String))
  | fields (declared : List (String × String))

namespace Layer

def declared : Layer → List (String × String)
  | code vs | fields vs => vs

def isCode : Layer → Bool
  | code _ => true
  | fields _ => false

/-- The type of the first variable of a name, layer by layer. -/
def type? (layers : List Layer) (name : String) : Option String :=
  layers.findSome? (fun l => l.declared.lookup name)

theorem type?_cons (l : Layer) (layers : List Layer) (name : String) :
    type? (l :: layers) name = (l.declared.lookup name).or (type? layers name) := by
  rw [type?, List.findSome?_cons, type?]
  cases l.declared.lookup name <;> rfl

/-- **Code that does not declare a name makes no difference to it.** -/
theorem type?_filter {layers : List Layer} {name : String}
    (h : ∀ l ∈ layers, l.isCode = true → l.declared.lookup name = none) :
    type? (layers.filter (fun l => !l.isCode)) name = type? layers name := by
  induction layers with
  | nil => rfl
  | cons l layers ih =>
    have ih := ih fun l hl => h l (.tail _ hl)
    by_cases hcode : l.isCode = true
    · rw [List.filter_cons_of_neg (by simp [hcode]), ih, type?_cons, h l (.head _) hcode,
        Option.none_or]
    · rw [List.filter_cons_of_pos (by simpa using hcode), type?_cons, type?_cons, ih]

end Layer

/-- What is known at a place in some code: what is seen from it, or what is in scope. -/
abbrev View := Node → Address → List (String × String)

/-- The variables of the code of a member that are known at an address in one of its parts. Those of
a method are known in its body, with its parameters around them. -/
def Node.codeVariables (view : View) (n : Node) (i : Nat) (part : Node) (place : Address) :
    List (String × String) :=
  if n.kind.declaresMethod then (view part place).reverse ++ n.parameterVariables.reverse
  else (view n (i :: place)).reverse

namespace Standing

variable (view : View)

/-- The layer that is entered with a part of a node: that of a type with its body, and that of a
member with its code. -/
def layer? (st : Standing) (n : Node) (i : Nat) (part : Node) (place : Address) : Option Layer :=
  match st.opened? n part with
  | some known => some (.fields known.1)
  | none =>
    if st = .member ∧ n.kind ≠ .enumBodyDeclarations then
      some (.code (n.codeVariables view i part place))
    else none

/-- The layers on the way to an address, the innermost first. -/
def layersAlong (st : Standing) (n : Node) : Address → List Layer
  | [] => []
  | i :: a =>
    match n.parts[i]? with
    | none => []
    | some c => (st.next n c).layersAlong c a ++ (st.layer? view n i c a).toList

variable {n m c : Node} {a : Address} {i : Nat}

theorem layersAlong_cons (st : Standing) (hc : n.parts[i]? = some c) (a : Address) :
    st.layersAlong view n (i :: a) =
      (st.next n c).layersAlong view c a ++ (st.layer? view n i c a).toList := by
  rw [layersAlong.eq_def]
  simp only [hc]

/-- In code, types are opened by what opens a type. -/
theorem opened?_code (h : ¬ n.OpensType c) : code.opened? n c = none := by
  rw [Node.OpensType, not_or] at h
  unfold opened?
  simp [h.1, h.2]

/-- The members of a type enter fields only, and so does code. -/
theorem toList_layer? (st : Standing) (n : Node) (i : Nat) (c : Node) (a : Address) :
    (st.layer? view n i c a).toList.filter (fun l => !l.isCode) =
      (st.opened? n c).toList.map (fun known => .fields known.1) := by
  unfold layer?
  cases st.opened? n c with
  | some known => rfl
  | none =>
    dsimp only
    split <;> rfl

/-- **Where no type is entered, code is one layer.** -/
theorem layersAlong_code (hm : n.at? a = some m) (h : ¬ n.Passes Node.OpensType a) :
    code.layersAlong view n a = [] := by
  induction a generalizing n with
  | nil => rfl
  | cons i a ih =>
    obtain ⟨c, hc, hm⟩ := Option.bind_eq_some_iff.1 hm
    rw [Node.passes_cons hc, not_or] at h
    have hopened := opened?_code h.1
    have hnext : code.next n c = .code := by
      unfold next
      rw [hopened]
      rfl
    have hlayer : code.layer? view n i c a = none := by
      unfold layer?
      rw [hopened]
      rfl
    rw [layersAlong_cons view code hc, hnext, hlayer, ih hm h.2]
    rfl

/-- **The layers around a call**: first the code of its method, and then those around the method, of
which the fields are those of the types around it. -/
theorem layersAlong_method (st : Standing) {root body : Node} {below : Address}
    (hn : root.at? a = some n) (hstanding : st.along root a = .member)
    (hkind : n.kind.declaresMethod = true) (hbody : n.parts[i]? = some body)
    (hm : body.at? below = some m) (hopens : ¬ body.Passes Node.OpensType below) :
    ∃ outer : List Layer,
      st.layersAlong view root (a ++ i :: below) =
        .code ((view body below).reverse ++ n.parameterVariables.reverse) :: outer ∧
      outer.filter (fun l => !l.isCode) =
        (st.typesAlong root a).map (fun known => .fields known.1) := by
  induction a generalizing st root with
  | nil =>
    cases hn
    obtain rfl : st = .member := hstanding
    have hopened : member.opened? n body = none := by
      unfold opened?
      generalize n.kind = k at hkind
      cases k <;> first | rfl | cases hkind
    have hdeclarations : n.kind ≠ .enumBodyDeclarations := by
      intro h
      rw [h] at hkind
      cases hkind
    have hnext : member.next n body = .code := by
      unfold next
      rw [hopened, Option.isSome_none, if_neg (by simp)]
      exact if_neg hdeclarations
    have hlayer : member.layer? view n i body below =
        some (.code ((view body below).reverse ++ n.parameterVariables.reverse)) := by
      unfold layer? Node.codeVariables
      rw [hopened, if_pos hkind]
      exact if_pos ⟨rfl, hdeclarations⟩
    refine ⟨[], ?_, rfl⟩
    rw [List.nil_append, layersAlong_cons view member hbody, hnext, hlayer,
      layersAlong_code view hm hopens]
    rfl
  | cons j a ih =>
    obtain ⟨c, hc, hn⟩ := Option.bind_eq_some_iff.1 hn
    rw [along_cons st hc] at hstanding
    obtain ⟨outer, houter, hfields⟩ := ih (st.next root c) hn hstanding
    refine ⟨outer ++ (st.layer? view root j c (a ++ i :: below)).toList, ?_, ?_⟩
    · rw [List.cons_append, layersAlong_cons view st hc, houter, List.cons_append]
    · rw [List.filter_append, hfields, toList_layer?, typesAlong_cons st hc, List.map_append]

end Standing

/-- **The layers of variables around an address of a file**, the innermost first. -/
def Node.layers (root : Node) (a : Address) : List Layer :=
  Standing.whole.layersAlong Node.visible root a

/-- **The layers of variables in whose scope an address is**, the innermost first. -/
def Node.scopeLayers (root : Node) (a : Address) : List Layer :=
  Standing.whole.layersAlong Node.inScope root a

/-! ## Receivers -/

namespace Receiver

/-- **A name as a receiver**, by the type of the variable of this name. Nothing is known where it has
none, of an array, and of a type parameter. A name that is not declared is that of a type, if it
starts with a capital. -/
def ofDeclared (typeParameters : List String) (name : String) (declared : Option String) : Receiver :=
  match declared with
  | none => if startsUppercase name then .typed name else .unknown
  | some type =>
    if typeParameters.contains type || type.toList.contains '[' || type.isEmpty then .unknown
    else .typed type

theorem ofName_eq (scopes : List TypeScope) (b : Body) (name : String) :
    ofName scopes b name =
      ofDeclared (b.typeParameters ++ (scopes.map TypeScope.known).flatMap Prod.snd) name
        (Layer.type? (.code b.locals.flatten ::
          (scopes.map TypeScope.known).map (fun known => .fields known.1)) name) := by
  have hfields : Layer.type? ((scopes.map TypeScope.known).map (fun known => .fields known.1)) name =
      field? scopes name := by
    rw [Layer.type?, field?, List.map_map, List.findSome?_map]
    rfl
  have hvariable : ∀ type, ofVariable scopes b type =
      ofDeclared (b.typeParameters ++ (scopes.map TypeScope.known).flatMap Prod.snd) name
        (some type) := by
    intro type
    have hparameters : (b.typeParameters.contains type ||
        scopes.any (fun s => s.typeParameters.contains type)) =
          (b.typeParameters ++ (scopes.map TypeScope.known).flatMap Prod.snd).contains type := by
      rw [List.contains_append, List.flatMap_map, List.contains_flatMap]
      rfl
    rw [ofVariable, ofDeclared, hparameters]
  rw [ofName, Body.local?_eq, Layer.type?_cons, hfields, Layer.declared]
  cases b.locals.flatten.lookup name with
  | some type => exact hvariable type
  | none =>
    cases field? scopes name with
    | some type => exact hvariable type
    | none => rfl

end Receiver

/-- The text of an expression that is a simple name. -/
def Node.simpleName? : Node → Option String
  | .leaf _ k t => if k = .identifier then some t.text else none
  | .branch _ _ _ => none

/-- **The simple name that the receiver of a call is written as.** -/
def Node.receiverName? (n : Node) : Option String :=
  match n.kind with
  | .methodInvocation => (n.child? .object).bind simpleName?
  | .methodReference => n.children.head?.bind simpleName?
  | _ => none

section Call

variable {line : Nat → Nat} {scopes : List TypeScope} {b : Body} {n : Node} {c : Call} {name : String}

theorem Node.exists_of_simpleName? (h : n.simpleName? = some name) :
    ∃ r t, n = .leaf r .identifier t ∧ t.text = name := by
  cases n with
  | branch => cases h
  | leaf r k t =>
    rw [simpleName?] at h
    split at h
    next hkind =>
      cases h
      exact ⟨r, t, by rw [hkind], rfl⟩
    next => cases h

/-- The receiver of a call is what its name stands for. -/
theorem receiver_of_call? (h : call? line scopes b n = some c) (hname : n.receiverName? = some name) :
    c.receiver = .ofName scopes b name := by
  unfold Node.receiverName? at hname
  unfold call? at h
  cases hkind : n.kind
  case methodInvocation =>
    simp only [hkind] at h hname
    obtain ⟨object, hobject, hname⟩ := Option.bind_eq_some_iff.1 hname
    obtain ⟨r, t, rfl, rfl⟩ := Node.exists_of_simpleName? hname
    cases hcalled : n.child? .name with
    | none =>
      rw [hcalled] at h
      cases h
    | some called =>
      rw [hcalled, hobject] at h
      cases h
      rfl
  case methodReference =>
    simp only [hkind] at h hname
    obtain ⟨qualifier, hqualifier, hname⟩ := Option.bind_eq_some_iff.1 hname
    obtain ⟨r, t, rfl, rfl⟩ := Node.exists_of_simpleName? hname
    cases hreferred : referredName? n with
    | none =>
      rw [hqualifier, hreferred] at h
      cases h
    | some referred =>
      rw [hqualifier, hreferred] at h
      cases h
      rfl
  all_goals
    simp only [hkind] at hname
    cases hname

end Call

/-- The type parameters that are known in a method. -/
def Node.typeParametersAt (root : Node) (a : Address) : List String :=
  (root.at? a).elim [] ownTypeParameters ++ (root.typesAround a).flatMap Prod.snd

namespace MethodAt

variable {line : Nat → Nat} {root n body call : Node} {a below : Address} {i : Nat} {m : MethodDecl}
  {scopes : List TypeScope} {c : Call} (h : MethodAt line root a m n scopes)
  (hbody : n.parts[i]? = some body) (hcall : body.at? below = some call)
  (hpasses : ¬ body.Passes Node.OpensType below)
  (hmade : call? line scopes (n.openingBody.seeing (body.visible below)) call = some c)

include h hmade

/-- **A name as the receiver of a call in a method** is looked up in the code of the method, and in the
fields of the types around it. -/
theorem receiver_eq {name : String} (hname : call.receiverName? = some name) :
    c.receiver = .ofDeclared (root.typeParametersAt a) name
      (Layer.type? (.code ((body.visible below).reverse ++ n.parameterVariables.reverse) ::
        (root.typesAround a).map (fun known => .fields known.1)) name) := by
  rw [receiver_of_call? hmade hname, Receiver.ofName_eq, h.types, Node.typeParametersAt, h.node]
  simp [Body.seeing, Node.openingBody]

include hbody hcall hpasses

/-- **The layers around a call of a method**, and the receiver that a name comes to in them. -/
theorem exists_layers :
    ∃ outer,
      root.layers (a ++ i :: below) =
        .code ((body.visible below).reverse ++ n.parameterVariables.reverse) :: outer ∧
      ∀ name, call.receiverName? = some name →
        c.receiver = .ofDeclared (root.typeParametersAt a) name
          (Layer.type? (.code ((body.visible below).reverse ++ n.parameterVariables.reverse) ::
            outer.filter (fun l => !l.isCode)) name) := by
  obtain ⟨outer, houter, hfields⟩ := Standing.layersAlong_method Node.visible .whole h.node h.standing
    h.kind hbody hcall hpasses
  refine ⟨outer, houter, fun name hname => ?_⟩
  rw [h.receiver_eq hmade hname, hfields]
  rfl

/-- **The receiver of a call by the scopes around it**, where no declaration of its name strays, and no
code further out declares it. -/
theorem receiver_scopeLayers {name : String} (hname : call.receiverName? = some name)
    (hstrays : ∀ decl ∈ body.metAddresses, ¬ body.Strays below decl name)
    (hdeclared : ∀ l ∈ (root.scopeLayers (a ++ i :: below)).tail, l.isCode = true →
      l.declared.lookup name = none) :
    c.receiver = .ofDeclared (root.typeParametersAt a) name
      (Layer.type? (root.scopeLayers (a ++ i :: below)) name) := by
  obtain ⟨outer, houter, hfields⟩ := Standing.layersAlong_method Node.inScope .whole h.node h.standing
    h.kind hbody hcall hpasses
  rw [Node.scopeLayers, houter] at hdeclared ⊢
  rw [List.tail_cons] at hdeclared
  rw [h.receiver_eq hmade hname, Layer.type?_cons, Layer.type?_cons, Layer.declared, Layer.declared,
    List.lookup_append, List.lookup_append, Node.lookup_inScope hstrays,
    ← Layer.type?_filter hdeclared, hfields]
  rfl

end MethodAt

/-- **No declaration of a name in a method strays** to a call in the body of the method. -/
def Node.KeepsScopes (root : Node) (a q : Address) (name : String) : Prop :=
  ∀ i body below, q = a ++ i :: below → root.at? (a ++ [i]) = some body →
    ∀ decl ∈ body.metAddresses, ¬ body.Strays below decl name

/-- **Names as receivers.** The methods of an outline are declared at addresses of the tree, and the
calls of each are made at the call sites that belong to it. Where the receiver of a call is a name,
the innermost layer around the call site is the code of the method, and the name stands for the first
variable in this code, or in the fields of the layers further out. This is the first one in all
layers, unless code further out declares the name. It is the innermost one in scope, unless code
further out declares the name or a declaration of it strays. -/
theorem Outline.receiver_of_name (line : Nat → Nat) (root : Node) :
    ∃ sites : List Address,
      List.Forall₂
        (fun a m => root.DeclaresMethod a m ∧
          ∃ calls : List Address, calls.Pairwise (· < ·) ∧ (∀ q, q ∈ calls ↔ root.OwnsCall a q) ∧
            List.Forall₂ (fun q c => ∀ name, (root.at? q).bind Node.receiverName? = some name →
              (∃ own outer, root.layers q = .code own :: outer ∧
                c.receiver = .ofDeclared (root.typeParametersAt a) name
                  (Layer.type? (.code own :: outer.filter (fun l => !l.isCode)) name) ∧
                ((∀ l ∈ outer, l.isCode = true → l.declared.lookup name = none) →
                  c.receiver = .ofDeclared (root.typeParametersAt a) name
                    (Layer.type? (root.layers q) name))) ∧
              (root.KeepsScopes a q name →
                (∀ l ∈ (root.scopeLayers q).tail, l.isCode = true →
                  l.declared.lookup name = none) →
                c.receiver = .ofDeclared (root.typeParametersAt a) name
                  (Layer.type? (root.scopeLayers q) name))) calls m.calls)
        sites (ofTree line root).methods.toList ∧
      sites.Pairwise (· < ·) := by
  refine forall_calls line root (fun a b h => h.1) ?_
  rintro a m n scopes q c h ⟨i, body, below, call, -, hbody, rfl, hcall, hpasses, hmade⟩ name hname
  rw [Node.at?_append_of_at? h.node, Node.at?_cons_of_part hbody, hcall] at hname
  obtain ⟨outer, hlayers, hreceiver⟩ := h.exists_layers hbody hcall hpasses hmade
  refine ⟨⟨_, outer, hlayers, hreceiver name hname, fun hdeclared => ?_⟩, fun hkeeps => ?_⟩
  · rw [hreceiver name hname, hlayers, Layer.type?_cons, Layer.type?_cons,
      Layer.type?_filter hdeclared]
  · have hat : root.at? (a ++ [i]) = some body := by
      rw [Node.at?_append_of_at? h.node, Node.at?_cons_of_part hbody]
      rfl
    exact h.receiver_scopeLayers hbody hcall hpasses hmade hname (hkeeps i body below rfl hat)

/-! ## Code further out -/

/-- A call of a method of `x`. -/
def shadowedCall : Node :=
  .branch none .methodInvocation [
    token (some .object) .identifier " " "x" 61,
    sign "" "." 62,
    token (some .name) .identifier "" "m" 63,
    noArguments 64]

/-- A class with a field `x`, a method with a parameter `x`, and in it a class body with a method that
calls a method of `x`. -/
def shadowTree : Node :=
  .branch none .program [
    .branch none .classDeclaration [
      sign "" "class" 0,
      token (some .name) .identifier " " "A" 6,
      braced .classBody 8 [
        .branch none .fieldDeclaration [
          token (some .type) .typeIdentifier " " "B" 10,
          .branch (some .declarator) .variableDeclarator [
            token (some .name) .identifier " " "x" 12],
          sign "" ";" 13],
        .branch none .methodDeclaration [
          token (some .type) .voidType " " "void" 15,
          token (some .name) .identifier " " "f" 20,
          .branch (some .parameters) .formalParameters [
            sign "" "(" 21,
            .branch none .formalParameter [
              token (some .type) .typeIdentifier "" "Foo" 22,
              token (some .name) .identifier " " "x" 26],
            sign "" ")" 27],
          braced .block 29 [
            .branch none .expressionStatement [
              .branch none .objectCreationExpression [
                sign " " "new" 31,
                token (some .type) .typeIdentifier " " "R" 35,
                noArguments 36,
                .branch none .classBody [
                  sign " " "\x7b" 39,
                  .branch none .methodDeclaration [
                    .branch none .modifiers [
                      sign " " "public" 41],
                    token (some .type) .voidType " " "void" 48,
                    token (some .name) .identifier " " "run" 53,
                    noParameters 56,
                    braced .block 59 [
                      .branch none .expressionStatement [
                        shadowedCall,
                        sign "" ";" 66]] 68],
                  sign " " "\x7d" 70]],
              sign "" ";" 71]] 73]] 75]]

/-- **A parameter of a method further out is passed over**: in
`class A { B x; void f(Foo x) { new R() { public void run() { x.m(); } }; } }` the innermost `x` around
the call is the parameter, of type `Foo`, and the receiver of the call is the field. -/
theorem outerParameter_passed_over :
    ∃ m c q, m ∈ (Outline.ofTree (fun _ => 1) shadowTree).methods.toList ∧ c ∈ m.calls ∧
      shadowTree.at? q = some shadowedCall ∧ shadowedCall.Makes c ∧
      shadowedCall.receiverName? = some "x" ∧ Layer.type? (shadowTree.layers q) "x" = some "Foo" ∧
      c.receiver = .typed "B" := by
  refine ⟨⟨⟨"A$1$R#run()"⟩, 1, 41, 69, 1, 1, [⟨.method, "m", .typed "B", some 0, 63, 3, 1⟩]⟩, _,
    [0, 2, 2, 3, 1, 0, 3, 1, 4, 1, 0], ?_, .head _, rfl, ?_, by decide +kernel, by decide +kernel, rfl⟩
  · exact List.mem_of_getElem? (i := 1) (by decide +kernel)
  · have hcall : call? (fun _ => 1) [⟨0, [("x", "B")], []⟩] ⟨[], [], []⟩ shadowedCall =
        some ⟨.method, "m", .typed "B", some 0, 63, 3, 1⟩ := by
      decide +kernel
    exact Node.makes_of_call? hcall

end CallOrigins.Java
