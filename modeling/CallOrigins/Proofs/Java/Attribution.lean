import CallOrigins.Proofs.Java.Sites

/-!
# The method that a call belongs to

A call site in the body of a method belongs to that method, unless a class body or the declaration
of a type stands between them: then it belongs to a method of that type, or to none
(`Node.OwnsCall`). This is said of the tree alone.

**The law** (`Outline.calls_attributed_once`): the calls of a method in an outline are those of the
call sites that belong to it, one for each and in pre-order, and no call site belongs to two of the
methods.

The declarations that count are those of classes, interfaces, enumerations and records. The language
knows no annotation types inside of bodies; where one is written there, a walk goes through it as
through any other code.
-/

namespace CallOrigins.Java

/-! ## Call sites -/

/-- **A node is a call site**: it is of one of the four kinds of calls, and has the part that says
what is called. -/
def Node.isCallSite (n : Node) : Bool :=
  match n.kind with
  | .methodInvocation => (n.child? .name).isSome
  | .objectCreationExpression => (n.child? .type).isSome
  | .explicitConstructorInvocation => (n.child? .constructor).isSome
  | .methodReference => n.children.head?.isSome && (referredName? n).isSome
  | _ => false

theorem isSome_call? (line : Nat → Nat) (scopes : List TypeScope) (b : Body) (n : Node) :
    (call? line scopes b n).isSome = n.isCallSite := by
  unfold call? Node.isCallSite
  cases n.kind
  case methodInvocation => cases n.child? .name <;> rfl
  case objectCreationExpression => cases n.child? .type <;> rfl
  case explicitConstructorInvocation =>
    cases n.child? .constructor with
    | none => rfl
    | some c =>
      dsimp only
      split <;> rfl
  case methodReference => cases n.children.head? <;> cases referredName? n <;> rfl
  all_goals rfl

theorem Node.exists_branch_of_isCallSite {n : Node} (h : n.isCallSite = true) :
    ∃ r k parts, n = .branch r k parts := by
  cases n with
  | leaf r k t => cases k <;> cases h
  | branch r k parts => exact ⟨r, k, parts, rfl⟩

/-- **The call site at `q` belongs to the method at `a`**: it stands in the body of the method, and
on the way to it no type is entered. -/
def Node.OwnsCall (root : Node) (a q : Address) : Prop :=
  ∃ n i body below call, root.at? a = some n ∧ n.bodyIndex? = some i ∧ n.parts[i]? = some body ∧
    q = a ++ i :: below ∧ body.at? below = some call ∧ call.isCallSite = true ∧
      ¬ body.Passes OpensType below

/-! ## The calls of one method -/

/-- Where a function gives something, one after the other. -/
theorem forall₂_filterMap {α β : Type} (f : α → Option β) (xs : List α) :
    List.Forall₂ (fun x y => f x = some y) (xs.filter (fun x => (f x).isSome)) (xs.filterMap f) := by
  induction xs with
  | nil => exact .nil
  | cons x xs ih =>
    cases hx : f x with
    | none => simpa [hx] using ih
    | some y => simpa [hx] using ih

variable {line : Nat → Nat} {root n : Node} {a : Address} {m : MethodDecl} {scopes : List TypeScope}

/-- **A call of a method at an address**: it is made by the node that stands there in the body of the
method, with the variables that are seen from the address, and no type is entered on the way. -/
def MethodAt.Records (line : Nat → Nat) (scopes : List TypeScope) (a : Address) (n : Node)
    (q : Address) (c : Call) : Prop :=
  ∃ i body below call, n.bodyIndex? = some i ∧ n.parts[i]? = some body ∧ q = a ++ i :: below ∧
    body.at? below = some call ∧ ¬ body.Passes Node.OpensType below ∧
      call? line scopes (n.openingBody.seeing (body.visible below)) call = some c

/-- The addresses at which a call is made are those of call sites. -/
theorem Node.mem_filter_callMade? {body : Node} {b : Body} {q : Address} :
    q ∈ body.metAddresses.filter (fun q => (body.callMade? line scopes b q).isSome) ↔
      ∃ call, body.at? q = some call ∧ call.isCallSite = true ∧ ¬ body.Passes OpensType q := by
  rw [List.mem_filter, mem_metAddresses]
  constructor
  · rintro ⟨⟨⟨r, k, parts, hat⟩, hpasses⟩, hcall⟩
    rw [callMade?, hat, Option.bind_some, isSome_call?] at hcall
    exact ⟨_, hat, hcall, hpasses⟩
  · rintro ⟨call, hat, hsite, hpasses⟩
    obtain ⟨r, k, parts, rfl⟩ := exists_branch_of_isCallSite hsite
    refine ⟨⟨⟨r, k, parts, hat⟩, hpasses⟩, ?_⟩
    rw [callMade?, hat, Option.bind_some, isSome_call?]
    exact hsite

theorem Node.child?_body_eq (n : Node) :
    n.child? .body = n.bodyIndex?.bind (fun i => n.parts[i]?) :=
  List.find?_eq_bind_findIdx?_getElem?

/-- **The calls of a method are those of the call sites that belong to it**, in pre-order. -/
theorem MethodAt.exists_calls (h : MethodAt line root a m n scopes) :
    ∃ calls : List Address, calls.Pairwise (· < ·) ∧ (∀ q, q ∈ calls ↔ root.OwnsCall a q) ∧
      List.Forall₂ (MethodAt.Records line scopes a n) calls m.calls := by
  cases hindex : n.bodyIndex? with
  | none =>
    have hcalls : m.calls = [] := by
      rw [h.calls, Node.bodyCalls, n.child?_body_eq, hindex]
      rfl
    refine ⟨[], .nil, fun q => iff_of_false List.not_mem_nil ?_, by rw [hcalls]; exact .nil⟩
    rintro ⟨n', i, body, below, call, hn', hi, -⟩
    rw [h.node] at hn'
    cases hn'
    rw [hindex] at hi
    cases hi
  | some i =>
    obtain ⟨hi, -⟩ := List.findIdx?_eq_some_iff_getElem.1 hindex
    generalize hbody : n.parts[i] = body
    have hpart : n.parts[i]? = some body := List.getElem?_eq_some_iff.2 ⟨hi, hbody⟩
    have hcalls : m.calls = body.callsMade line scopes n.openingBody := by
      rw [h.calls, Node.bodyCalls, n.child?_body_eq, hindex, Option.bind_some, hpart]
      rfl
    refine ⟨(body.metAddresses.filter (fun q =>
      (body.callMade? line scopes n.openingBody q).isSome)).map (fun q => a ++ i :: q), ?_, ?_, ?_⟩
    · refine List.pairwise_map.2 ((body.pairwise_metAddresses.filter _).imp fun hlt => ?_)
      exact List.append_left_lt (List.cons_lt_cons_iff.2 (.inr ⟨rfl, hlt⟩))
    · intro q
      rw [List.mem_map]
      constructor
      · rintro ⟨below, hbelow, rfl⟩
        obtain ⟨call, hat, hsite, hpasses⟩ := Node.mem_filter_callMade?.1 hbelow
        exact ⟨n, i, body, below, call, h.node, hindex, hpart, rfl, hat, hsite, hpasses⟩
      · rintro ⟨n', i', body', below, call, hn', hi', hbody', rfl, hat, hsite, hpasses⟩
        cases h.node.symm.trans hn'
        cases hindex.symm.trans hi'
        cases hpart.symm.trans hbody'
        exact ⟨below, Node.mem_filter_callMade?.2 ⟨call, hat, hsite, hpasses⟩, rfl⟩
    · rw [hcalls]
      refine List.forall₂_map_left_iff.2 (((List.forall₂_and_left _ _).2
        ⟨fun q hq => Node.mem_filter_callMade?.1 hq, forall₂_filterMap _ _⟩).imp ?_)
      rintro q c ⟨⟨call, hat, -, hpasses⟩, hmade⟩
      rw [Node.callMade?, hat, Option.bind_some] at hmade
      exact ⟨i, body, q, call, hindex, hpart, rfl, hat, hpasses, hmade⟩

/-! ## All methods of a file -/

theorem Address.not_lt_of_isPrefix {a b : Address} (h : b <+: a) : ¬ a < b := by
  obtain ⟨rest, rfl⟩ := h
  cases rest with
  | nil =>
    rw [List.append_nil]
    exact List.lt_irrefl b
  | cons i rest => exact List.lt_asymm (b.lt_append_cons i rest)

theorem Node.OwnsCall.isPrefix {q : Address} (h : root.OwnsCall a q) : a <+: q := by
  obtain ⟨-, i, -, below, -, -, -, -, rfl, -⟩ := h
  exact List.prefix_append a _

/-- A call site that belongs to a method is not inside of a method that is declared later. -/
theorem Node.OwnsCall.not_isPrefix {b q : Address} (h : root.OwnsCall a q)
    (hlater : root.DeclaredBefore a b) : ¬ b <+: q := by
  intro hb
  rcases List.prefix_or_prefix_of_prefix h.isPrefix hb with ⟨rest, rfl⟩ | haround
  · -- the second method is inside of the first one, so the way to the call enters a type
    obtain ⟨n, i, body, below, call, hn, hi, hbody, rfl, -, -, hpasses⟩ := h
    obtain ⟨n', i', body', between, hn', hi', hbody', rfl, hopens⟩ := hlater.2 rest rfl
    cases hn.symm.trans hn'
    cases hi.symm.trans hi'
    cases hbody.symm.trans hbody'
    obtain ⟨further, hfurther⟩ := hb
    rw [List.append_assoc, List.cons_append] at hfurther
    have hbelow := (List.cons.inj (List.append_cancel_left hfurther)).2
    refine hpasses ?_
    rw [← hbelow]
    exact (hopens.imp fun _ _ h => h.opensType).append _
  · exact Address.not_lt_of_isPrefix haround hlater.1

/-- The method is declared by the node at an address, and takes its place. -/
def Node.DeclaresMethod (root : Node) (a : Address) (m : MethodDecl) : Prop :=
  ∃ n, root.at? a = some n ∧ n.kind.declaresMethod = true ∧ m.start = n.start ∧ m.stop = n.stop

/-- **The calls of an outline**: what holds of each call that a method records, at its call site, and
of any two methods of which one is declared before the other. -/
theorem Outline.forall_calls (line : Nat → Nat) (root : Node) {R : Address → Address → Prop}
    {P : Address → Address → Call → Prop} (hmethods : ∀ a b, root.DeclaredBefore a b → R a b)
    (hcalls : ∀ a m n scopes q c, MethodAt line root a m n scopes →
      MethodAt.Records line scopes a n q c → P a q c) :
    ∃ sites : List Address,
      List.Forall₂
        (fun a m => root.DeclaresMethod a m ∧
          ∃ calls : List Address, calls.Pairwise (· < ·) ∧ (∀ q, q ∈ calls ↔ root.OwnsCall a q) ∧
            List.Forall₂ (P a) calls m.calls)
        sites (ofTree line root).methods.toList ∧
      sites.Pairwise R := by
  obtain ⟨sites, hpairs, hsites⟩ := exists_sites line root
  refine ⟨sites, hsites.imp ?_, hpairs.imp fun h => hmethods _ _ h⟩
  rintro a m ⟨n, scopes, h⟩
  obtain ⟨calls, hascend, hown, hrecords⟩ := h.exists_calls
  refine ⟨⟨n, h.node, h.kind, h.start, h.stop⟩, calls, hascend, hown, hrecords.imp ?_⟩
  intro q c hcall
  exact hcalls a m n scopes q c h hcall

/-- **No call is lost, and none is attributed twice.** The methods of an outline are declared at
ascending addresses of the tree. The calls of each are, in pre-order, one for each call site that
belongs to it. No call site belongs to two of them. -/
theorem Outline.calls_attributed_once (line : Nat → Nat) (root : Node) :
    ∃ sites : List Address,
      List.Forall₂
        (fun a m => root.DeclaresMethod a m ∧
          ∃ calls : List Address, calls.Pairwise (· < ·) ∧ (∀ q, q ∈ calls ↔ root.OwnsCall a q) ∧
            List.Forall₂ (fun q c => ∃ n scopes b, root.at? q = some n ∧
              call? line scopes b n = some c) calls m.calls)
        sites (ofTree line root).methods.toList ∧
      sites.Pairwise (fun a b => a < b ∧ ∀ q, ¬ (root.OwnsCall a q ∧ root.OwnsCall b q)) := by
  refine forall_calls line root ?_ ?_
  · intro a b h
    exact ⟨h.1, fun q hq => hq.1.not_isPrefix h hq.2.isPrefix⟩
  · rintro a m n scopes q c h ⟨i, body, below, call, -, hbody, rfl, hcall, -, hmade⟩
    refine ⟨call, scopes, _, ?_, hmade⟩
    rw [Node.at?_append_of_at? h.node, Node.at?_cons_of_part hbody, hcall]

end CallOrigins.Java
