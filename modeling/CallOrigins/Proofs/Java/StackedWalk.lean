import CallOrigins.Proofs.Java.Visibility

/-!
# The walk with a stack of types

The walk hands the types around a node down to its parts. Here it is said with one stack for all of
it: a type is put on the stack before its members are gone through and taken off after them, and
each place takes the types around it from the stack as it finds it.

**The law** (`run_stackBody` and its companions, one for each function of the walk): the walk with a
stack finds what the walk finds, and leaves the stack as it was. Where types are pushed and popped
there is one argument (`OnStack.run_inside`): what is done between a push and its pop leaves the
stack as it was, so the pop takes off what the push has put on.
-/

namespace CallOrigins.Java

/-- Work with a stack of types, the innermost one on top. -/
abbrev OnStack := StateM (List TypeScope)

namespace OnStack

/-- The surroundings of a place where the types on the stack are those around it. -/
def surroundings (line : Nat → Nat) (package : String) : OnStack Surroundings :=
  return ⟨line, package, ← get⟩

/-- Puts the innermost type of some surroundings on the stack. -/
def push (inner : Surroundings) : OnStack Unit :=
  modify (inner.innermost?.toList ++ ·)

/-- Takes a type off the stack. -/
def pop : OnStack Unit :=
  modify List.tail

end OnStack

section Stack

variable (line : Nat → Nat) (package : String)

mutual
/-- **The body of a method**, or of nothing: a node and all it holds. -/
def stackBody : Node → Progress → OnStack Progress
  | .leaf _ _ _, p => pure p
  | .branch r k parts, p => do
    let s ← OnStack.surroundings line package
    let n := Node.branch r k parts
    let p := p.meet s n
    if (Header.typeKind? k).isSome then
      match s.enterType p.found n with
      | none => pure p
      | some (inner, components, f) =>
        let f ← stackTypeBody inner components parts f
        pure { p with found := f }
    else
      let p ← stackAll (creationBase s n) parts p
      pure (p.leave k)
/-- The parts of a node. Where `base` is given, a class body among them is that of an anonymous
type. -/
def stackAll (base : Option (String × Nat)) :
    List Node → Progress → OnStack Progress
  | [], p => pure p
  | c :: cs, p => do
    let p ←
      match base, c with
      | some (name, number), .branch _ .classBody members => do
        let s ← OnStack.surroundings line package
        match s.enterAnonymous p.found name number members with
        | none => pure p
        | some (inner, f) =>
          OnStack.push inner
          let f ← stackMembers [] members f
          OnStack.pop
          pure { p with found := f }
      | _, c => stackBody c p
    stackAll base cs p
/-- The body of a type among the parts of its declaration. -/
def stackTypeBody (inner : Surroundings)
    (components : List String) : List Node → Found → OnStack Found
  | [], f => pure f
  | c :: cs, f =>
    if c.role = some .body then
      match c with
      | .leaf _ _ _ => pure f
      | .branch _ _ members => do
        OnStack.push inner
        let f ← stackMembers components members f
        OnStack.pop
        pure f
    else stackTypeBody inner components cs f
/-- The members of a type. -/
def stackMembers (components : List String) :
    List Node → Found → OnStack Found
  | [], f => pure f
  | m :: ms, f => do
    let f ← stackMember components m f
    stackMembers components ms f
/-- A member of a type. -/
def stackMember (components : List String) :
    Node → Found → OnStack Found
  | .leaf _ _ _, f => pure f
  | .branch r k parts, f => do
    let s ← OnStack.surroundings line package
    let n := Node.branch r k parts
    match k with
    | .methodDeclaration | .constructorDeclaration =>
      match s.enterMethod f n none with
      | none => pure f
      | some (b, f') => stackMethodBody f.methods.size parts ⟨f', some b⟩
    | .compactConstructorDeclaration =>
      match s.enterMethod f n (some components) with
      | none => pure f
      | some (b, f') => stackMethodBody f.methods.size parts ⟨f', some b⟩
    | .classDeclaration | .interfaceDeclaration | .enumDeclaration | .recordDeclaration =>
      match s.enterType f n with
      | none => pure f
      | some (inner, inside, f') => stackTypeBody inner inside parts f'
    | .enumBodyDeclarations => stackMembers components parts f
    | .enumConstant => stackConstantBody (s.line n.start) parts f
    | _ =>
      let p ← stackAll (creationBase s n) parts ⟨f, none⟩
      pure p.found
/-- The body of a method among the parts of its declaration. -/
def stackMethodBody (method : Nat) :
    List Node → Progress → OnStack Found
  | [], p => pure (p.found.setCalls method ((p.body.map (fun b => b.calls.reverse)).getD []))
  | c :: cs, p =>
    if c.role = some .body then do
      let p ← stackBody c p
      pure (p.found.setCalls method ((p.body.map (fun b => b.calls.reverse)).getD []))
    else stackMethodBody method cs p
/-- The body of an enumeration's constant among its parts. -/
def stackConstantBody (number : Nat) :
    List Node → Found → OnStack Found
  | [], f => pure f
  | c :: cs, f =>
    if c.role = some .body then
      match c with
      | .leaf _ _ _ => pure f
      | .branch _ _ members => do
        let s ← OnStack.surroundings line package
        let base := ((s.innermost?.map TypeScope.id).map f.simpleName).getD ""
        match s.enterAnonymous f base number members with
        | none => pure f
        | some (inner, f') =>
          OnStack.push inner
          let f'' ← stackMembers [] members f'
          OnStack.pop
          pure f''
    else stackConstantBody number cs f
end

end Stack

namespace OnStack

variable {s : Surroundings} {α β : Type}

/-- What comes after some work goes on with the stack that it has left. -/
theorem run_bind_eq {x : OnStack α} {a : α} {stack stack' : List TypeScope}
    (hx : x.run stack = (a, stack')) (k : α → OnStack β) :
    (x >>= k).run stack = (k a).run stack' := by
  rw [StateT.run_bind, hx]
  rfl

theorem run_surroundings (s : Surroundings) :
    (surroundings s.line s.package).run s.scopes = (s, s.scopes) :=
  rfl

/-- Work between a push and a pop, where the work leaves the stack as it was. -/
theorem run_inside {scope : TypeScope} {act : OnStack α} {a : α}
    (hact : act.run (scope :: s.scopes) = (a, scope :: s.scopes)) (k : α → OnStack β) :
    (do push (s.inside scope); let a ← act; pop; k a : OnStack β).run s.scopes =
      (k a).run s.scopes := by
  have hpush : (push (s.inside scope)).run s.scopes = ((), scope :: s.scopes) := rfl
  have hpop : pop.run (scope :: s.scopes) = ((), s.scopes) := rfl
  rw [run_bind_eq hpush, run_bind_eq hact, run_bind_eq hpop]

end OnStack

namespace Surroundings

theorem exists_inside_enterType {s inner : Surroundings} {f f' : Found} {n : Node}
    {components : List String} (h : s.enterType f n = some (inner, components, f')) :
    ∃ scope, inner = s.inside scope := by
  unfold enterType at h
  split at h
  next =>
    cases h
    exact ⟨_, rfl⟩
  next => cases h

theorem exists_inside_enterAnonymous {s inner : Surroundings} {f f' : Found} {base : String}
    {number : Nat} {members : List Node}
    (h : s.enterAnonymous f base number members = some (inner, f')) :
    ∃ scope, inner = s.inside scope := by
  unfold enterAnonymous at h
  split at h
  next => cases h
  next =>
    cases h
    exact ⟨_, rfl⟩

end Surroundings

/-- A part that is no body of an anonymous type is gone through as it is. -/
theorem stackAll_cons (line : Nat → Nat) (package : String) {base : Option (String × Nat)}
    {c : Node} (cs : List Node) (p : Progress) (h : ¬ (base.isSome = true ∧ c.kind = .classBody)) :
    stackAll line package base (c :: cs) p =
      stackBody line package c p >>= stackAll line package base cs := by
  cases base with
  | none => rfl
  | some base =>
    cases c with
    | leaf r k t => rfl
    | branch r k members =>
      cases k
      case classBody => exact absurd ⟨rfl, rfl⟩ h
      all_goals rfl

section Member

variable (line : Nat → Nat) (package : String) (components : List String) (r : Option Role)
  {k : Kind} (parts : List Node) (f : Found)

/-- A member that declares a method. -/
theorem stackMember_method (hk : k.declaresMethod = true) :
    stackMember line package components (.branch r k parts) f = (do
      let s ← OnStack.surroundings line package
      match s.enterMethod f (.branch r k parts)
        (if k = .compactConstructorDeclaration then some components else none) with
      | none => pure f
      | some (b, f') => stackMethodBody line package f.methods.size parts ⟨f', some b⟩) := by
  cases k <;> first | rfl | cases hk

/-- A member that declares a type. -/
theorem stackMember_type (hk : (Header.typeKind? k).isSome = true) :
    stackMember line package components (.branch r k parts) f = (do
      let s ← OnStack.surroundings line package
      match s.enterType f (.branch r k parts) with
      | none => pure f
      | some (inner, inside, f') => stackTypeBody line package inner inside parts f') := by
  cases k <;> first | rfl | cases hk

/-- A member that declares neither and is gone through as code. -/
theorem stackMember_code (hmethod : ¬ k.declaresMethod = true)
    (htype : ¬ (Header.typeKind? k).isSome = true) (hmembers : k ≠ .enumBodyDeclarations)
    (hconstant : k ≠ .enumConstant) :
    stackMember line package components (.branch r k parts) f = (do
      let s ← OnStack.surroundings line package
      let p ← stackAll line package (creationBase s (.branch r k parts)) parts ⟨f, none⟩
      pure p.found) := by
  cases k
  case enumBodyDeclarations => exact absurd rfl hmembers
  case enumConstant => exact absurd rfl hconstant
  all_goals first | rfl | exact absurd rfl hmethod | exact absurd rfl htype

end Member

-- The cases are those of the walk itself, one theorem for each of its functions.
open OnStack in
mutual
/-- **The walk with a stack is the walk**, and leaves the stack as it was. -/
theorem run_stackBody (s : Surroundings) (n : Node) (p : Progress) :
    (stackBody s.line s.package n p).run s.scopes = (walkBody s n p, s.scopes) := by
  match n with
  | .leaf r k t => rfl
  | .branch r k parts =>
    rw [stackBody, run_bind_eq (run_surroundings s), walkBody]
    dsimp only
    by_cases htype : (Header.typeKind? k).isSome = true
    · rw [if_pos htype, if_pos htype]
      cases entered : s.enterType (p.meet s (.branch r k parts)).found (.branch r k parts) with
      | none => rfl
      | some result =>
        obtain ⟨scope, hinner⟩ := Surroundings.exists_inside_enterType entered
        exact run_bind_eq (run_stackTypeBody s hinner result.2.1 parts result.2.2) _
    · rw [if_neg htype, if_neg htype]
      exact run_bind_eq (run_stackAll s (creationBase s (.branch r k parts)) parts _) _
theorem run_stackAll (s : Surroundings) (base : Option (String × Nat)) (cs : List Node)
    (p : Progress) :
    (stackAll s.line s.package base cs p).run s.scopes = (walkAll s base cs p, s.scopes) := by
  match cs with
  | [] => rfl
  | .leaf r k t :: cs =>
    have hopen : stackAll s.line s.package base (.leaf r k t :: cs) p =
        stackAll s.line s.package base cs p := by
      cases base <;> rfl
    rw [hopen, walkAll_cons s cs p (.inr fun _ _ h => by cases h)]
    exact run_stackAll s base cs p
  | .branch r k members :: cs =>
    by_cases hopen : base.isSome = true ∧ k = .classBody
    · obtain ⟨⟨⟨name, number⟩, rfl⟩, rfl⟩ := And.imp_left Option.isSome_iff_exists.1 hopen
      rw [walkAll_classBody, stackAll, run_bind_eq (run_surroundings s)]
      cases entered : s.enterAnonymous p.found name number members with
      | none => exact run_stackAll s _ cs p
      | some result =>
        obtain ⟨scope, hinner⟩ := Surroundings.exists_inside_enterAnonymous entered
        simp only [pure_bind, hinner]
        exact (run_inside (run_stackMembers (s.inside scope) [] members result.2) _).trans
          (run_stackAll s _ cs _)
    · rw [stackAll_cons s.line s.package cs p hopen, walkAll_through s cs p hopen,
        run_bind_eq (run_stackBody s (.branch r k members) p)]
      exact run_stackAll s base cs _
theorem run_stackTypeBody (s : Surroundings) {inner : Surroundings} {scope : TypeScope}
    (hinner : inner = s.inside scope) (components : List String) (cs : List Node) (f : Found) :
    (stackTypeBody s.line s.package inner components cs f).run s.scopes =
      (walkTypeBody inner components cs f, s.scopes) := by
  match cs with
  | [] => rfl
  | .leaf r k t :: cs =>
    rw [stackTypeBody, walkTypeBody]
    by_cases hbody : (Node.leaf r k t).role = some .body
    · rw [if_pos hbody, if_pos hbody]
      rfl
    · rw [if_neg hbody, if_neg hbody]
      exact run_stackTypeBody s hinner components cs f
  | .branch r k members :: cs =>
    rw [stackTypeBody, walkTypeBody]
    by_cases hbody : (Node.branch r k members).role = some .body
    · rw [if_pos hbody, if_pos hbody, hinner]
      exact run_inside (run_stackMembers (s.inside scope) components members f) pure
    · rw [if_neg hbody, if_neg hbody]
      exact run_stackTypeBody s hinner components cs f
theorem run_stackMembers (s : Surroundings) (components : List String) (ms : List Node)
    (f : Found) :
    (stackMembers s.line s.package components ms f).run s.scopes =
      (walkMembers s components ms f, s.scopes) := by
  match ms with
  | [] => rfl
  | m :: ms =>
    rw [stackMembers, walkMembers, run_bind_eq (run_stackMember s components m f)]
    exact run_stackMembers s components ms _
theorem run_stackMember (s : Surroundings) (components : List String) (n : Node) (f : Found) :
    (stackMember s.line s.package components n f).run s.scopes =
      (walkMember s components n f, s.scopes) := by
  match n with
  | .leaf r k t => rfl
  | .branch r k parts =>
    by_cases hmethod : k.declaresMethod = true
    · rw [stackMember_method _ _ components r parts f hmethod, run_bind_eq (run_surroundings s),
        walkMember_method s components r parts f hmethod]
      cases s.enterMethod f (.branch r k parts)
          (if k = .compactConstructorDeclaration then some components else none) with
      | none => rfl
      | some entered => exact run_stackMethodBody s f.methods.size parts ⟨entered.2, some entered.1⟩
    by_cases htype : (Header.typeKind? k).isSome = true
    · rw [stackMember_type _ _ components r parts f htype, run_bind_eq (run_surroundings s),
        walkMember_type s components r parts f htype]
      cases entered : s.enterType f (.branch r k parts) with
      | none => rfl
      | some result =>
        obtain ⟨scope, hinner⟩ := Surroundings.exists_inside_enterType entered
        exact run_stackTypeBody s hinner result.2.1 parts result.2.2
    by_cases hmembers : k = .enumBodyDeclarations
    · subst hmembers
      exact run_stackMembers s components parts f
    by_cases hconstant : k = .enumConstant
    · subst hconstant
      exact run_stackConstantBody s _ parts f
    rw [stackMember_code _ _ components r parts f hmethod htype hmembers hconstant,
      run_bind_eq (run_surroundings s),
      walkMember_code s components r parts f hmethod htype hmembers hconstant]
    exact run_bind_eq (run_stackAll s (creationBase s (.branch r k parts)) parts ⟨f, none⟩) _
theorem run_stackMethodBody (s : Surroundings) (method : Nat) (cs : List Node) (p : Progress) :
    (stackMethodBody s.line s.package method cs p).run s.scopes =
      (walkMethodBody s method cs p, s.scopes) := by
  match cs with
  | [] => rfl
  | c :: cs =>
    rw [stackMethodBody, walkMethodBody]
    by_cases hbody : c.role = some .body
    · rw [if_pos hbody, if_pos hbody]
      exact run_bind_eq (run_stackBody s c p) _
    · rw [if_neg hbody, if_neg hbody]
      exact run_stackMethodBody s method cs p
theorem run_stackConstantBody (s : Surroundings) (number : Nat) (cs : List Node) (f : Found) :
    (stackConstantBody s.line s.package number cs f).run s.scopes =
      (walkConstantBody s number cs f, s.scopes) := by
  match cs with
  | [] => rfl
  | .leaf r k t :: cs =>
    rw [stackConstantBody, walkConstantBody]
    by_cases hbody : (Node.leaf r k t).role = some .body
    · rw [if_pos hbody, if_pos hbody]
      rfl
    · rw [if_neg hbody, if_neg hbody]
      exact run_stackConstantBody s number cs f
  | .branch r k members :: cs =>
    rw [stackConstantBody, walkConstantBody]
    by_cases hbody : (Node.branch r k members).role = some .body
    · rw [if_pos hbody, if_pos hbody]
      dsimp only
      rw [run_bind_eq (run_surroundings s)]
      cases entered : s.enterAnonymous f
          (((s.innermost?.map TypeScope.id).map f.simpleName).getD "") number members with
      | none => rfl
      | some result =>
        obtain ⟨scope, hinner⟩ := Surroundings.exists_inside_enterAnonymous entered
        dsimp only
        rw [hinner]
        exact run_inside (run_stackMembers (s.inside scope) [] members result.2) pure
    · rw [if_neg hbody, if_neg hbody]
      exact run_stackConstantBody s number cs f
end

end CallOrigins.Java
