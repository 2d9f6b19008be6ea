import CallOrigins.Java.Outline.Walk
import Mathlib.Logic.Relation

/-!
# What a walk does

A walk over a tree enters types, anonymous types and methods, and when it is through with a method
it sets the calls of that method. These are its only steps (`Found.Step`), and every walk is a
sequence of them (`walkBody_grows` and its companions; `Outline.grows_ofTree` for a whole file). So
what each step keeps holds of every outline, and no proof about outlines has to go through trees
again.

Some facts go with the steps. The types around a place are always among those found so far, what is
entered is a node of the tree, and packages, bases and parameters are read off its texts. The calls
that are set are those of the nodes that a walk through the body of the method meets, in
the order in which it meets them (`Outline.recorded_ofTree`). So every call is one that a node of the
tree makes (`RecordedIn.isMade`).
-/

namespace CallOrigins.Java

open Text

/-- The tree holds the node: it is the root, or a part of a node that the tree holds. -/
def Node.Holds (root n : Node) : Prop :=
  Relation.ReflTransGen (fun around part => part ∈ around.parts) root n

theorem Node.Holds.part {root n c : Node} (h : root.Holds n) (hc : c ∈ n.parts) : root.Holds c :=
  h.tail hc

/-- A call that a node of a tree makes, seen from some place. -/
def Call.IsMade (c : Call) (root : Node) : Prop :=
  ∃ line scopes b n, root.Holds n ∧ call? line scopes b n = some c

namespace Node

mutual
/-- **The nodes that a walk through a body meets**, each before its parts. The declaration of a
type is met, and nothing in it. -/
def met : Node → List Node
  | .leaf _ _ _ => []
  | .branch r k parts =>
    .branch r k parts ::
      if (Header.typeKind? k).isSome then [] else metAmong (k = .objectCreationExpression) parts
/-- The nodes that are met among the parts of a node, where the class body of a creation is left
out: it is that of an anonymous type. -/
def metAmong (creation : Bool) : List Node → List Node
  | [] => []
  | c :: cs =>
    (if creation = true ∧ c.kind = .classBody then [] else c.met) ++ metAmong creation cs
end

mutual
theorem holds_of_mem_met {n x : Node} (h : x ∈ n.met) : n.Holds x := by
  match n with
  | .leaf _ _ _ => exact absurd h List.not_mem_nil
  | .branch r k parts =>
    rw [met] at h
    rcases List.mem_cons.1 h with rfl | h
    · exact .refl
    · split at h
      · exact absurd h List.not_mem_nil
      · obtain ⟨c, hc, hx⟩ := exists_holds_of_mem_metAmong h
        exact .head hc hx
theorem exists_holds_of_mem_metAmong {creation : Bool} {ns : List Node} {x : Node}
    (h : x ∈ metAmong creation ns) : ∃ c ∈ ns, c.Holds x := by
  match ns with
  | [] => exact absurd h List.not_mem_nil
  | c :: cs =>
    rw [metAmong] at h
    rcases List.mem_append.1 h with h | h
    · split at h
      · exact absurd h List.not_mem_nil
      · exact ⟨c, .head _, holds_of_mem_met h⟩
    · obtain ⟨c', hc', hx⟩ := exists_holds_of_mem_metAmong h
      exact ⟨c', .tail _ hc', hx⟩
end

end Node

/-- **The calls that nodes make**, one node after the other, each of them seen from some state of
the method that the walk is in. -/
inductive Recorded (line : Nat → Nat) (scopes : List TypeScope) : List Node → List Call → Prop where
  | nil : Recorded line scopes [] []
  | cons {n : Node} {ns : List Node} {cs : List Call} (b : Body)
    (rest : Recorded line scopes ns cs) :
    Recorded line scopes (n :: ns) ((call? line scopes b n).toList ++ cs)

namespace Recorded

variable {line : Nat → Nat} {scopes : List TypeScope} {ns ns' : List Node} {cs cs' : List Call}

theorem append (h : Recorded line scopes ns cs) (h' : Recorded line scopes ns' cs') :
    Recorded line scopes (ns ++ ns') (cs ++ cs') := by
  induction h with
  | nil => exact h'
  | cons b _ ih =>
    rw [List.cons_append, List.append_assoc]
    exact .cons b ih

theorem exists_of_mem (h : Recorded line scopes ns cs) {c : Call} (hc : c ∈ cs) :
    ∃ n ∈ ns, ∃ b, call? line scopes b n = some c := by
  induction h with
  | nil => exact absurd hc List.not_mem_nil
  | @cons n _ _ b _ ih =>
    rcases List.mem_append.1 hc with hc | hc
    · exact ⟨n, .head _, b, Option.mem_toList.1 hc⟩
    · obtain ⟨n', hn', hcall⟩ := ih hc
      exact ⟨n', .tail _ hn', hcall⟩

end Recorded

/-- **The calls are recorded in a tree**: they are those of a body that stands in it. Without a body
there are none. -/
def RecordedIn (root : Node) (calls : List Call) : Prop :=
  ∃ (line : Nat → Nat) (scopes : List TypeScope) (body : Option Node),
    (∀ n ∈ body, root.Holds n) ∧ Recorded line scopes (body.elim [] Node.met) calls

theorem recordedIn_nil (root : Node) : RecordedIn root [] :=
  ⟨fun _ => 0, [], none, (fun _ h => absurd h (by simp)), .nil⟩

theorem RecordedIn.isMade {root : Node} {calls : List Call} (h : RecordedIn root calls) {c : Call}
    (hc : c ∈ calls) : c.IsMade root := by
  obtain ⟨line, scopes, body, held, recorded⟩ := h
  obtain ⟨n, hn, b, hcall⟩ := recorded.exists_of_mem hc
  cases body with
  | none => exact absurd hn List.not_mem_nil
  | some top => exact ⟨line, scopes, b, n, (held top rfl).trans (Node.holds_of_mem_met hn), hcall⟩

/-- All the types around a place are known, and the package is one that is written. -/
structure Surroundings.Within (s : Surroundings) (f : Found) : Prop where
  types : ∀ scope ∈ s.scopes, scope.id < f.types.size
  package : ∃ text, s.package = compact text

/-- The type of a parameter. -/
def Header.IsParameterType (type : String) : Prop :=
  ∃ p name, Header.parameter? p = some (type, name)

/-- The kinds of nodes that declare methods. -/
def Kind.declaresMethod : Kind → Bool
  | .methodDeclaration | .constructorDeclaration | .compactConstructorDeclaration => true
  | _ => false

namespace Found

/-- The base of an anonymous type is one that is written, or a type that was found. -/
def IsBase (f : Found) (base : String) : Prop :=
  (∃ text, base = eraseType text) ∨ ∃ id, base = f.simpleName id

/-- One step of a walk over a tree. -/
inductive Step (root : Node) : Found → Found → Prop where
  | type {s inner : Surroundings} {f f' : Found} {n : Node} {components : List String}
    (within : s.Within f) (held : root.Holds n)
    (entered : s.enterType f n = some (inner, components, f')) : Step root f f'
  | anonymous {s inner : Surroundings} {f f' : Found} {base : String} {line : Nat}
    {members : List Node} (within : s.Within f) (based : f.IsBase base)
    (entered : s.enterAnonymous f base line members = some (inner, f')) : Step root f f'
  | method {s : Surroundings} {f f' : Found} {n : Node} {components : Option (List String)}
    {b : Body} (within : s.Within f) (held : root.Holds n)
    (declared : ∀ types ∈ components, ∀ t ∈ types, Header.IsParameterType t)
    (entered : s.enterMethod f n components = some (b, f'))
    (declares : n.kind.declaresMethod = true) : Step root f f'
  | calls (f : Found) (method : Nat) {calls : List Call} (recorded : RecordedIn root calls) :
    Step root f (f.setCalls method calls)

/-- Some steps of a walk over a tree lead from one to the other. -/
def Grows (root : Node) : Found → Found → Prop :=
  Relation.ReflTransGen (Step root)

end Found

/-! ## Calls in a body -/

namespace Body

theorem calls_declare (b : Body) (name type : String) : (b.declare name type).calls = b.calls := by
  unfold declare
  split <;> rfl

theorem calls_foldl {α : Type} {f : Body → α → Body} (hf : ∀ b a, (f b a).calls = b.calls)
    (as : List α) (b : Body) : (as.foldl f b).calls = b.calls := by
  induction as generalizing b with
  | nil => rfl
  | cons a as ih => rw [List.foldl_cons, ih, hf]

theorem calls_declareVariables (b : Body) (n : Node) : (declareVariables b n).calls = b.calls := by
  unfold declareVariables
  split
  · rfl
  · refine calls_foldl (fun b d => ?_) _ _
    split
    · rfl
    · exact calls_declare ..

theorem calls_declareOne (b : Body) (n : Node) : (declareOne b n).calls = b.calls := by
  unfold declareOne
  split
  · rfl
  · exact calls_declare ..

theorem calls_declareParameters (b : Body) (n : Node) :
    (declareParameters b n).calls = b.calls := by
  unfold declareParameters
  split
  · rfl
  · split
    · exact calls_foldl (fun _ _ => calls_declare ..) _ _
    · exact calls_declare ..
    · exact calls_foldl (fun _ _ => calls_declare ..) _ _

/-- A node adds the call that it makes, and no other. -/
theorem calls_meet (b : Body) (line : Nat → Nat) (scopes : List TypeScope) (n : Node) :
    (b.meet line scopes n).calls = (call? line scopes b n).toList ++ b.calls := by
  cases hk : n.kind
  case methodInvocation | objectCreationExpression | explicitConstructorInvocation |
      methodReference =>
    simp only [meet, hk]
    split
    next c hc => simp [hc, note]
    next hc => simp [hc]
  all_goals simp [meet, call?, hk, calls_declareVariables, calls_declareOne, calls_declareParameters]

end Body

/-! ## Entering -/

namespace Surroundings

variable {s inner : Surroundings} {f f' : Found} {n : Node}

/-- The types of parameters are those of the parameters that are declared. -/
theorem isParameterType_of_mem {n : Node} {type : String}
    (h : type ∈ (Header.parameters n).map Prod.fst) : Header.IsParameterType type := by
  obtain ⟨⟨_, name⟩, hmem, rfl⟩ := List.mem_map.1 h
  obtain ⟨p, -, hp⟩ := List.mem_filterMap.1 hmem
  exact ⟨p, name, hp⟩

theorem isParameterType_of_mem_getD {n : Option Node} {type : String}
    (h : type ∈ ((n.map Header.parameters).getD []).map Prod.fst) : Header.IsParameterType type := by
  cases n with
  | none => exact absurd h List.not_mem_nil
  | some n => exact isParameterType_of_mem h

/-- What it is to enter a type: it stands around its members, and is named as it is written. -/
structure EntersType (s : Surroundings) (f : Found) (n : Node) (inner : Surroundings)
    (components : List String) (decl : TypeDecl) : Prop where
  scopes : ∃ scope, inner.scopes = scope :: s.scopes ∧ scope.id = f.types.size
  package : inner.package = s.package
  kind : Header.typeKind? n.kind = some decl.kind
  outer : decl.outer = s.innermost?.map TypeScope.id
  written : ∃ name, n.child? .name = some name ∧ decl.simpleName = name.text
  name : decl.name =
    match s.innermost? with
    | some outer => f.typeName outer.id ++ "." ++ decl.simpleName
    | none => if s.package.isEmpty then decl.simpleName else s.package ++ "." ++ decl.simpleName
  components : ∀ t ∈ components, Header.IsParameterType t

/-- The type that is entered is the last one found. -/
theorem enterType_eq {components : List String}
    (h : s.enterType f n = some (inner, components, f')) :
    ∃ decl, f' = { f with types := f.types.push decl } ∧ s.EntersType f n inner components decl := by
  unfold enterType at h
  split at h
  next kind nameNode hkind hname =>
    cases h
    refine ⟨_, rfl, ⟨_, rfl, rfl⟩, rfl, hkind, rfl, ⟨nameNode, hname, rfl⟩, rfl, fun t ht => ?_⟩
    by_cases hrecord : kind = .recordType
    · rw [if_pos hrecord] at ht
      exact isParameterType_of_mem_getD ht
    · rw [if_neg hrecord] at ht
      exact absurd ht List.not_mem_nil
  next => cases h

/-- What it is to enter an anonymous type: it is numbered in the type around it. -/
structure EntersAnonymous (s : Surroundings) (f : Found) (base : String) (inner : Surroundings)
    (decl : TypeDecl) (around : TypeScope) : Prop where
  scopes : ∃ scope, inner.scopes = scope :: s.scopes ∧ scope.id = f.types.size
  package : inner.package = s.package
  kind : decl.kind = .anonymousType
  innermost : s.innermost? = some around
  outer : decl.outer = some around.id
  simpleName : decl.simpleName = lastSegment base
  name : decl.name =
    f.typeName around.id ++ "$" ++ toString (f.anonymousIn around.id + 1) ++ "$" ++ decl.simpleName

theorem enterAnonymous_eq {base : String} {line : Nat} {members : List Node}
    (h : s.enterAnonymous f base line members = some (inner, f')) :
    ∃ decl outer, f' = { f with types := f.types.push decl } ∧
      s.EntersAnonymous f base inner decl outer := by
  unfold enterAnonymous at h
  split at h
  next => cases h
  next outer houter =>
    cases h
    exact ⟨_, outer, rfl, ⟨_, rfl, rfl⟩, rfl, rfl, houter, rfl, rfl, rfl⟩

/-- What it is to enter a method: it is identified by the type around it, and has no calls yet. -/
structure EntersMethod (s : Surroundings) (f : Found) (n : Node)
    (components : Option (List String)) (decl : MethodDecl) (scope : TypeScope) (name : String)
    (params : List String) : Prop where
  innermost : s.innermost? = some scope
  type : decl.type = scope.id
  id : decl.id = MethodId.ofParts (f.typeName scope.id) name params
  place : decl.start = n.start ∧ decl.stop = n.stop
  written : n.kind ≠ .methodDeclaration ∧ name = f.simpleName scope.id ∨
    n.kind = .methodDeclaration ∧ ∃ node, n.child? .name = some node ∧ name = node.text
  params : components = some params ∨ ∀ t ∈ params, Header.IsParameterType t
  calls : decl.calls = []

/-- The method that is entered is the last one found. -/
theorem enterMethod_eq {components : Option (List String)} {b : Body}
    (h : s.enterMethod f n components = some (b, f')) :
    ∃ decl scope name params, f' = { f with methods := f.methods.push decl } ∧
      s.EntersMethod f n components decl scope name params ∧ b.calls = [] := by
  unfold enterMethod at h
  split at h
  next => cases h
  next scope hscope =>
    dsimp only at h
    split at h
    next => cases h
    next name hname =>
      have hwritten : n.kind ≠ .methodDeclaration ∧ name = f.simpleName scope.id ∨
          n.kind = .methodDeclaration ∧ ∃ node, n.child? .name = some node ∧ name = node.text := by
        by_cases hkind : n.kind = .methodDeclaration
        · rw [if_pos hkind] at hname
          obtain ⟨node, hnode, rfl⟩ := Option.map_eq_some_iff.1 hname
          exact .inr ⟨hkind, node, hnode, rfl⟩
        · rw [if_neg hkind] at hname
          exact .inl ⟨hkind, (Option.some.inj hname).symm⟩
      cases components with
      | some types =>
        cases h
        exact ⟨_, scope, name, types, rfl,
          ⟨hscope, rfl, rfl, ⟨rfl, rfl⟩, hwritten, .inl rfl, rfl⟩, rfl⟩
      | none =>
        cases h
        refine ⟨_, scope, name, _, rfl,
          ⟨hscope, rfl, rfl, ⟨rfl, rfl⟩, hwritten, .inr ?_, rfl⟩, ?_⟩
        · exact fun t => isParameterType_of_mem_getD
        · exact Body.calls_foldl (fun _ _ => Body.calls_declare ..) _ _

theorem mem_of_innermost? {scope : TypeScope} (h : s.innermost? = some scope) :
    scope ∈ s.scopes :=
  List.mem_of_mem_head? h

/-- The types around a member of a type that was just found. -/
theorem Within.push {decl : TypeDecl} (h : s.Within f) (hpackage : inner.package = s.package)
    (hscopes : ∃ scope, inner.scopes = scope :: s.scopes ∧ scope.id = f.types.size) :
    inner.Within { f with types := f.types.push decl } := by
  obtain ⟨scope, hscopes, hid⟩ := hscopes
  refine ⟨fun scope' hscope' => ?_, hpackage ▸ h.package⟩
  rw [Array.size_push]
  rw [hscopes] at hscope'
  rcases List.mem_cons.1 hscope' with rfl | hscope'
  · omega
  · exact Nat.lt_succ_of_lt (h.types scope' hscope')

theorem Within.enterType {components : List String} (h : s.Within f)
    (entered : s.enterType f n = some (inner, components, f')) : inner.Within f' := by
  obtain ⟨decl, rfl, hdecl⟩ := enterType_eq entered
  exact h.push hdecl.package hdecl.scopes

theorem Within.enterAnonymous {base : String} {line : Nat} {members : List Node} (h : s.Within f)
    (entered : s.enterAnonymous f base line members = some (inner, f')) : inner.Within f' := by
  obtain ⟨decl, outer, rfl, hdecl⟩ := enterAnonymous_eq entered
  exact h.push hdecl.package hdecl.scopes

end Surroundings

namespace Found

variable {root : Node} {f f' : Found}

/-- A method after the calls of one were set: as it was, or with those calls. -/
theorem mem_setCalls {method : Nat} {calls : List Call} {m : MethodDecl}
    (h : m ∈ (f.setCalls method calls).methods) :
    ∃ old ∈ f.methods, m = old ∨ m = { old with calls } := by
  obtain ⟨i, hi⟩ := Array.mem_iff_getElem?.1 h
  rw [setCalls, Array.getElem?_modify] at hi
  split at hi
  next =>
    obtain ⟨old, hold, rfl⟩ := Option.map_eq_some_iff.1 hi
    exact ⟨old, Array.mem_of_getElem? hold, .inr rfl⟩
  next => exact ⟨m, Array.mem_of_getElem? hi, .inl rfl⟩

theorem Step.types_size_le (h : Step root f f') : f.types.size ≤ f'.types.size := by
  cases h with
  | type _ _ entered =>
    obtain ⟨decl, rfl, _⟩ := Surroundings.enterType_eq entered
    simp
  | anonymous _ _ entered =>
    obtain ⟨decl, _, rfl, _⟩ := Surroundings.enterAnonymous_eq entered
    simp
  | method _ _ _ entered _ =>
    obtain ⟨decl, _, _, _, rfl, _⟩ := Surroundings.enterMethod_eq entered
    exact Nat.le_refl _
  | calls => exact Nat.le_refl _

/-- What each step of a walk keeps, the whole walk keeps. -/
theorem Grows.keeps {kept : Found → Prop} (hstep : ∀ f f', Step root f f' → kept f → kept f')
    (h : f.Grows root f') (hf : kept f) : kept f' := by
  induction h with
  | refl => exact hf
  | tail _ step ih => exact hstep _ _ step ih

theorem Grows.types_size_le (h : f.Grows root f') : f.types.size ≤ f'.types.size := by
  exact h.keeps (fun _ _ step hle => Nat.le_trans hle step.types_size_le) (Nat.le_refl _)

end Found

theorem Surroundings.Within.of_grows {root : Node} {s : Surroundings} {f f' : Found}
    (h : s.Within f) (grows : f.Grows root f') : s.Within f' where
  types scope hscope := Nat.lt_of_lt_of_le (h.types scope hscope) grows.types_size_le
  package := h.package

/-! ## Through a body -/

/-- What a part of a walk records: the calls of the nodes that it meets, if the walk is in a
method. -/
def Progress.Records (s : Surroundings) (ns : List Node) (p p' : Progress) : Prop :=
  ∀ b, p.body = some b → ∃ b' cs, p'.body = some b' ∧ b'.calls = cs.reverse ++ b.calls ∧
    Recorded s.line s.scopes ns cs

namespace Progress

variable {s : Surroundings} {ns ns' : List Node} {p q r : Progress}

/-- A part of a walk that leaves the method that the walk is in as it was. -/
theorem Records.of_body_eq (h : q.body = p.body) : p.Records s [] q :=
  fun b hb => ⟨b, [], h.trans hb, rfl, .nil⟩

theorem Records.trans (h : p.Records s ns q) (h' : q.Records s ns' r) :
    p.Records s (ns ++ ns') r := by
  intro b hb
  obtain ⟨b', cs, hb', hcalls, hrecorded⟩ := h b hb
  obtain ⟨b'', cs', hb'', hcalls', hrecorded'⟩ := h' b' hb'
  refine ⟨b'', cs ++ cs', hb'', ?_, hrecorded.append hrecorded'⟩
  rw [hcalls', hcalls, List.reverse_append, List.append_assoc]

theorem records_meet (s : Surroundings) (p : Progress) (n : Node) :
    p.Records s [n] (p.meet s n) := by
  intro b hb
  generalize hopened : (if n.kind.opensBlock then b.openBlock else b) = opened
  have hcalls : opened.calls = b.calls := by
    rw [← hopened]
    split <;> rfl
  refine ⟨opened.meet s.line s.scopes n, (call? s.line s.scopes opened n).toList, ?_, ?_, ?_⟩
  · rw [meet, hb, ← hopened]
    rfl
  · rw [Body.calls_meet, hcalls]
    cases call? s.line s.scopes opened n <;> rfl
  · have hone : Recorded s.line s.scopes [n] ((call? s.line s.scopes opened n).toList ++ []) :=
      .cons opened .nil
    rwa [List.append_nil] at hone

theorem records_leave (s : Surroundings) (p : Progress) (k : Kind) :
    p.Records s [] (p.leave k) := by
  intro b hb
  refine ⟨_, [], by rw [leave, hb]; rfl, ?_, .nil⟩
  split <;> rfl

end Progress

theorem isSome_creationBase (s : Surroundings) (n : Node) :
    (creationBase s n).isSome = decide (n.kind = .objectCreationExpression) := by
  unfold creationBase
  split <;> simp [*]

/-- The base of an anonymous type that a creation declares is written in it. -/
theorem eraseType_of_creationBase {s : Surroundings} {n : Node} {base : String × Nat}
    (h : base ∈ creationBase s n) : ∃ text, base.1 = eraseType text := by
  unfold creationBase at h
  by_cases hkind : n.kind = .objectCreationExpression
  · rw [if_pos hkind] at h
    cases h
    cases n.child? .type with
    | none => exact ⟨"", rfl⟩
    | some type => exact ⟨type.text, rfl⟩
  · rw [if_neg hkind] at h
    cases h

/-- A part that is no body of an anonymous type is gone through as it is. -/
theorem walkAll_cons (s : Surroundings) {base : Option (String × Nat)} {c : Node} (cs : List Node)
    (p : Progress) (h : base = none ∨ ∀ r members, c ≠ .branch r .classBody members) :
    walkAll s base (c :: cs) p = walkAll s base cs (walkBody s c p) := by
  rcases h with rfl | h
  · rfl
  rcases base with _ | ⟨name, line⟩
  · rfl
  cases c with
  | leaf r k t => rfl
  | branch r k members =>
    cases k
    case classBody => exact absurd rfl (h r members)
    all_goals rfl

/-- A class body among the parts of a creation is that of an anonymous type. -/
theorem walkAll_classBody (s : Surroundings) (name : String) (line : Nat) (r : Option Role)
    (members cs : List Node) (p : Progress) :
    walkAll s (some (name, line)) (.branch r .classBody members :: cs) p =
      walkAll s (some (name, line)) cs
        (match s.enterAnonymous p.found name line members with
        | none => p
        | some (inner, f) => { p with found := walkMembers inner [] members f }) :=
  rfl

/-- A member that declares a method. -/
theorem walkMember_method (s : Surroundings) (components : List String) (r : Option Role) {k : Kind}
    (parts : List Node) (f : Found) (hk : k.declaresMethod = true) :
    walkMember s components (.branch r k parts) f =
      match s.enterMethod f (.branch r k parts)
        (if k = .compactConstructorDeclaration then some components else none) with
      | none => f
      | some (b, f') => walkMethodBody s f.methods.size parts ⟨f', some b⟩ := by
  cases k <;> first | rfl | cases hk

/-- A member that declares a type. -/
theorem walkMember_type (s : Surroundings) (components : List String) (r : Option Role) {k : Kind}
    (parts : List Node) (f : Found) (hk : (Header.typeKind? k).isSome = true) :
    walkMember s components (.branch r k parts) f =
      match s.enterType f (.branch r k parts) with
      | none => f
      | some (inner, inside, f') => walkTypeBody inner inside parts f' := by
  cases k <;> first | rfl | cases hk

/-- A member that declares neither and is gone through as code. -/
theorem walkMember_code (s : Surroundings) (components : List String) (r : Option Role) {k : Kind}
    (parts : List Node) (f : Found) (hmethod : ¬ k.declaresMethod = true)
    (htype : ¬ (Header.typeKind? k).isSome = true) (hmembers : k ≠ .enumBodyDeclarations)
    (hconstant : k ≠ .enumConstant) :
    walkMember s components (.branch r k parts) f =
      (walkAll s (creationBase s (.branch r k parts)) parts ⟨f, none⟩).found := by
  cases k
  case enumBodyDeclarations => exact absurd rfl hmembers
  case enumConstant => exact absurd rfl hconstant
  all_goals first | rfl | exact absurd rfl hmethod | exact absurd rfl htype

-- Only these two functions of the walk have to do with a body; the others add to what was found.
mutual
theorem walkBody_records (s : Surroundings) (n : Node) (p : Progress) :
    p.Records s n.met (walkBody s n p) := by
  match n with
  | .leaf _ _ _ => exact .of_body_eq rfl
  | .branch r k parts =>
    have hmeet := Progress.records_meet s p (.branch r k parts)
    rw [walkBody, Node.met]
    split
    · refine hmeet.trans (.of_body_eq ?_)
      split <;> rfl
    · have hparts := walkAll_records s (creationBase s (.branch r k parts)) parts
        (p.meet s (.branch r k parts))
      rw [isSome_creationBase, Node.kind] at hparts
      have hleft := hparts.trans (Progress.records_leave s _ k)
      rw [List.append_nil] at hleft
      exact hmeet.trans hleft
theorem walkAll_records (s : Surroundings) (base : Option (String × Nat)) (ns : List Node)
    (p : Progress) : p.Records s (Node.metAmong base.isSome ns) (walkAll s base ns p) := by
  match ns, base with
  | [], _ => exact .of_body_eq rfl
  | .leaf r k t :: cs, base =>
    rw [walkAll_cons s cs p (.inr fun _ _ h => by cases h), Node.metAmong]
    have hleaf : (if base.isSome = true ∧ (Node.leaf r k t).kind = .classBody then []
        else (Node.leaf r k t).met) = [] := by
      split <;> rfl
    rw [hleaf]
    exact walkAll_records s base cs p
  | .branch r k members :: cs, none =>
    rw [walkAll_cons s cs p (.inl rfl), Node.metAmong, if_neg (by simp)]
    exact (walkBody_records s (.branch r k members) p).trans (walkAll_records s none cs _)
  | .branch r k members :: cs, some (name, line) =>
    rw [Node.metAmong]
    by_cases hk : k = .classBody
    · subst hk
      rw [walkAll_classBody, if_pos ⟨rfl, rfl⟩]
      refine Progress.Records.trans (.of_body_eq ?_) (walkAll_records s _ cs _)
      split <;> rfl
    · rw [walkAll_cons s cs p (.inr fun _ _ h => hk (by cases h; rfl)), if_neg fun h => hk h.2]
      exact (walkBody_records s (.branch r k members) p).trans (walkAll_records s _ cs _)
end

/-! ## The walk -/

section Walk

variable {root : Node}

/-- The last step of a walk through the body of a method that has no calls yet. -/
theorem Progress.Records.setCalls {s : Surroundings} {p q : Progress} {body : Option Node}
    (h : p.Records s (body.elim [] Node.met) q) (held : ∀ n ∈ body, root.Holds n) {b : Body}
    (hb : p.body = some b) (hnone : b.calls = []) (method : Nat) :
    q.found.Grows root
      (q.found.setCalls method ((q.body.map (fun b => b.calls.reverse)).getD [])) := by
  obtain ⟨b', cs, hb', hcalls, hrecorded⟩ := h b hb
  have hset : ((q.body.map (fun b => b.calls.reverse)).getD []) = cs := by
    rw [hb', Option.map_some, Option.getD_some, hcalls, hnone, List.append_nil,
      List.reverse_reverse]
  rw [hset]
  exact .single (.calls _ method ⟨s.line, s.scopes, body, held, hrecorded⟩)

/-- The base of an enumeration's constant is the enumeration. -/
theorem isBase_innermost (s : Surroundings) (f : Found) :
    f.IsBase (((s.innermost?.map TypeScope.id).map f.simpleName).getD "") := by
  cases s.innermost? with
  | none => exact .inl ⟨"", rfl⟩
  | some scope => exact .inr ⟨scope.id, rfl⟩

-- The cases are those of the walk itself, one theorem for each of its functions.
mutual
theorem walkBody_grows (s : Surroundings) (n : Node) (hn : root.Holds n) (p : Progress)
    (within : s.Within p.found) : p.found.Grows root (walkBody s n p).found := by
  match n with
  | .leaf _ _ _ => exact .refl
  | .branch r k parts =>
    have hparts : ∀ c ∈ parts, root.Holds c := fun c hc => hn.part hc
    rw [walkBody]
    split
    · split
      next => exact .refl
      next inner components f entered =>
        obtain ⟨_, -, hdecl⟩ := Surroundings.enterType_eq entered
        have hinner := walkTypeBody_grows inner components parts hdecl.components hparts f
          (within.enterType entered)
        exact hinner.head (.type within hn entered)
    · exact walkAll_grows s (creationBase s (.branch r k parts)) parts
        (fun _ => eraseType_of_creationBase) hparts (p.meet s (.branch r k parts)) within
theorem walkAll_grows (s : Surroundings) (base : Option (String × Nat)) (ns : List Node)
    (hbase : ∀ b ∈ base, ∃ text, b.1 = eraseType text) (hns : ∀ n ∈ ns, root.Holds n) (p : Progress)
    (within : s.Within p.found) :
    p.found.Grows root (walkAll s base ns p).found := by
  match ns, base with
  | [], _ => exact .refl
  | .leaf r k t :: cs, base =>
    rw [walkAll_cons s cs p (.inr fun _ _ h => by cases h)]
    exact walkAll_grows s base cs hbase (fun c hc => hns c (.tail _ hc)) p within
  | .branch r k members :: cs, none =>
    have hc := walkBody_grows s (.branch r k members) (hns _ (.head _)) p within
    rw [walkAll_cons s cs p (.inl rfl)]
    exact hc.trans (walkAll_grows s none cs hbase (fun c hc => hns c (.tail _ hc)) _
      (within.of_grows hc))
  | .branch r k members :: cs, some (name, line) =>
    by_cases hk : k = .classBody
    · subst hk
      rw [walkAll_classBody]
      split
      next => exact walkAll_grows s _ cs hbase (fun c hc => hns c (.tail _ hc)) p within
      next inner f entered =>
        have hmembers := walkMembers_grows inner [] members (by simp)
          (fun c hc => (hns _ (.head _)).part hc) f (within.enterAnonymous entered)
        have hgrows := hmembers.head (.anonymous within (.inl (hbase _ rfl)) entered)
        exact hgrows.trans (walkAll_grows s _ cs hbase (fun c hc => hns c (.tail _ hc))
          { p with found := _ } (within.of_grows hgrows))
    · have hc := walkBody_grows s (.branch r k members) (hns _ (.head _)) p within
      rw [walkAll_cons s cs p (.inr fun _ _ h => hk (by cases h; rfl))]
      exact hc.trans (walkAll_grows s _ cs hbase (fun c hc => hns c (.tail _ hc)) _
        (within.of_grows hc))
theorem walkTypeBody_grows (s : Surroundings) (components : List String) (ns : List Node)
    (hcomponents : ∀ t ∈ components, Header.IsParameterType t) (hns : ∀ n ∈ ns, root.Holds n)
    (f : Found) (within : s.Within f) :
    f.Grows root (walkTypeBody s components ns f) := by
  match ns with
  | [] => exact .refl
  | .leaf r k t :: cs =>
    rw [walkTypeBody]
    split
    · exact .refl
    · exact walkTypeBody_grows s components cs hcomponents (fun c hc => hns c (.tail _ hc)) f within
  | .branch r k members :: cs =>
    rw [walkTypeBody]
    split
    · exact walkMembers_grows s components members hcomponents
        (fun c hc => (hns _ (.head _)).part hc) f within
    · exact walkTypeBody_grows s components cs hcomponents (fun c hc => hns c (.tail _ hc)) f within
theorem walkMembers_grows (s : Surroundings) (components : List String) (ns : List Node)
    (hcomponents : ∀ t ∈ components, Header.IsParameterType t) (hns : ∀ n ∈ ns, root.Holds n)
    (f : Found) (within : s.Within f) :
    f.Grows root (walkMembers s components ns f) := by
  match ns with
  | [] => exact .refl
  | m :: ms =>
    have hm := walkMember_grows s components m hcomponents (hns m (.head _)) f within
    rw [walkMembers]
    exact hm.trans (walkMembers_grows s components ms hcomponents
      (fun c hc => hns c (.tail _ hc)) _ (within.of_grows hm))
theorem walkMember_grows (s : Surroundings) (components : List String) (n : Node)
    (hcomponents : ∀ t ∈ components, Header.IsParameterType t) (hn : root.Holds n) (f : Found)
    (within : s.Within f) :
    f.Grows root (walkMember s components n f) := by
  match n with
  | .leaf _ _ _ => exact .refl
  | .branch r k parts =>
    have hparts : ∀ c ∈ parts, root.Holds c := fun c hc => hn.part hc
    rw [walkMember.eq_def]
    dsimp only
    split
    -- the three kinds of methods, then the four kinds of types
    iterate 3
      · split
        next => exact .refl
        next b f' entered =>
          have hstep : f.Step root f' := by
            refine .method within hn (fun types htypes => ?_) entered rfl
            cases htypes <;> exact hcomponents
          obtain ⟨_, _, _, _, _, _, hnone⟩ := Surroundings.enterMethod_eq entered
          have hbody := walkMethodBody_grows s f.methods.size parts hparts ⟨f', some b⟩
            (within.of_grows (.single hstep)) rfl hnone
          exact hbody.head hstep
    iterate 4
      · split
        next => exact .refl
        next inner inside f' entered =>
          obtain ⟨_, -, hdecl⟩ := Surroundings.enterType_eq entered
          have hinner := walkTypeBody_grows inner inside parts hdecl.components hparts f'
            (within.enterType entered)
          exact hinner.head (.type within hn entered)
    · exact walkMembers_grows s components parts hcomponents hparts f within
    · exact walkConstantBody_grows s _ parts hparts f within
    · exact walkAll_grows s _ parts (fun _ => eraseType_of_creationBase) hparts ⟨f, none⟩ within
theorem walkMethodBody_grows (s : Surroundings) (method : Nat) (ns : List Node)
    (hns : ∀ n ∈ ns, root.Holds n) (p : Progress) (within : s.Within p.found) {b : Body}
    (hb : p.body = some b) (hnone : b.calls = []) :
    p.found.Grows root (walkMethodBody s method ns p) := by
  match ns with
  | [] =>
    have hstay : p.Records s ((none : Option Node).elim [] Node.met) p := .of_body_eq rfl
    exact hstay.setCalls (fun _ h => by cases h) hb hnone method
  | c :: cs =>
    rw [walkMethodBody]
    split
    · have hc := hns c (.head _)
      have hbody : p.Records s ((some c).elim [] Node.met) (walkBody s c p) :=
        walkBody_records s c p
      exact (walkBody_grows s c hc p within).trans
        (hbody.setCalls (fun _ h => by cases h; exact hc) hb hnone method)
    · exact walkMethodBody_grows s method cs (fun c hc => hns c (.tail _ hc)) p within hb hnone
theorem walkConstantBody_grows (s : Surroundings) (line : Nat) (ns : List Node)
    (hns : ∀ n ∈ ns, root.Holds n) (f : Found) (within : s.Within f) :
    f.Grows root (walkConstantBody s line ns f) := by
  match ns with
  | [] => exact .refl
  | .leaf r k t :: cs =>
    rw [walkConstantBody]
    split
    · exact .refl
    · exact walkConstantBody_grows s line cs (fun c hc => hns c (.tail _ hc)) f within
  | .branch r k members :: cs =>
    rw [walkConstantBody]
    split
    · dsimp only
      split
      next => exact .refl
      next inner f' entered =>
        have hmembers := walkMembers_grows inner [] members (by simp)
          (fun c hc => (hns _ (.head _)).part hc) f' (within.enterAnonymous entered)
        exact hmembers.head (.anonymous within (isBase_innermost s f) entered)
    · exact walkConstantBody_grows s line cs (fun c hc => hns c (.tail _ hc)) f within
end

/-! ## The file -/

/-- What an outline has found. -/
def Outline.found (o : Outline) : Found :=
  ⟨o.types, o.methods⟩

/-- A declaration at the top of a file adds some steps, and leaves a package that is written. -/
theorem Outline.grows_addTop (line : Nat → Nat) (o : Outline) {n : Node} (hn : root.Holds n)
    (package : ∃ text, o.package = compact text) :
    o.found.Grows root (o.addTop line n).found ∧ ∃ text, (o.addTop line n).package = compact text := by
  unfold addTop
  split
  · split
    next name hname =>
      obtain ⟨c, -, rfl⟩ := Option.map_eq_some_iff.1 hname
      exact ⟨.refl, c.text, rfl⟩
    next => exact ⟨.refl, package⟩
  · split <;> exact ⟨.refl, package⟩
  · dsimp only
    split
    next => exact ⟨.refl, package⟩
    next inner components f entered =>
      have within : Surroundings.Within ⟨line, o.package, []⟩ o.found :=
        ⟨fun _ h => absurd h List.not_mem_nil, package⟩
      obtain ⟨_, -, hdecl⟩ := Surroundings.enterType_eq entered
      have hinner := walkTypeBody_grows inner components n.parts hdecl.components
        (fun c hc => hn.part hc) f (within.enterType entered)
      exact ⟨hinner.head (.type within hn entered), package⟩

end Walk

/-- **Every outline of a tree is made by the steps of a walk.** -/
theorem Outline.grows_ofTree (line : Nat → Nat) (root : Node) :
    Found.Grows root {} (Outline.ofTree line root).found := by
  suffices h : ∀ (ns : List Node) (o : Outline), (∀ n ∈ ns, root.Holds n) →
      (∃ text, o.package = compact text) → Found.Grows root {} o.found →
        Found.Grows root {} (ns.foldl (addTop line) o).found from
    h root.children { hasErrors := root.hasError }
      (fun n hn => Node.Holds.part .refl (List.mem_filter.1 hn).1) ⟨"", rfl⟩ .refl
  intro ns
  induction ns with
  | nil => exact fun o _ _ h => h
  | cons n ns ih =>
    intro o hns package h
    simp only [List.forall_mem_cons] at hns
    obtain ⟨hgrows, hpackage⟩ := grows_addTop line o hns.1 package
    exact ih _ hns.2 hpackage (h.trans hgrows)

/-- The calls of the methods found so far are recorded in a tree. -/
def Found.Recorded (root : Node) (f : Found) : Prop :=
  ∀ m ∈ f.methods, RecordedIn root m.calls

theorem Found.Recorded.step {root : Node} {f f' : Found} (h : f.Recorded root)
    (step : f.Step root f') : f'.Recorded root := by
  cases step with
  | type _ _ entered =>
    obtain ⟨_, rfl, _⟩ := Surroundings.enterType_eq entered
    exact h
  | anonymous _ _ entered =>
    obtain ⟨_, _, rfl, _⟩ := Surroundings.enterAnonymous_eq entered
    exact h
  | method _ _ _ entered _ =>
    obtain ⟨decl, _, _, _, rfl, hdecl, -⟩ := Surroundings.enterMethod_eq entered
    intro m hm
    rcases Array.mem_push.1 hm with hm | rfl
    · exact h m hm
    · rw [hdecl.calls]
      exact recordedIn_nil root
  | calls _ method recorded =>
    intro m hm
    obtain ⟨old, hold, rfl | rfl⟩ := Found.mem_setCalls hm
    · exact h m hold
    · exact recorded

/-- **The calls of an outline are recorded in its tree.** -/
theorem Outline.recorded_ofTree (line : Nat → Nat) (root : Node) :
    (Outline.ofTree line root).found.Recorded root :=
  (Outline.grows_ofTree line root).keeps (fun _ _ step h => h.step step)
    fun _ hm => absurd hm (Array.not_mem_empty _)

end CallOrigins.Java
