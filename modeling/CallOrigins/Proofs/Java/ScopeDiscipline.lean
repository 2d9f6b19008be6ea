import CallOrigins.Proofs.Java.Sites
import CallOrigins.Proofs.Java.StackedWalk

/-!
# Scopes are left as they were found

A walk through a body knows two kinds of scopes: the types around a place, and the open blocks of
the method with their variables. Both are entered and left again while the tree is gone through.

**The law** (`walkBody_restores_scopes`): after a node the types are as they were before it, and as
many blocks are open. Only the innermost block may have got more variables, and not even that one
where the node is a block of its own or declares a type. So what comes after such a node is recorded
as if the node were not there.

For the last part two walks are followed side by side (`walkBody_same` and its companions). They may
have found different things before and number their types differently, but they see the same
variables, fields and type parameters, and nothing else matters to a call (`call?_congr`). What one
of them records, the other does as well (`SameRecorded`).
-/

namespace CallOrigins.Java

/-! ## The blocks of a method -/

namespace Body

/-- What a place in a method sees of it: the variables of the open blocks and the type
parameters. -/
def seen (b : Body) : List (List (String × String)) × List String :=
  (b.locals, b.typeParameters)

/-- What a declaration leaves alone: how many blocks are open, the variables of all but the
innermost one, and the type parameters. -/
def frame (b : Body) : Nat × List (List (String × String)) × List String :=
  (b.locals.length, b.locals.tail, b.typeParameters)

theorem frame_declare (b : Body) (name type : String) : (b.declare name type).frame = b.frame := by
  unfold declare frame
  cases hlocals : b.locals <;> simp [hlocals]

theorem frame_declareAll (b : Body) (vs : List (String × String)) :
    (b.declareAll vs).frame = b.frame := by
  induction vs generalizing b with
  | nil => rfl
  | cons v vs ih => exact (ih (b.declare v.1 v.2)).trans (frame_declare b v.1 v.2)

theorem frame_meet (b : Body) (line : Nat → Nat) (scopes : List TypeScope) (n : Node) :
    (b.meet line scopes n).frame = b.frame := by
  rw [meet_eq, frame_declareAll]
  rfl

theorem seen_declareAll {b b' : Body} (h : b.seen = b'.seen) (vs : List (String × String)) :
    (b.declareAll vs).seen = (b'.declareAll vs).seen := by
  induction vs generalizing b b' with
  | nil => exact h
  | cons v vs ih =>
    obtain ⟨hlocals, hparams⟩ := Prod.mk.inj h
    have hdeclare : (b.declare v.1 v.2).seen = (b'.declare v.1 v.2).seen := by
      unfold declare
      rw [hlocals]
      cases b'.locals with
      | nil => exact h
      | cons scope outer => exact congrArg (Prod.mk _) hparams
    exact ih hdeclare

/-- What is seen after a node does not hang on the calls. -/
theorem seen_meet {b b' : Body} (h : b.seen = b'.seen) (line line' : Nat → Nat)
    (scopes scopes' : List TypeScope) (n : Node) :
    (b.meet line scopes n).seen = (b'.meet line' scopes' n).seen := by
  rw [meet_eq, meet_eq]
  refine seen_declareAll ?_ n.declares
  exact h

/-- The body of a method inside of a node, which may be a block of its own. -/
def inside (b : Body) (k : Kind) : Body :=
  if k.opensBlock then b.openBlock else b

theorem calls_inside (b : Body) (k : Kind) : (b.inside k).calls = b.calls := by
  unfold inside
  split <;> rfl

theorem seen_inside {b b' : Body} (h : b.seen = b'.seen) (k : Kind) :
    (b.inside k).seen = (b'.inside k).seen := by
  obtain ⟨hlocals, hparams⟩ := Prod.mk.inj h
  unfold inside
  split
  · exact Prod.ext (congrArg (List.cons []) hlocals) hparams
  · exact h

/-- A block that is closed again takes its variables along. -/
theorem seen_closeBlock {b b' : Body} (h : b'.frame = b.openBlock.frame) :
    b'.closeBlock.seen = b.seen := by
  obtain ⟨-, hrest⟩ := Prod.mk.inj h
  obtain ⟨hlocals, hparams⟩ := Prod.mk.inj hrest
  exact Prod.ext hlocals hparams

end Body

namespace Progress

/-- What a place in a walk sees of the method it is in. -/
def seen (p : Progress) : Option (List (List (String × String)) × List String) :=
  p.body.map Body.seen

/-- What a declaration leaves alone in the method that a walk is in. -/
def frame (p : Progress) : Option (Nat × List (List (String × String)) × List String) :=
  p.body.map Body.frame

variable {p q : Progress}

theorem frame_eq_of_seen_eq (h : q.seen = p.seen) : q.frame = p.frame := by
  have hframe (r : Progress) : r.frame = r.seen.map (fun v => (v.1.length, v.1.tail, v.2)) := by
    rw [seen, Option.map_map]
    rfl
  rw [hframe, hframe, h]

theorem body_meet_eq (p : Progress) (s : Surroundings) (n : Node) :
    (p.meet s n).body = p.body.map (fun b => (b.inside n.kind).meet s.line s.scopes n) :=
  rfl

theorem frame_meet (p : Progress) (s : Surroundings) (n : Node) :
    (p.meet s n).frame = p.body.map (fun b => (b.inside n.kind).frame) := by
  rw [frame, body_meet_eq, Option.map_map]
  exact congrArg (Option.map · p.body) (funext fun b => Body.frame_meet _ _ _ _)

theorem seen_leave {k : Kind} (hopens : k.opensBlock = true)
    (h : q.frame = p.body.map (fun b => (b.inside k).frame)) : (q.leave k).seen = p.seen := by
  unfold frame at h
  rw [seen, leave, Option.map_map, seen]
  cases hp : p.body with
  | none =>
    rw [hp, Option.map_none, Option.map_eq_none_iff] at h
    rw [h]
    rfl
  | some b =>
    rw [hp, Option.map_some] at h
    obtain ⟨b', hq, hframe⟩ := Option.map_eq_some_iff.1 h
    rw [Body.inside, if_pos hopens] at hframe
    rw [hq, Option.map_some, Function.comp_apply, if_pos hopens, Body.seen_closeBlock hframe]
    rfl

/-- The declaration of a type means nothing to the method it stands in. -/
theorem meet_of_type (p : Progress) (s : Surroundings) {n : Node}
    (htype : (Header.typeKind? n.kind).isSome = true) : (p.meet s n).body = p.body := by
  have hmeet (b : Body) : (b.inside n.kind).meet s.line s.scopes n = b := by
    unfold Body.meet
    generalize n.kind = k at htype
    cases k <;> first | rfl | cases htype
  simp [body_meet_eq, hmeet]

theorem leave_of_not_opensBlock (p : Progress) {k : Kind} (h : k.opensBlock = false) :
    p.leave k = p := by
  simp [leave, h]

end Progress

theorem body_walkBody_of_type (s : Surroundings) {n : Node} (p : Progress)
    (htype : (Header.typeKind? n.kind).isSome = true) : (walkBody s n p).body = p.body := by
  cases n with
  | leaf r k t => rfl
  | branch r k parts =>
    have hmeet := p.meet_of_type s htype
    rw [Node.kind] at htype
    rw [walkBody, if_pos htype]
    cases s.enterType (p.meet s (.branch r k parts)).found (.branch r k parts) <;> exact hmeet

mutual
/-- **A node leaves the blocks below the innermost one as they were**, and the innermost one as well
where it is a block of its own or declares a type. -/
theorem walkBody_frame (s : Surroundings) (n : Node) (p : Progress) :
    (walkBody s n p).frame = p.frame ∧
      (n.kind.opensBlock = true ∨ (Header.typeKind? n.kind).isSome = true →
        (walkBody s n p).seen = p.seen) := by
  match n with
  | .leaf r k t => exact ⟨rfl, fun _ => rfl⟩
  | .branch r k parts =>
    by_cases htype : (Header.typeKind? k).isSome = true
    · have hseen : (walkBody s (.branch r k parts) p).seen = p.seen :=
        congrArg (Option.map Body.seen) (body_walkBody_of_type s p htype)
      exact ⟨Progress.frame_eq_of_seen_eq hseen, fun _ => hseen⟩
    · have hmeet := p.frame_meet s (.branch r k parts)
      have hall := walkAll_frame s (creationBase s (.branch r k parts)) parts
        (p.meet s (.branch r k parts))
      rw [walkBody, if_neg htype]
      by_cases hopens : k.opensBlock = true
      · have hseen := Progress.seen_leave hopens (hall.trans hmeet)
        exact ⟨Progress.frame_eq_of_seen_eq hseen, fun _ => hseen⟩
      · have hcloses : k.opensBlock = false := by simpa using hopens
        rw [Progress.leave_of_not_opensBlock _ hcloses]
        have hsame : (fun b : Body => (b.inside k).frame) = Body.frame :=
          funext fun b => by rw [Body.inside, if_neg hopens]
        refine ⟨hall.trans (hmeet.trans (by rw [Node.kind, hsame, Progress.frame])), ?_⟩
        rintro (h | h)
        · exact absurd h hopens
        · exact absurd h htype
theorem walkAll_frame (s : Surroundings) (base : Option (String × Nat)) (cs : List Node)
    (p : Progress) : (walkAll s base cs p).frame = p.frame := by
  match cs with
  | [] => rfl
  | c :: cs =>
    by_cases hopen : base.isSome = true ∧ c.kind = .classBody
    · obtain ⟨p', hwalk, hbody⟩ := walkAll_opened s cs p hopen
      rw [hwalk, walkAll_frame s base cs p', Progress.frame, hbody, Progress.frame]
    · rw [walkAll_through s cs p hopen, walkAll_frame s base cs, (walkBody_frame s c p).1]
end

/-! ## What two walks record -/

namespace Found

/-- The calls of the methods that were found, method by method. -/
def calls (f : Found) : List (List Call) :=
  f.methods.toList.map MethodDecl.calls

theorem calls_setCalls (f : Found) (method : Nat) (calls : List Call) :
    (f.setCalls method calls).calls = f.calls.set method calls := by
  rw [Found.calls, setCalls, Array.toList_modify, Found.calls]
  refine List.ext_getElem? fun i => ?_
  by_cases hi : method = i
  · subst hi
    simp [List.getElem?_set_self']
    rfl
  · simp [List.getElem?_set_ne hi, hi]

/-- **Two parts of walks find the same calls**: one leads from `f` to `g`, the other from `f'` to
`g'`, and the methods that are found on the way have the same calls. -/
def SameFound (f g f' g' : Found) : Prop :=
  ∃ added : List (List Call), g.calls = f.calls ++ added ∧ g'.calls = f'.calls ++ added

namespace SameFound

variable {f g h f' g' h' : Found}

theorem of_methods_eq (hg : g.methods = f.methods) (hg' : g'.methods = f'.methods) :
    f.SameFound g f' g' :=
  ⟨[], by rw [calls, hg, List.append_nil, calls], by rw [calls, hg', List.append_nil, calls]⟩

theorem trans (first : f.SameFound g f' g') (second : g.SameFound h g' h') :
    f.SameFound h f' h' := by
  obtain ⟨added, hg, hg'⟩ := first
  obtain ⟨added', hh, hh'⟩ := second
  exact ⟨added ++ added', by rw [hh, hg, List.append_assoc], by rw [hh', hg', List.append_assoc]⟩

/-- A method, and what is found in its body before its calls are set. -/
theorem method {f₀ f₀' : Found} {decl decl' : MethodDecl} {calls : List Call}
    (hf : f.methods = f₀.methods.push decl) (hf' : f'.methods = f₀'.methods.push decl')
    (inner : f.SameFound g f' g') :
    f₀.SameFound (g.setCalls f₀.methods.size calls) f₀' (g'.setCalls f₀'.methods.size calls) := by
  obtain ⟨added, hg, hg'⟩ := inner
  have hset {f₀ f g : Found} {decl : MethodDecl} (hf : f.methods = f₀.methods.push decl)
      (hg : g.calls = f.calls ++ added) :
      (g.setCalls f₀.methods.size calls).calls = f₀.calls ++ (calls :: added) := by
    have hlength : f₀.methods.size = f₀.calls.length := by simp [Found.calls]
    rw [calls_setCalls, hg, Found.calls, hf, Array.toList_push, List.map_append, hlength]
    simp [Found.calls]
  exact ⟨calls :: added, hset hf hg, hset hf' hg'⟩

end SameFound
end Found

namespace Surroundings

/-- **Two places have the same types around them**, their numbers aside. -/
structure SameTypes (s s' : Surroundings) : Prop where
  line : s.line = s'.line
  scopes : s.scopes.map TypeScope.known = s'.scopes.map TypeScope.known

namespace SameTypes

variable {s s' inner inner' : Surroundings}

theorem refl (s : Surroundings) : s.SameTypes s :=
  ⟨rfl, rfl⟩

theorem opens {known : TypeScope.Known} (h : s.SameTypes s') (hinner : s.Opens inner known)
    (hinner' : s'.Opens inner' known) : inner.SameTypes inner' where
  line := by rw [hinner.line, hinner'.line, h.line]
  scopes := by rw [hinner.scopes, hinner'.scopes, h.scopes]

theorem isSome_innermost? (h : s.SameTypes s') : s.innermost?.isSome = s'.innermost?.isSome := by
  have hhead := congrArg (fun known => known.head?.isSome) h.scopes
  simpa [innermost?] using hhead

theorem creationBase_eq (h : s.SameTypes s') (n : Node) : creationBase s n = creationBase s' n := by
  rw [creationBase, creationBase, h.line]

theorem sameView (h : s.SameTypes s') {b b' : Body} (hb : b.seen = b'.seen) :
    SameView s.scopes b s'.scopes b' := by
  obtain ⟨hlocals, hparams⟩ := Prod.mk.inj hb
  have hfields (scopes : List TypeScope) (name : String) : field? scopes name =
      (scopes.map TypeScope.known).findSome? (fun known => known.1.lookup name) := by
    rw [List.findSome?_map]
    rfl
  have htypes (scopes : List TypeScope) (type : String) :
      scopes.any (fun s => s.typeParameters.contains type) =
        (scopes.map TypeScope.known).any (fun known => known.2.contains type) := by
    rw [List.any_map]
    rfl
  refine ⟨by rw [hlocals], fun name => ?_, fun type => ?_⟩
  · rw [hfields, hfields, h.scopes]
  · rw [isTypeParameter, isTypeParameter, htypes, htypes, h.scopes, hparams]

end SameTypes

variable {s s' : Surroundings} {n : Node}

theorem isSome_enterType (s : Surroundings) (f : Found) (n : Node) :
    (s.enterType f n).isSome =
      ((Header.typeKind? n.kind).isSome && (n.child? .name).isSome) := by
  unfold enterType
  cases Header.typeKind? n.kind <;> cases n.child? .name <;> rfl

theorem isSome_enterAnonymous (s : Surroundings) (f : Found) (base : String) (number : Nat)
    (members : List Node) :
    (s.enterAnonymous f base number members).isSome = s.innermost?.isSome := by
  unfold enterAnonymous
  cases s.innermost? <;> rfl

theorem isSome_enterMethod (s : Surroundings) (f : Found) (n : Node)
    (components : Option (List String)) :
    (s.enterMethod f n components).isSome =
      (s.innermost?.isSome && (n.kind ≠ .methodDeclaration || (n.child? .name).isSome)) := by
  unfold enterMethod
  cases s.innermost? with
  | none => rfl
  | some scope =>
    by_cases hkind : n.kind = .methodDeclaration
    · cases hname : n.child? .name <;> simp [hkind]
    · simp [hkind]

theorem both_or_neither {α β : Type} {o : Option α} {o' : Option β} (h : o.isSome = o'.isSome) :
    o = none ∧ o' = none ∨ ∃ a b, o = some a ∧ o' = some b := by
  cases o <;> cases o' <;> simp_all

/-- A type is entered in both walks or in neither. -/
theorem SameTypes.enterType (h : s.SameTypes s') (f f' : Found) (n : Node) :
    s.enterType f n = none ∧ s'.enterType f' n = none ∨
      ∃ entered entered', s.enterType f n = some entered ∧ s'.enterType f' n = some entered' ∧
        entered.1.SameTypes entered'.1 ∧ f.SameFound entered.2.2 f' entered'.2.2 := by
  have hboth : (s.enterType f n).isSome = (s'.enterType f' n).isSome := by
    rw [isSome_enterType, isSome_enterType]
  rcases both_or_neither hboth with hnone | ⟨entered, entered', he, he'⟩
  · exact .inl hnone
  · obtain ⟨hopens, hmethods, -⟩ := opens_enterType he
    obtain ⟨hopens', hmethods', -⟩ := opens_enterType he'
    exact .inr ⟨entered, entered', he, he', h.opens hopens hopens',
      .of_methods_eq hmethods hmethods'⟩

/-- An anonymous type is entered in both walks or in neither. -/
theorem SameTypes.enterAnonymous (h : s.SameTypes s') (f f' : Found) (base base' : String)
    (number : Nat) (members : List Node) :
    s.enterAnonymous f base number members = none ∧
        s'.enterAnonymous f' base' number members = none ∨
      ∃ entered entered', s.enterAnonymous f base number members = some entered ∧
        s'.enterAnonymous f' base' number members = some entered' ∧
          entered.1.SameTypes entered'.1 ∧ f.SameFound entered.2 f' entered'.2 := by
  have hboth : (s.enterAnonymous f base number members).isSome =
      (s'.enterAnonymous f' base' number members).isSome := by
    rw [isSome_enterAnonymous, isSome_enterAnonymous, h.isSome_innermost?]
  rcases both_or_neither hboth with hnone | ⟨entered, entered', he, he'⟩
  · exact .inl hnone
  · obtain ⟨hopens, hmethods⟩ := opens_enterAnonymous he
    obtain ⟨hopens', hmethods'⟩ := opens_enterAnonymous he'
    exact .inr ⟨entered, entered', he, he', h.opens hopens hopens',
      .of_methods_eq hmethods hmethods'⟩

/-- A method is entered in both walks or in neither, and its body starts with the same variables. -/
theorem SameTypes.enterMethod (h : s.SameTypes s') (f f' : Found) (n : Node)
    {components components' : Option (List String)}
    (hcomponents : components.isSome = decide (n.kind = .compactConstructorDeclaration))
    (hcomponents' : components'.isSome = decide (n.kind = .compactConstructorDeclaration)) :
    s.enterMethod f n components = none ∧ s'.enterMethod f' n components' = none ∨
      ∃ g g' decl decl', s.enterMethod f n components = some (n.openingBody, g) ∧
        s'.enterMethod f' n components' = some (n.openingBody, g') ∧
          g.methods = f.methods.push decl ∧ g'.methods = f'.methods.push decl' := by
  have hboth : (s.enterMethod f n components).isSome =
      (s'.enterMethod f' n components').isSome := by
    rw [isSome_enterMethod, isSome_enterMethod, h.isSome_innermost?]
  rcases both_or_neither hboth with hnone | ⟨⟨b, g⟩, ⟨b', g'⟩, he, he'⟩
  · exact .inl hnone
  · obtain ⟨rfl, decl, hmethods, -⟩ := enterMethod_opening hcomponents he
    obtain ⟨rfl, decl', hmethods', -⟩ := enterMethod_opening hcomponents' he'
    exact .inr ⟨g, g', decl, decl', he, he', hmethods, hmethods'⟩

end Surroundings

namespace Progress

/-- The calls of the method that a walk is in, the last one first. -/
def calls (p : Progress) : List Call :=
  (p.body.map Body.calls).getD []

theorem reverse_calls (p : Progress) :
    (p.body.map (fun b => b.calls.reverse)).getD [] = p.calls.reverse := by
  unfold calls
  cases p.body <;> rfl

/-- **Two parts of walks record the same**: one leads from `p` to `q`, the other from `p'` to `q'`.
They add the same calls to the method they are in, find the same calls in other methods, and the
same can be seen after them. -/
structure SameRecorded (p q p' q' : Progress) : Prop where
  found : p.found.SameFound q.found p'.found q'.found
  made : ∃ made : List Call, q.calls = made ++ p.calls ∧ q'.calls = made ++ p'.calls
  seen : q.seen = q'.seen

variable {p q r p' q' r' : Progress} {s s' : Surroundings}

theorem SameRecorded.of_body_eq (hfound : p.found.SameFound q.found p'.found q'.found)
    (hq : q.body = p.body) (hq' : q'.body = p'.body) (hseen : p.seen = p'.seen) :
    p.SameRecorded q p' q' where
  found := hfound
  made := ⟨[], by rw [calls, hq]; rfl, by rw [calls, hq']; rfl⟩
  seen := by
    show q.body.map Body.seen = q'.body.map Body.seen
    rw [hq, hq']
    exact hseen

theorem SameRecorded.trans (first : p.SameRecorded q p' q') (second : q.SameRecorded r q' r') :
    p.SameRecorded r p' r' where
  found := first.found.trans second.found
  made := by
    obtain ⟨made, hq, hq'⟩ := first.made
    obtain ⟨made', hr, hr'⟩ := second.made
    exact ⟨made' ++ made, by rw [hr, hq, List.append_assoc], by rw [hr', hq', List.append_assoc]⟩
  seen := second.seen

theorem seen_eq_cases (h : p.seen = p'.seen) : p.body = none ∧ p'.body = none ∨
    ∃ b b', p.body = some b ∧ p'.body = some b' ∧ b.seen = b'.seen := by
  unfold seen at h
  cases hb : p.body with
  | none =>
    rw [hb] at h
    exact .inl ⟨rfl, Option.map_eq_none_iff.1 h.symm⟩
  | some b =>
    rw [hb] at h
    obtain ⟨b', hb', hseen⟩ := Option.map_eq_some_iff.1 h.symm
    exact .inr ⟨b, b', rfl, hb', hseen.symm⟩

theorem sameRecorded_meet (h : s.SameTypes s') (hseen : p.seen = p'.seen) (n : Node) :
    p.SameRecorded (p.meet s n) p' (p'.meet s' n) := by
  rcases seen_eq_cases hseen with ⟨hb, hb'⟩ | ⟨b, b', hb, hb', hbodies⟩
  · refine .of_body_eq (.of_methods_eq rfl rfl) ?_ ?_ hseen
    · rw [meet, hb, Option.map_none]
    · rw [meet, hb', Option.map_none]
  · have hinside := Body.seen_inside hbodies n.kind
    have hcall : call? s.line s.scopes (b.inside n.kind) n =
        call? s'.line s'.scopes (b'.inside n.kind) n := by
      rw [h.line]
      exact call?_congr s'.line (h.sameView hinside) n
    have hmade {r : Progress} {t : Surroundings} {b : Body} (hr : r.body = some b) :
        (r.meet t n).calls =
          (call? t.line t.scopes (b.inside n.kind) n).toList ++ r.calls := by
      rw [calls, body_meet_eq, hr, calls, hr, Option.map_some, Option.map_some, Option.map_some,
        Option.getD_some, Option.getD_some, Body.calls_meet, Body.calls_inside]
    refine ⟨.of_methods_eq rfl rfl, ⟨_, hmade hb, hcall ▸ hmade hb'⟩, ?_⟩
    rw [seen, body_meet_eq, seen, body_meet_eq, hb, hb']
    exact congrArg some (Body.seen_meet hinside _ _ _ _ n)

theorem sameRecorded_leave (hseen : p.seen = p'.seen) (k : Kind) :
    p.SameRecorded (p.leave k) p' (p'.leave k) := by
  rcases seen_eq_cases hseen with ⟨hb, hb'⟩ | ⟨b, b', hb, hb', hbodies⟩
  · refine .of_body_eq (.of_methods_eq rfl rfl) ?_ ?_ hseen
    · rw [leave, hb, Option.map_none]
    · rw [leave, hb', Option.map_none]
  · by_cases hopens : k.opensBlock = true
    · obtain ⟨hlocals, hparams⟩ := Prod.mk.inj hbodies
      have hleave {r : Progress} {b : Body} (hr : r.body = some b) :
          (r.leave k).body = some b.closeBlock := by
        rw [leave, hr, Option.map_some, if_pos hopens]
      refine ⟨.of_methods_eq rfl rfl, ⟨[], ?_, ?_⟩, ?_⟩
      · rw [calls, hleave hb, calls, hb]
        rfl
      · rw [calls, hleave hb', calls, hb']
        rfl
      · rw [seen, hleave hb, seen, hleave hb']
        exact congrArg some (Prod.ext (congrArg List.tail hlocals) hparams)
    · have hcloses : k.opensBlock = false := by simpa using hopens
      rw [leave_of_not_opensBlock p hcloses, leave_of_not_opensBlock p' hcloses]
      exact .of_body_eq (.of_methods_eq rfl rfl) rfl rfl hseen

end Progress

-- The cases are those of the walk itself, one theorem for each of its functions. The components of
-- a record and the base of a constant may differ: they are for names, and no call hangs on them.
mutual
/-- **Two walks through one node record the same**, where they see the same. -/
theorem walkBody_same {s s' : Surroundings} (h : s.SameTypes s') (n : Node) {p p' : Progress}
    (hseen : p.seen = p'.seen) : p.SameRecorded (walkBody s n p) p' (walkBody s' n p') := by
  match n with
  | .leaf r k t => exact .of_body_eq (.of_methods_eq rfl rfl) rfl rfl hseen
  | .branch r k parts =>
    have hmeet := Progress.sameRecorded_meet h hseen (.branch r k parts)
    rw [walkBody, walkBody]
    by_cases htype : (Header.typeKind? k).isSome = true
    · rw [if_pos htype, if_pos htype]
      refine hmeet.trans ?_
      rcases h.enterType (p.meet s (.branch r k parts)).found (p'.meet s' (.branch r k parts)).found
        (.branch r k parts) with ⟨hnone, hnone'⟩ | ⟨entered, entered', he, he', hinner, hfound⟩
      · rw [hnone, hnone']
        exact .of_body_eq (.of_methods_eq rfl rfl) rfl rfl hmeet.seen
      · rw [he, he']
        exact .of_body_eq (hfound.trans (walkTypeBody_same hinner _ _ parts _ _)) rfl rfl hmeet.seen
    · rw [if_neg htype, if_neg htype]
      rw [h.creationBase_eq]
      have hall := walkAll_same h (creationBase s' (.branch r k parts)) parts hmeet.seen
      exact (hmeet.trans hall).trans (Progress.sameRecorded_leave hall.seen k)
theorem walkAll_same {s s' : Surroundings} (h : s.SameTypes s') (base : Option (String × Nat))
    (cs : List Node) {p p' : Progress} (hseen : p.seen = p'.seen) :
    p.SameRecorded (walkAll s base cs p) p' (walkAll s' base cs p') := by
  match cs with
  | [] => exact .of_body_eq (.of_methods_eq rfl rfl) rfl rfl hseen
  | .leaf r k t :: cs =>
    rw [walkAll_cons s cs p (.inr fun _ _ h => by cases h),
      walkAll_cons s' cs p' (.inr fun _ _ h => by cases h)]
    exact walkAll_same h base cs hseen
  | .branch r k members :: cs =>
    by_cases hopen : base.isSome = true ∧ k = .classBody
    · obtain ⟨⟨⟨name, number⟩, rfl⟩, rfl⟩ := And.imp_left Option.isSome_iff_exists.1 hopen
      rw [walkAll_classBody, walkAll_classBody]
      rcases h.enterAnonymous p.found p'.found name name number members with
        ⟨hnone, hnone'⟩ | ⟨entered, entered', he, he', hinner, hfound⟩
      · rw [hnone, hnone']
        exact walkAll_same h _ cs hseen
      · rw [he, he']
        have hmembers := walkMembers_same hinner [] [] members entered.2 entered'.2
        have hfirst : p.SameRecorded
            { p with found := walkMembers entered.1 [] members entered.2 } p'
            { p' with found := walkMembers entered'.1 [] members entered'.2 } :=
          .of_body_eq (hfound.trans hmembers) rfl rfl hseen
        exact hfirst.trans (walkAll_same h _ cs hfirst.seen)
    · have hfirst := walkBody_same h (.branch r k members) hseen
      rw [walkAll_through s cs p hopen, walkAll_through s' cs p' hopen]
      exact hfirst.trans (walkAll_same h base cs hfirst.seen)
theorem walkTypeBody_same {s s' : Surroundings} (h : s.SameTypes s')
    (components components' : List String) (cs : List Node) (f f' : Found) :
    f.SameFound (walkTypeBody s components cs f) f' (walkTypeBody s' components' cs f') := by
  match cs with
  | [] => exact .of_methods_eq rfl rfl
  | .leaf r k t :: cs =>
    rw [walkTypeBody, walkTypeBody]
    by_cases hbody : (Node.leaf r k t).role = some .body
    · rw [if_pos hbody, if_pos hbody]
      exact .of_methods_eq rfl rfl
    · rw [if_neg hbody, if_neg hbody]
      exact walkTypeBody_same h components components' cs f f'
  | .branch r k members :: cs =>
    rw [walkTypeBody, walkTypeBody]
    by_cases hbody : (Node.branch r k members).role = some .body
    · rw [if_pos hbody, if_pos hbody]
      exact walkMembers_same h components components' members f f'
    · rw [if_neg hbody, if_neg hbody]
      exact walkTypeBody_same h components components' cs f f'
theorem walkMembers_same {s s' : Surroundings} (h : s.SameTypes s')
    (components components' : List String) (ms : List Node) (f f' : Found) :
    f.SameFound (walkMembers s components ms f) f' (walkMembers s' components' ms f') := by
  match ms with
  | [] => exact .of_methods_eq rfl rfl
  | m :: ms =>
    rw [walkMembers, walkMembers]
    exact (walkMember_same h components components' m f f').trans
      (walkMembers_same h components components' ms _ _)
theorem walkMember_same {s s' : Surroundings} (h : s.SameTypes s')
    (components components' : List String) (n : Node) (f f' : Found) :
    f.SameFound (walkMember s components n f) f' (walkMember s' components' n f') := by
  match n with
  | .leaf r k t => exact .of_methods_eq rfl rfl
  | .branch r k parts =>
    by_cases hmethod : k.declaresMethod = true
    · rw [walkMember_method s components r parts f hmethod,
        walkMember_method s' components' r parts f' hmethod]
      have hcompact (types : List String) :
          (if k = .compactConstructorDeclaration then some types else none).isSome =
            decide (k = .compactConstructorDeclaration) := by
        split <;> simp [*]
      rcases h.enterMethod f f' (.branch r k parts) (hcompact components) (hcompact components')
        with ⟨hnone, hnone'⟩ | ⟨g, g', decl, decl', he, he', hg, hg'⟩
      · rw [hnone, hnone']
        exact .of_methods_eq rfl rfl
      · rw [he, he']
        have hbody : (Progress.mk g (some (Node.branch r k parts).openingBody)).body =
            (Progress.mk g' (some (Node.branch r k parts).openingBody)).body := rfl
        exact walkMethodBody_same h parts hbody hg hg'
    by_cases htype : (Header.typeKind? k).isSome = true
    · rw [walkMember_type s components r parts f htype,
        walkMember_type s' components' r parts f' htype]
      rcases h.enterType f f' (.branch r k parts) with
        ⟨hnone, hnone'⟩ | ⟨entered, entered', he, he', hinner, hfound⟩
      · rw [hnone, hnone']
        exact .of_methods_eq rfl rfl
      · rw [he, he']
        exact hfound.trans (walkTypeBody_same hinner _ _ parts _ _)
    by_cases hmembers : k = .enumBodyDeclarations
    · subst hmembers
      exact walkMembers_same h components components' parts f f'
    by_cases hconstant : k = .enumConstant
    · subst hconstant
      show f.SameFound (walkConstantBody s (s.line _) parts f) f'
        (walkConstantBody s' (s'.line _) parts f')
      rw [h.line]
      exact walkConstantBody_same h _ parts f f'
    rw [walkMember_code s components r parts f hmethod htype hmembers hconstant,
      walkMember_code s' components' r parts f' hmethod htype hmembers hconstant,
      h.creationBase_eq]
    have hseen : (Progress.mk f none).seen = (Progress.mk f' none).seen := rfl
    exact (walkAll_same h _ parts hseen).found
theorem walkMethodBody_same {s s' : Surroundings} (h : s.SameTypes s') (cs : List Node)
    {p p' : Progress} (hbody : p.body = p'.body) {f f' : Found} {decl decl' : MethodDecl}
    (hf : p.found.methods = f.methods.push decl) (hf' : p'.found.methods = f'.methods.push decl') :
    f.SameFound (walkMethodBody s f.methods.size cs p) f'
      (walkMethodBody s' f'.methods.size cs p') := by
  match cs with
  | [] =>
    rw [walkMethodBody, walkMethodBody, hbody]
    exact .method hf hf' (.of_methods_eq rfl rfl)
  | c :: cs =>
    rw [walkMethodBody, walkMethodBody]
    by_cases hc : c.role = some .body
    · have hwalk := walkBody_same h c (congrArg (Option.map Body.seen) hbody)
      have hcalls : (walkBody s c p).calls = (walkBody s' c p').calls := by
        obtain ⟨made, hq, hq'⟩ := hwalk.made
        rw [hq, hq', Progress.calls, Progress.calls, hbody]
      rw [if_pos hc, if_pos hc]
      dsimp only
      rw [Progress.reverse_calls, Progress.reverse_calls, hcalls]
      exact .method hf hf' hwalk.found
    · rw [if_neg hc, if_neg hc]
      exact walkMethodBody_same h cs hbody hf hf'
theorem walkConstantBody_same {s s' : Surroundings} (h : s.SameTypes s') (number : Nat)
    (cs : List Node) (f f' : Found) :
    f.SameFound (walkConstantBody s number cs f) f' (walkConstantBody s' number cs f') := by
  match cs with
  | [] => exact .of_methods_eq rfl rfl
  | .leaf r k t :: cs =>
    rw [walkConstantBody, walkConstantBody]
    by_cases hbody : (Node.leaf r k t).role = some .body
    · rw [if_pos hbody, if_pos hbody]
      exact .of_methods_eq rfl rfl
    · rw [if_neg hbody, if_neg hbody]
      exact walkConstantBody_same h number cs f f'
  | .branch r k members :: cs =>
    rw [walkConstantBody, walkConstantBody]
    by_cases hbody : (Node.branch r k members).role = some .body
    · rw [if_pos hbody, if_pos hbody]
      dsimp only
      rcases h.enterAnonymous f f' (((s.innermost?.map TypeScope.id).map f.simpleName).getD "")
        (((s'.innermost?.map TypeScope.id).map f'.simpleName).getD "") number members with
        ⟨hnone, hnone'⟩ | ⟨entered, entered', he, he', hinner, hfound⟩
      · rw [hnone, hnone']
        exact .of_methods_eq rfl rfl
      · rw [he, he']
        exact hfound.trans (walkMembers_same hinner [] [] members _ _)
    · rw [if_neg hbody, if_neg hbody]
      exact walkConstantBody_same h number cs f f'
end

/-- **Scopes are left as they were found.** A walk through any node, with any types around it and in
any method or none:

* with one stack of types that are put on and taken off, it finds the same and the stack is after it
  as it was before;
* as many blocks are open after it as before, and but for the innermost one they have the variables
  they had;
* where the node is a block of its own or declares a type, the innermost one has them as well, and
  its later siblings are recorded as they are without it: the same calls with the same receivers, in
  the method around them and in the methods of the types that they declare. -/
theorem walkBody_restores_scopes (s : Surroundings) (n : Node) (p : Progress) :
    (stackBody s.line s.package n p).run s.scopes = (walkBody s n p, s.scopes) ∧
      (walkBody s n p).frame = p.frame ∧
      (n.kind.opensBlock = true ∨ (Header.typeKind? n.kind).isSome = true →
        (walkBody s n p).seen = p.seen ∧
          ∀ (base : Option (String × Nat)) (siblings : List Node),
            p.SameRecorded (walkAll s base siblings p)
              (walkBody s n p) (walkAll s base (n :: siblings) p)) := by
  obtain ⟨hframe, hseen⟩ := walkBody_frame s n p
  refine ⟨run_stackBody s n p, hframe, fun hkind => ⟨hseen hkind, fun base siblings => ?_⟩⟩
  have hpart : ¬ (base.isSome = true ∧ n.kind = .classBody) := by
    rintro ⟨-, hclass⟩
    rw [hclass] at hkind
    rcases hkind with h | h <;> cases h
  rw [walkAll_through s siblings p hpart]
  exact walkAll_same (.refl s) base siblings (hseen hkind).symm

end CallOrigins.Java
