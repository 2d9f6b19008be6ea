import CallOrigins.Proofs.GraphOperations
import CallOrigins.Proofs.Search.Reached
import CallOrigins.Proofs.Search.Script

/-!
# What a traversal comes to

A traversal that is never cancelled, against what the codebase lets it reach. Three layers:

* **accepting references** (`eval_acceptAll`): the call sites among them add their edges, their
  new direct calls and their new callers, and nothing else changes (`Adds`);
* **one round** (`eval_visit`, `Explores.visit`): taking a method off the queue keeps what is
  known of the methods that were taken off before (`Explores`);
* **all rounds** (`eval_expand`): the methods are taken off in the order in which the queue is
  worked off, up to the first whose search ends everything.

**The law** (`eval_traverse`): a traversal fails with the first fatal failure in breadth-first
order, and where there is none it finds the calls of all the reached methods.
-/

namespace CallOrigins

namespace Traversal

open Codebase (siteKey)

variable {cb : Codebase} {target searched : MethodId} {t t' t'' : Traversal}
  {xs ys : List (MethodId × Reference)}

/-! ## What is known of external methods -/

/-- **A state that knows nothing but what the codebase answers.** The methods that are marked in
the graph are those that were asked for and are external. -/
structure Coherent (cb : Codebase) (t : Traversal) : Prop where
  answered : ∀ m b, t.external.lookup m = some b → cb.isExternal m = b
  marked : ∀ m, t.graph.isExternal m = true ↔ t.external.lookup m = some true
  queued : ∀ m ∈ t.visited, m ∈ t.queued

theorem edges_noteExternal (t : Traversal) (m : MethodId) (external : Bool) :
    (t.noteExternal m external).graph.edges = t.graph.edges := by
  unfold noteExternal
  cases external <;> simp

theorem lookup_noteExternal (t : Traversal) (m : MethodId) (external : Bool) (x : MethodId) :
    (t.noteExternal m external).external.lookup x =
      if x = m then some external else t.external.lookup x := by
  rw [noteExternal, List.lookup_cons]
  by_cases hxm : x = m
  · rw [if_pos hxm, beq_iff_eq.2 hxm]
  · rw [if_neg hxm, beq_false_of_ne hxm]

/-- A method that was not asked for before is marked if it is external, and no other one is. -/
theorem marked_noteExternal {m x : MethodId} (hm : t.external.lookup m = none)
    (h : t.graph.isExternal x = true ↔ t.external.lookup x = some true) (external : Bool) :
    (t.noteExternal m external).graph.isExternal x = true ↔
      (t.noteExternal m external).external.lookup x = some true := by
  rw [lookup_noteExternal]
  by_cases hxm : x = m
  · subst hxm
    rw [hm] at h
    cases external <;> simp [noteExternal, CallGraph.isExternal_markExternal, h]
  · cases external <;> simp [noteExternal, CallGraph.isExternal_markExternal, h, hxm]

/-- Asking for a method that was not asked for before. -/
theorem Coherent.noteExternal (h : t.Coherent cb) {m : MethodId}
    (hm : t.external.lookup m = none) : (t.noteExternal m (cb.isExternal m)).Coherent cb where
  answered x b hx := by
    rw [lookup_noteExternal] at hx
    by_cases hxm : x = m
    · rw [if_pos hxm] at hx
      rw [hxm, Option.some.inj hx]
    · rw [if_neg hxm] at hx
      exact h.answered x b hx
  marked x := marked_noteExternal hm (h.marked x) _
  queued := h.queued

/-! ## What call sites add -/

/-- Those of some call sites that are direct calls not recorded before. -/
def newCalls (target searched : MethodId) (recorded : List (MethodId × Nat))
    (sites : List (MethodId × Reference)) : List (MethodId × Reference) :=
  if searched = target then freshBy siteKey recorded sites else []

theorem newCalls_append (target searched : MethodId) (recorded : List (MethodId × Nat))
    (xs ys : List (MethodId × Reference)) :
    newCalls target searched recorded (xs ++ ys) = newCalls target searched recorded xs ++
      newCalls target searched
        (((newCalls target searched recorded xs).map siteKey).reverse ++ recorded) ys := by
  unfold newCalls
  split
  · exact freshBy_append ..
  · rfl

theorem newCalls_singleton (target searched : MethodId) (recorded : List (MethodId × Nat))
    (site : MethodId × Reference) :
    newCalls target searched recorded [site] =
      if decide (searched = target) && !recorded.contains (siteKey site) then [site] else [] := by
  simp only [newCalls, freshBy, Bool.and_eq_true, decide_eq_true_eq, Bool.not_eq_true',
    List.contains_eq_mem, decide_eq_false_iff_not]
  grind

/-- The callers at some call sites that are not external and were not put into the queue. -/
def newSources (cb : Codebase) (queued : List MethodId) (sites : List (MethodId × Reference)) :
    List MethodId :=
  fresh queued (cb.sourcesIn (sites.map Prod.fst))

theorem newSources_append (cb : Codebase) (queued : List MethodId)
    (xs ys : List (MethodId × Reference)) :
    newSources cb queued (xs ++ ys) = newSources cb queued xs ++
      newSources cb ((newSources cb queued xs).reverse ++ queued) ys := by
  simp only [newSources, Codebase.sourcesIn, List.map_append, List.filter_append, fresh_append]

/-- **What call sites of a searched method add to a state**: an edge each, the direct calls and
the callers that are new. Of all callers it is known whether they are external. -/
structure Adds (cb : Codebase) (target searched : MethodId) (sites : List (MethodId × Reference))
    (t t' : Traversal) : Prop where
  visited : t'.visited = t.visited
  queue : t'.queue = t.queue ++ newSources cb t.queued sites
  queued : t'.queued = (newSources cb t.queued sites).reverse ++ t.queued
  edges : ∀ e, e ∈ t'.graph.edges ↔
    e ∈ t.graph.edges ∨ e.1 = searched ∧ e.2 ∈ sites.map Prod.fst
  asked : ∀ m, (t'.external.lookup m).isSome = true ↔
    (t.external.lookup m).isSome = true ∨ m ∈ sites.map Prod.fst
  recorded : t'.recorded =
    ((newCalls target searched t.recorded sites).map siteKey).reverse ++ t.recorded
  directCalls : t'.directCalls =
    t.directCalls ++ (newCalls target searched t.recorded sites).map (cb.directCall target)

theorem Adds.refl (cb : Codebase) (target searched : MethodId) (t : Traversal) :
    Adds cb target searched [] t t where
  visited := rfl
  queue := (List.append_nil _).symm
  queued := rfl
  edges e := by simp
  asked m := by simp
  recorded := by simp [newCalls, freshBy]
  directCalls := by simp [newCalls, freshBy]

/-- Some call sites after others. -/
theorem Adds.trans (h : Adds cb target searched xs t t') (h' : Adds cb target searched ys t' t'') :
    Adds cb target searched (xs ++ ys) t t'' where
  visited := h'.visited.trans h.visited
  queue := by
    rw [h'.queue, h.queue, h.queued, newSources_append, List.append_assoc]
  queued := by
    rw [h'.queued, h.queued, newSources_append, List.reverse_append, List.append_assoc]
  edges e := by
    rw [h'.edges, h.edges, List.map_append, List.mem_append]
    grind
  asked m := by
    rw [h'.asked, h.asked, List.map_append, List.mem_append, or_assoc]
  recorded := by
    rw [h'.recorded, h.recorded, newCalls_append, List.map_append, List.reverse_append,
      List.append_assoc]
  directCalls := by
    rw [h'.directCalls, h.directCalls, h.recorded, newCalls_append, List.map_append,
      List.append_assoc]

/-! ## Accepting references -/

/-- What is different once a method was classified: it is known whether it is external. -/
structure Classifies (m : MethodId) (t t' : Traversal) : Prop where
  visited : t'.visited = t.visited
  queue : t'.queue = t.queue
  queued : t'.queued = t.queued
  edges : t'.graph.edges = t.graph.edges
  asked : ∀ x, (t'.external.lookup x).isSome = true ↔
    (t.external.lookup x).isSome = true ∨ x = m
  recorded : t'.recorded = t.recorded
  directCalls : t'.directCalls = t.directCalls

/-- Whether a method is external is known or asked for; nothing but the marks changes. -/
theorem eval_classify (h : t.Coherent cb) (m : MethodId) :
    ∃ t', (t.classify m).eval cb = .ok (cb.isExternal m, t') ∧ t'.Coherent cb ∧
      Classifies m t t' := by
  unfold classify
  cases hm : t.external.lookup m with
  | some b =>
    refine ⟨t, ?_, h, rfl, rfl, rfl, rfl, fun x => ?_, rfl, rfl⟩
    · rw [h.answered m b hm]
      rfl
    · constructor
      · exact .inl
      · rintro (hx | rfl)
        · exact hx
        · rw [hm]
          rfl
  | none =>
    refine ⟨t.noteExternal m (cb.isExternal m), rfl, h.noteExternal hm, rfl, rfl, rfl,
      edges_noteExternal .., fun x => ?_, rfl, rfl⟩
    simp only [noteExternal, List.lookup_cons]
    by_cases hx : x = m
    · simp [hx]
    · simp [hx, beq_false_of_ne hx]

theorem eval_record (t : Traversal) (target c : MethodId) (r : Reference) :
    (t.record target c r).eval cb = .ok { t with
      recorded := (c, r.offset) :: t.recorded
      directCalls := t.directCalls ++ [cb.directCall target (c, r)] } := rfl

/-- A caller is put into the queue if it is new; what was visited was in the queue. -/
theorem enqueue_eq (h : ∀ m ∈ t.visited, m ∈ t.queued) (m : MethodId) :
    t.enqueue m = { t with
      queue := t.queue ++ fresh t.queued [m]
      queued := (fresh t.queued [m]).reverse ++ t.queued } := by
  unfold enqueue
  by_cases hm : m ∈ t.queued
  · rw [if_pos (.inr hm), fresh_cons_of_mem hm]
    simp
  · rw [if_neg (fun hor => hm (hor.elim (h m) id)), fresh_cons_of_not_mem hm]
    rfl

/-- A caller that is external is not put into the queue. -/
theorem enqueue_source_eq (site : MethodId × Reference) (h : ∀ m ∈ t.visited, m ∈ t.queued) :
    (if cb.isExternal site.1 then t else t.enqueue site.1) = { t with
      queue := t.queue ++ newSources cb t.queued [site]
      queued := (newSources cb t.queued [site]).reverse ++ t.queued } := by
  unfold newSources Codebase.sourcesIn
  cases hsite : cb.isExternal site.1
  · simp [hsite, enqueue_eq h]
  · simp [hsite]

/-- The state after a caller was accepted, but for what is known of external methods. -/
def withCaller (cb : Codebase) (target searched : MethodId) (site : MethodId × Reference)
    (t : Traversal) : Traversal :=
  { t with
    graph := t.graph.addEdge searched site.1
    queue := t.queue ++ newSources cb t.queued [site]
    queued := (newSources cb t.queued [site]).reverse ++ t.queued
    recorded := ((newCalls target searched t.recorded [site]).map siteKey).reverse ++ t.recorded
    directCalls :=
      t.directCalls ++ (newCalls target searched t.recorded [site]).map (cb.directCall target) }

theorem Classifies.adds_withCaller {site : MethodId × Reference} (h : Classifies site.1 t t') :
    Adds cb target searched [site] t (t'.withCaller cb target searched site) where
  visited := h.visited
  queue := by rw [withCaller, h.queue, h.queued]
  queued := by rw [withCaller, h.queued]
  edges e := by
    rw [withCaller, CallGraph.mem_addEdge, Prod.ext_iff, h.edges]
    simp
  asked m := by
    rw [withCaller, h.asked]
    simp
  recorded := by rw [withCaller, h.recorded]
  directCalls := by rw [withCaller, h.directCalls, h.recorded]

theorem Coherent.withCaller (h : t.Coherent cb) {site : MethodId × Reference} :
    (t.withCaller cb target searched site).Coherent cb where
  answered := h.answered
  marked m := by
    rw [Traversal.withCaller, CallGraph.isExternal_addEdge]
    exact h.marked m
  queued m hm := List.mem_append_right _ (h.queued m hm)

/-- A caller adds its call site. -/
theorem eval_acceptCaller (h : t.Coherent cb) (target searched : MethodId) (r : Reference)
    (c : MethodId) :
    ∃ t', (t.acceptCaller target searched r c).eval cb = .ok t' ∧ t'.Coherent cb ∧
      Adds cb target searched [(c, r)] t t' := by
  obtain ⟨t₁, hclassify, h₁, hclassifies⟩ := eval_classify h c
  refine ⟨t₁.withCaller cb target searched (c, r), ?_, h₁.withCaller,
    hclassifies.adds_withCaller⟩
  rw [acceptCaller, Script.bind_eq_bind, Script.eval_bind_of_ok hclassify]
  dsimp only
  -- the call site is recorded first, whether or not its caller is put into the queue
  split
  next hnew =>
    rw [Script.bind_eq_bind, Script.eval_bind_of_ok (eval_record ..), Script.pure_eq_done,
      Script.eval_done]
    refine congrArg Except.ok ((enqueue_source_eq (c, r) ?_).trans ?_)
    · exact h₁.queued
    · have hcalls : newCalls target searched t₁.recorded [(c, r)] = [(c, r)] :=
        (newCalls_singleton ..).trans (if_pos hnew)
      rw [withCaller, hcalls]
      rfl
  next hold =>
    refine congrArg Except.ok ((enqueue_source_eq (c, r) ?_).trans ?_)
    · exact h₁.queued
    · have hcalls : newCalls target searched t₁.recorded [(c, r)] = [] :=
        (newCalls_singleton ..).trans (if_neg hold)
      simp only [withCaller, hcalls, List.map_nil, List.reverse_nil, List.nil_append,
        List.append_nil]

/-- A reference adds the call site that it is, if it is one. -/
theorem eval_accept (h : t.Coherent cb) (target searched : MethodId) (r : Reference) :
    ∃ t', (t.accept target searched r).eval cb = .ok t' ∧ t'.Coherent cb ∧
      Adds cb target searched (cb.sites [r]) t t' := by
  unfold accept
  split
  next hr =>
    have hsites : cb.sites [r] = [] := by simp [Codebase.sites, Codebase.callerAt?, hr]
    rw [hsites]
    exact ⟨t, rfl, h, .refl ..⟩
  next hr =>
    rw [Script.bind_eq_bind, Script.eval_bind_of_ok (Script.eval_put _), Codebase.reply]
    cases henc : cb.enclosing r with
    | none =>
      have hsites : cb.sites [r] = [] := by simp [Codebase.sites, Codebase.callerAt?, hr, henc]
      rw [hsites]
      exact ⟨t, rfl, h, .refl ..⟩
    | some c =>
      have hsites : cb.sites [r] = [(c, r)] := by
        simp [Codebase.sites, Codebase.callerAt?, hr, henc]
      rw [hsites]
      exact eval_acceptCaller h target searched r c

/-- **References add the call sites among them.** -/
theorem eval_acceptAll (target searched : MethodId) (rs : List Reference) (h : t.Coherent cb) :
    ∃ t', (acceptAll target searched rs t).eval cb = .ok t' ∧ t'.Coherent cb ∧
      Adds cb target searched (cb.sites rs) t t' := by
  induction rs generalizing t with
  | nil => exact ⟨t, rfl, h, .refl ..⟩
  | cons r rs ih =>
    obtain ⟨t₁, haccept, h₁, hadds₁⟩ := eval_accept h target searched r
    obtain ⟨t₂, hrest, h₂, hadds₂⟩ := ih h₁
    have hsites : cb.sites (r :: rs) = cb.sites [r] ++ cb.sites rs :=
      List.filterMap_append (l := [r])
    refine ⟨t₂, ?_, h₂, hsites ▸ hadds₁.trans hadds₂⟩
    rw [acceptAll, Script.bind_eq_bind, Script.checkpoint_bind, Script.eval_check,
      Script.bind_eq_bind, Script.eval_bind_of_ok haccept, hrest]

/-! ## One round -/

/-- A method is searched, and what is found is accepted unless the search ends everything. -/
theorem eval_visit (cb : Codebase) (t : Traversal) (target m : MethodId) :
    (t.visit target m).eval cb = match cb.fatal? m with
      | some why => .error why
      | none => (acceptAll target m (cb.found m) t).eval cb := by
  unfold visit Codebase.fatal? Codebase.found
  rw [Script.bind_eq_bind, Script.eval_bind_of_ok (Script.eval_put _), Codebase.reply]
  cases cb.isPresent m with
  | false => rfl
  | true =>
    simp only [if_true]
    rw [Script.bind_eq_bind, Script.eval_bind_of_ok (Script.eval_put _), Codebase.reply,
      if_neg Bool.false_ne_true]
    cases cb.references m with
    | ok rs => rfl
    | error fault => cases fault <;> rfl

/-- The direct calls that are known once some methods were searched. -/
def knownCalls (cb : Codebase) (target : MethodId) (searched : List MethodId) :
    List (MethodId × Reference) :=
  if target ∈ searched then cb.callSites target else []

theorem knownCalls_cons {m : MethodId} {ms : List MethodId} (hm : m ∉ ms) :
    knownCalls cb target (m :: ms) =
      knownCalls cb target ms ++ if m = target then cb.callSites target else [] := by
  unfold knownCalls
  by_cases heq : m = target
  · subst heq
    simp [hm]
  · simp [heq, Ne.symm heq]

/-- **What is known while a target is explored**, of the methods that were taken off the queue. -/
structure Explores (cb : Codebase) (target : MethodId) (t : Traversal) : Prop
    extends Coherent cb t where
  /-- The queue holds methods that are still to be searched, each of them once. -/
  nodup : t.queue.Nodup
  queue_queued : ∀ m ∈ t.queue, m ∈ t.queued ∧ m ∉ t.visited
  edges_iff : ∀ e, e ∈ t.graph.edges ↔ e.1 ∈ t.visited ∧ e.2 ∈ cb.callersOf e.1
  /-- Nothing but the target and the callers in the graph was asked for. -/
  asked_iff : ∀ m, (t.external.lookup m).isSome = true ↔
    m = target ∨ ∃ e ∈ t.graph.edges, e.2 = m
  recorded_eq : t.recorded = ((knownCalls cb target t.visited).map siteKey).reverse
  directCalls_eq : t.directCalls = (knownCalls cb target t.visited).map (cb.directCall target)

theorem Explores.head {m : MethodId} {queue : List MethodId} (h : t.Explores cb target)
    (hqueue : t.queue = m :: queue) : m ∈ t.queued ∧ m ∉ t.visited :=
  h.queue_queued m (hqueue ▸ List.mem_cons_self ..)

/-- Before the target is searched nothing is recorded, so all its call sites are new. -/
theorem Explores.newCalls_eq {m : MethodId} (h : t.Explores cb target) (hm : m ∉ t.visited) :
    newCalls target m t.recorded (cb.sites (cb.found m)) =
      if m = target then cb.callSites target else [] := by
  unfold newCalls
  split
  next heq =>
    subst heq
    rw [h.recorded_eq, knownCalls, if_neg hm, Codebase.callSites]
    rfl
  next => rfl

/-- **Searching the first method of the queue** keeps what is known. -/
theorem Explores.visit {m : MethodId} {queue : List MethodId} (h : t.Explores cb target)
    (hqueue : t.queue = m :: queue) (hcoherent : t'.Coherent cb)
    (hadds : Adds cb target m (cb.sites (cb.found m))
      { t with queue, visited := m :: t.visited } t') : t'.Explores cb target := by
  have hnodup : m ∉ queue ∧ queue.Nodup := List.nodup_cons.1 (hqueue ▸ h.nodup)
  have hm := h.head hqueue
  have hold : ∀ x ∈ queue, x ∈ t.queued ∧ x ∉ t.visited :=
    fun x hx => h.queue_queued x (hqueue ▸ List.mem_cons_of_mem _ hx)
  have hnew : ∀ x ∈ newSources cb t.queued (cb.sites (cb.found m)), x ∉ t.queued :=
    fun x hx => (mem_fresh.1 hx).2
  have hcalls := h.newCalls_eq hm.2
  refine ⟨hcoherent, ?_, ?_, ?_, ?_, ?_, ?_⟩
  · rw [hadds.queue, List.nodup_append]
    exact ⟨hnodup.2, nodup_fresh .., fun x hx y hy hxy => hnew y hy (hxy ▸ (hold x hx).1)⟩
  · intro x hx
    rw [hadds.queue] at hx
    rw [hadds.queued, hadds.visited, List.mem_append, List.mem_reverse, List.mem_cons, not_or]
    rcases List.mem_append.1 hx with hx | hx
    · exact ⟨.inr (hold x hx).1, fun heq => hnodup.1 (heq ▸ hx), (hold x hx).2⟩
    · -- what is new was never in the queue, and so was not visited either
      have hxq := hnew x hx
      exact ⟨.inl hx, fun heq => hxq (heq ▸ hm.1), fun hv => hxq (h.queued x hv)⟩
  · intro e
    rw [hadds.edges, hadds.visited, h.edges_iff, List.mem_cons, or_and_right, or_comm]
    refine or_congr_left (and_congr_right fun he => ?_)
    rw [he, Codebase.callersOf]
  · intro x
    rw [hadds.asked, h.asked_iff, or_assoc]
    refine or_congr_right ⟨?_, ?_⟩
    · rintro (⟨e, he, rfl⟩ | hx)
      · exact ⟨e, (hadds.edges e).2 (.inl he), rfl⟩
      · exact ⟨(m, x), (hadds.edges _).2 (.inr ⟨rfl, hx⟩), rfl⟩
    · rintro ⟨e, he, rfl⟩
      exact ((hadds.edges e).1 he).imp (fun he => ⟨e, he, rfl⟩) And.right
  · rw [hadds.recorded, hcalls, hadds.visited, h.recorded_eq, knownCalls_cons hm.2,
      List.map_append, List.reverse_append]
  · rw [hadds.directCalls, hcalls, hadds.visited, h.directCalls_eq, knownCalls_cons hm.2,
      List.map_append]

theorem eval_expand_cons {m : MethodId} {queue : List MethodId} (fuel : Nat)
    (hqueue : t.queue = m :: queue) (hm : m ∉ t.visited) :
    (expand target (fuel + 1) t).eval cb =
      ((visit { t with queue, visited := m :: t.visited } target m).bind
        (expand target fuel)).eval cb := by
  rw [expand, Script.bind_eq_bind, Script.checkpoint_bind, Script.eval_check, hqueue]
  simp only [if_neg hm]
  rfl

/-- A round ends with the failure of the search for its method, if that is fatal. -/
theorem eval_expand_of_fatal {m : MethodId} {queue : List MethodId} {why : Failure} (fuel : Nat)
    (hqueue : t.queue = m :: queue) (hm : m ∉ t.visited) (hfatal : cb.fatal? m = some why) :
    (expand target (fuel + 1) t).eval cb = .error why := by
  rw [eval_expand_cons fuel hqueue hm]
  refine Script.eval_bind_of_error ?_ _
  rw [eval_visit, hfatal]

/-- The search for the first method of the queue, where that is not fatal: the queue goes on with
what it adds. -/
theorem Explores.eval_visit {m : MethodId} {queue : List MethodId} (h : t.Explores cb target)
    (hqueue : t.queue = m :: queue) (hfatal : cb.fatal? m = none) :
    ∃ t', (Traversal.visit { t with queue, visited := m :: t.visited } target m).eval cb = .ok t' ∧
      t'.Explores cb target ∧ t'.visited = m :: t.visited ∧
      t'.queue = queue ++ fresh t.queued (cb.sourceCallersOf m) ∧
      t'.queued = (fresh t.queued (cb.sourceCallersOf m)).reverse ++ t.queued := by
  have hm := h.head hqueue
  have htaken : Coherent cb { t with queue, visited := m :: t.visited } :=
    { h.toCoherent with
      queued := fun x hx => (List.mem_cons.1 hx).elim (fun heq => heq ▸ hm.1) (h.queued x) }
  obtain ⟨t', haccept, hcoherent, hadds⟩ := eval_acceptAll target m (cb.found m) htaken
  refine ⟨t', ?_, h.visit hqueue hcoherent hadds, hadds.visited, hadds.queue, hadds.queued⟩
  rw [Traversal.eval_visit, hfatal, haccept]

/-- **One round**: the first method of the queue is searched, and the queue goes on with what
it adds. -/
theorem eval_expand_of_visit {m : MethodId} {queue : List MethodId} (fuel : Nat)
    (h : t.Explores cb target) (hqueue : t.queue = m :: queue) (hfatal : cb.fatal? m = none) :
    ∃ t', (expand target (fuel + 1) t).eval cb = (expand target fuel t').eval cb ∧
      t'.Explores cb target ∧ t'.visited = m :: t.visited ∧
      t'.queue = queue ++ fresh t.queued (cb.sourceCallersOf m) ∧
      t'.queued = (fresh t.queued (cb.sourceCallersOf m)).reverse ++ t.queued := by
  obtain ⟨t', hvisit, hnext⟩ := h.eval_visit hqueue hfatal
  refine ⟨t', ?_, hnext⟩
  rw [eval_expand_cons fuel hqueue (h.head hqueue).2]
  exact Script.eval_bind_of_ok hvisit _

/-! ## All rounds -/

/-- **All rounds** go through the methods in the order in which the queue is worked off, up to
the first whose search ends everything. -/
theorem eval_expand (target : MethodId) (fuel : Nat) (h : t.Explores cb target) :
    (∀ why, (drain cb.sourceCallersOf fuel t.queued t.queue).findSome? cb.fatal? = some why →
      (expand target fuel t).eval cb = .error why) ∧
    ((drain cb.sourceCallersOf fuel t.queued t.queue).findSome? cb.fatal? = none →
      ∃ t', (expand target fuel t).eval cb = .ok t' ∧ t'.Explores cb target ∧
        t'.visited = (drain cb.sourceCallersOf fuel t.queued t.queue).reverse ++ t.visited) := by
  induction fuel generalizing t with
  | zero =>
    refine ⟨fun why hwhy => ?_, fun _ => ⟨t, rfl, h, rfl⟩⟩
    cases hwhy
  | succ fuel ih =>
    cases hqueue : t.queue with
    | nil =>
      refine ⟨fun why hwhy => ?_, fun _ => ⟨t, ?_, h, rfl⟩⟩
      · cases hwhy
      · rw [expand, Script.bind_eq_bind, Script.checkpoint_bind, Script.eval_check, hqueue]
        rfl
    | cons m queue =>
      rw [drain, List.findSome?_cons]
      cases hfatal : cb.fatal? m with
      | some why =>
        refine ⟨fun why' hwhy => ?_, fun hnone => ?_⟩
        · cases hwhy
          exact eval_expand_of_fatal fuel hqueue (h.head hqueue).2 hfatal
        · cases hnone
      | none =>
        obtain ⟨t₁, hround, h₁, hvisited, hqueue₁, hqueued₁⟩ :=
          eval_expand_of_visit fuel h hqueue hfatal
        have hrest := ih h₁
        rw [hqueue₁, hqueued₁, hvisited] at hrest
        rw [hround, List.reverse_cons, List.append_assoc]
        exact hrest

theorem coherent_seeded (cb : Codebase) (target : MethodId) : (seeded target).Coherent cb where
  answered m b hm := by cases hm
  marked m := by simp [seeded, enqueue, CallGraph.isExternal]
  queued m hm := by cases hm

/-- The start: nothing is searched, and the target alone is in the queue. -/
theorem explores_start {t : Traversal} (hcoherent : t.Coherent cb)
    (hclassifies : Classifies target (seeded target) t) :
    t.Explores cb target ∧ t.visited = [] ∧ t.queue = [target] ∧ t.queued = [target] := by
  have hvisited : t.visited = [] := hclassifies.visited
  have hqueue : t.queue = [target] := hclassifies.queue
  have hqueued : t.queued = [target] := hclassifies.queued
  have hedges : t.graph.edges = [] := hclassifies.edges
  refine ⟨⟨hcoherent, ?_, ?_, ?_, ?_, ?_, ?_⟩, hvisited, hqueue, hqueued⟩
  · rw [hqueue]
    exact List.pairwise_singleton _ _
  · rw [hqueue, hqueued, hvisited]
    exact fun m hm => ⟨hm, List.not_mem_nil⟩
  · intro e
    simp [hedges, hvisited]
  · intro m
    rw [hclassifies.asked, hedges]
    simp [seeded, enqueue]
  · rw [hclassifies.recorded, hvisited]
    rfl
  · rw [hclassifies.directCalls, hvisited]
    rfl

end Traversal

/-! ## The findings -/

/-- **Findings that are complete**: the calls of all the reached methods, and the direct calls of
the target in the order of its call sites. -/
structure Findings.Complete (cb : Codebase) (target : MethodId) (f : Findings) : Prop where
  edges_iff : ∀ e, e ∈ f.graph.edges ↔ cb.Reached target e.1 ∧ e.2 ∈ cb.callersOf e.1
  /-- The target and the callers are marked as the codebase answers, and no other method is. -/
  marked_iff : ∀ m, f.graph.isExternal m = true ↔
    cb.isExternal m = true ∧ (m = target ∨ ∃ e ∈ f.graph.edges, e.2 = m)
  directCalls_eq : f.directCalls = (cb.callSites target).map (cb.directCall target)
  methodsSearched_eq : f.methodsSearched = (cb.breadthFirst target).length

/-- The callers in the graph are marked as the codebase answers. -/
theorem Findings.Complete.isExternal_eq {cb : Codebase} {target : MethodId} {f : Findings}
    (h : f.Complete cb target) (e : MethodId × MethodId) (he : e ∈ f.graph.edges) :
    f.graph.isExternal e.2 = cb.isExternal e.2 := by
  rw [Bool.eq_iff_iff, h.marked_iff]
  exact and_iff_left (.inr ⟨e, he, rfl⟩)

/-- Where every reached method has been searched, the findings are complete. -/
theorem Traversal.Explores.complete {cb : Codebase} {target : MethodId} {t : Traversal}
    (h : t.Explores cb target) (hvisited : t.visited = (cb.breadthFirst target).reverse) :
    t.findings.Complete cb target := by
  have hmem : ∀ m, m ∈ t.visited ↔ cb.Reached target m := by
    intro m
    rw [hvisited, List.mem_reverse, Codebase.mem_breadthFirst]
  refine ⟨fun e => ?_, fun m => ?_, ?_, ?_⟩
  · rw [← hmem]
    exact h.edges_iff e
  · show t.graph.isExternal m = true ↔
      cb.isExternal m = true ∧ (m = target ∨ ∃ e ∈ t.graph.edges, e.2 = m)
    rw [← h.asked_iff m, Option.isSome_iff_exists]
    refine (h.marked m).trans ⟨fun htrue => ⟨h.answered m true htrue, true, htrue⟩, ?_⟩
    rintro ⟨hexternal, b, hb⟩
    rw [hb, ← h.answered m b hb, hexternal]
  · have hcalls : knownCalls cb target t.visited = cb.callSites target :=
      if_pos ((hmem target).2 .target)
    rw [← hcalls]
    exact h.directCalls_eq
  · show t.visited.length = _
    rw [hvisited, List.length_reverse]

/-- **The rounds of a traversal** search the reached methods in breadth-first order, up to the first
whose search is fatal. -/
theorem Traversal.eval_expand_start (cb : Codebase) (target : MethodId) :
    ∃ t, ((seeded target).classify target).eval cb = .ok (cb.isExternal target, t) ∧
      (∀ why, (cb.breadthFirst target).findSome? cb.fatal? = some why →
        (expand target (cb.callers.length + 2) t).eval cb = .error why) ∧
      ((cb.breadthFirst target).findSome? cb.fatal? = none →
        ∃ t', (expand target (cb.callers.length + 2) t).eval cb = .ok t' ∧
          t'.Explores cb target ∧ t'.visited = (cb.breadthFirst target).reverse) := by
  obtain ⟨t, hclassify, hcoherent, hclassifies⟩ :=
    eval_classify (coherent_seeded cb target) target
  obtain ⟨h, hvisited, hqueue, hqueued⟩ := explores_start hcoherent hclassifies
  have hroom := Codebase.length_outside_callers_le cb [target]
  have horder : drain cb.sourceCallersOf (cb.callers.length + 2) t.queued t.queue =
      cb.breadthFirst target := by
    rw [hqueue, hqueued]
    refine drain_eq_levelsFrom (Codebase.mem_callers_of_mem_sourceCallersOf cb) _ _ _ _ ?_ ?_
    · omega
    · rw [List.length_singleton]
      omega
  have hrounds := eval_expand target (cb.callers.length + 2) h
  rw [horder, hvisited, List.append_nil] at hrounds
  exact ⟨t, hclassify, hrounds⟩

/-- **A traversal** fails with the first fatal failure in breadth-first order; where there is
none, its findings are complete. -/
theorem eval_traverse (cb : Codebase) (target : MethodId) :
    (∀ why, (cb.breadthFirst target).findSome? cb.fatal? = some why →
      (traverse cb.callers.length target).eval cb = .error why) ∧
    ((cb.breadthFirst target).findSome? cb.fatal? = none →
      ∃ f, (traverse cb.callers.length target).eval cb = .ok f ∧ f.Complete cb target) := by
  obtain ⟨t, hclassify, hfails, hends⟩ := Traversal.eval_expand_start cb target
  rw [traverse, Script.bind_eq_bind, Script.eval_bind_of_ok hclassify]
  refine ⟨fun why hwhy => Script.eval_bind_of_error (hfails why hwhy) _, fun hnone => ?_⟩
  obtain ⟨t', hexpand, h', hvisited⟩ := hends hnone
  exact ⟨t'.findings, Script.eval_bind_of_ok hexpand _, h'.complete hvisited⟩

end CallOrigins
