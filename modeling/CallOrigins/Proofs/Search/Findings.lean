import CallOrigins.Proofs.Search.Rows
import Mathlib.Data.Finset.Card
import Mathlib.Order.Bounds.Basic

/-!
# What a traversal finds

The findings of a traversal, told of the answers of the codebase and of nothing else. A method
*is called* by another where it exists, its search succeeds and the other one encloses an exact
reference in the result (`IsCalledBy`).

Two laws are read off complete findings. The traversal computes a least fixpoint
(`traverse_least_fixpoint`): what it searches is the least set that holds the target and, with a
method, all of its callers that are not external; its graph holds the calls of this set, each of
them once, and marks the target and the callers as the codebase answers. And its direct calls are
the call sites of the target (`traverse_directCalls`), one for each caller and offset, so that the
callers of the target in the graph are the callers of the direct calls. This holds as well where
the target calls itself and is met again.
-/

namespace CallOrigins

namespace Codebase

variable {cb : Codebase} {target m c : MethodId} {f : Findings}

/-! ## Calls -/

/-- A method exists, its references are found, and one of them is exact and enclosed by the
caller. -/
def IsCalledBy (cb : Codebase) (m caller : MethodId) : Prop :=
  cb.isPresent m = true ∧ ∃ rs, cb.references m = .ok rs ∧
    ∃ r ∈ rs, r.accuracy = .exact ∧ cb.enclosing r = some caller

/-- The sets that hold the target and, with a method, all of its callers that are not external. -/
def closedSets (cb : Codebase) (target : MethodId) : Set (Set MethodId) :=
  {S | target ∈ S ∧ ∀ m ∈ S, ∀ c, cb.IsCalledBy m c → cb.isExternal c = false → c ∈ S}

theorem callerAt?_eq_some {r : Reference} :
    cb.callerAt? r = some c ↔ r.accuracy = .exact ∧ cb.enclosing r = some c := by
  unfold callerAt?
  cases r.accuracy with
  | exact => simp
  | potential => simp

theorem mem_found {r : Reference} :
    r ∈ cb.found m ↔ cb.isPresent m = true ∧ ∃ rs, cb.references m = .ok rs ∧ r ∈ rs := by
  unfold found
  cases cb.isPresent m with
  | false => simp
  | true =>
    cases cb.references m with
    | error fault => simp
    | ok rs => simp

/-- The callers that are known of a method are the methods by which it is called. -/
theorem mem_callersOf_iff : c ∈ cb.callersOf m ↔ cb.IsCalledBy m c := by
  rw [mem_callersOf]
  constructor
  · rintro ⟨r, hr, hc⟩
    obtain ⟨present, rs, hrs, hmem⟩ := mem_found.1 hr
    exact ⟨present, rs, hrs, r, hmem, callerAt?_eq_some.1 hc⟩
  · rintro ⟨present, rs, hrs, r, hmem, hc⟩
    exact ⟨r, mem_found.2 ⟨present, rs, hrs, hmem⟩, callerAt?_eq_some.2 hc⟩

/-- The reached methods are the least closed set. -/
theorem isLeast_reached (cb : Codebase) (target : MethodId) :
    IsLeast (cb.closedSets target) {m | cb.Reached target m} := by
  constructor
  · refine ⟨.target, fun m hm c hcall hsource => ?_⟩
    exact .caller hm (mem_sourceCallersOf.2 ⟨mem_callersOf_iff.2 hcall, hsource⟩)
  · rintro S ⟨htarget, hclosed⟩ m hm
    induction hm with
    | target => exact htarget
    | caller _ hc ih =>
      obtain ⟨hcall, hsource⟩ := mem_sourceCallersOf.1 hc
      exact hclosed _ ih _ (mem_callersOf_iff.1 hcall) hsource

/-! ## Traversals that finish -/

/-- Findings of a traversal are complete, and no search was fatal. -/
theorem complete_of_finished (finished : (cb.traverse .never target).outcome = .finished f) :
    f.Complete cb target ∧ (cb.breadthFirst target).findSome? cb.fatal? = none := by
  cases hfatal : (cb.breadthFirst target).findSome? cb.fatal? with
  | some why =>
    rw [traverse_never_outcome, (eval_traverse cb target).1 why hfatal] at finished
    cases finished
  | none =>
    obtain ⟨f', hfinished, hcomplete⟩ := traverse_of_none hfatal
    cases finished.symm.trans hfinished
    exact ⟨hcomplete, rfl⟩

/-! ## The least fixpoint -/

/-- **A traversal computes the least fixpoint.** Where no search that is reached answers that no
method can be searched, it finishes. There is a finite least set that holds the target and is
closed under callers that are not external: its size is the number of methods searched; the edges
are the calls of its members, as many as there are such pairs; and the external methods of the
graph are those among the target and the callers that the codebase says to be external. -/
theorem traverse_least_fixpoint (cb : Codebase) (answers : cb.Answers) (target : MethodId)
    (available : ¬ cb.ReachesOutage target) :
    ∃ (f : Findings) (searched : Finset MethodId) (calls : Finset (MethodId × MethodId)),
      (cb.traverse .never target).outcome = .finished f ∧
      IsLeast (cb.closedSets target) (searched : Set MethodId) ∧
      (∀ m c, (m, c) ∈ calls ↔ m ∈ searched ∧ cb.IsCalledBy m c) ∧
      (∀ m c, (m, c) ∈ f.graph.edges ↔ (m, c) ∈ calls) ∧
      (∀ m, f.graph.isExternal m = true ↔
        cb.isExternal m = true ∧ (m = target ∨ ∃ n, (n, m) ∈ calls)) ∧
      f.methodsSearched = searched.card ∧
      f.graph.edgeCount = calls.card := by
  obtain ⟨f, hfinished, hcomplete⟩ := traverse_of_none (answers.not_fatal available)
  have hsearched : ((cb.breadthFirst target).toFinset : Set MethodId) =
      {m | cb.Reached target m} := by
    ext m
    simp [mem_breadthFirst]
  refine ⟨f, (cb.breadthFirst target).toFinset, f.graph.edges.toFinset, hfinished, ?_, ?_, ?_, ?_,
    ?_, ?_⟩
  · rw [hsearched]
    exact isLeast_reached cb target
  · intro m c
    rw [List.mem_toFinset, hcomplete.edges_iff, List.mem_toFinset, mem_breadthFirst,
      mem_callersOf_iff]
  · intro m c
    rw [List.mem_toFinset]
  · intro m
    rw [hcomplete.marked_iff]
    simp
  · rw [hcomplete.methodsSearched_eq, List.toFinset_card_of_nodup (nodup_breadthFirst cb target)]
  · rw [List.toFinset_card_of_nodup f.graph.nodup_edges, CallGraph.edgeCount_eq]

/-- The methods that are searched: the library that calls two of them is not one, and is marked. -/
theorem twoOrigins_least_fixpoint :
    twoOrigins.codebase.Answers ∧
    ¬ twoOrigins.codebase.ReachesOutage ⟨"shop.Cart#add(Item)"⟩ ∧
    ∃ f, (twoOrigins.codebase.traverse .never ⟨"shop.Cart#add(Item)"⟩).outcome = .finished f ∧
      (⟨"shop.Cart#mergeAll()"⟩, ⟨"shop.Cart#merge(Cart)"⟩) ∈ f.graph.edges ∧
      f.graph.isExternal ⟨"lib.Timer#run()"⟩ = true := by
  refine ⟨twoOrigins_answers, twoOrigins_available, ?_⟩
  obtain ⟨f, searched, calls, hfinished, hleast, hcalls, hedges, hexternal, -, -⟩ :=
    traverse_least_fixpoint twoOrigins.codebase twoOrigins_answers ⟨"shop.Cart#add(Item)"⟩
      twoOrigins_available
  have called : ∀ {m c : MethodId}, c ∈ twoOrigins.codebase.callersOf m →
      twoOrigins.codebase.IsCalledBy m c := mem_callersOf_iff.1
  obtain ⟨htarget, hclosed⟩ := hleast.1
  have hmerge : ⟨"shop.Cart#merge(Cart)"⟩ ∈ searched :=
    hclosed _ htarget _ (called (by decide)) (by decide)
  have hmergeAll : ⟨"shop.Cart#mergeAll()"⟩ ∈ searched :=
    hclosed _ hmerge _ (called (by decide)) (by decide)
  refine ⟨f, hfinished, ?_, ?_⟩
  · exact (hedges _ _).2 ((hcalls _ _).2 ⟨hmergeAll, called (by decide)⟩)
  · exact (hexternal _).2 ⟨by decide, .inr ⟨⟨"shop.Cart#add(Item)"⟩,
      (hcalls _ _).2 ⟨htarget, called (by decide)⟩⟩⟩

/-! ## Direct calls -/

theorem sites_eq (cb : Codebase) (rs : List Reference) :
    cb.sites rs = rs.filterMap fun r =>
      if r.accuracy = .exact then (cb.enclosing r).map fun c => (c, r) else none := by
  refine List.filterMap_congr fun r _ => ?_
  rw [callerAt?]
  cases r.accuracy with
  | exact => rfl
  | potential => rfl

/-- **A direct call tells a call site of the target**: its place, its line, and the arguments or
what stands in place of them. -/
structure Tells (cb : Codebase) (target : MethodId) (site : MethodId × Reference)
    (call : DirectCall) : Prop where
  caller : call.caller = site.1
  offset : call.offset = site.2.offset
  length : call.length = site.2.length
  line : call.line = cb.line site.1 site.2.offset
  read : ∀ arguments, cb.arguments site.1 target site.2.offset site.2.length = .ok arguments →
    call.arguments = arguments
  unread : ∀ failure, cb.arguments site.1 target site.2.offset site.2.length = .error failure →
    call.arguments = [failure.placeholder]

theorem tells_directCall (cb : Codebase) (target : MethodId) (site : MethodId × Reference) :
    cb.Tells target site (cb.directCall target site) where
  caller := rfl
  offset := rfl
  length := rfl
  line := rfl
  read arguments h := by
    rw [directCall, h]
    rfl
  unread failure h := by
    rw [directCall, h]
    rfl

/-- The search of a target that exists, in a traversal that finishes: it succeeds, or only this
one query fails. -/
theorem references_of_finished (finished : (cb.traverse .never target).outcome = .finished f)
    (present : cb.isPresent target = true) :
    (∃ rs, cb.references target = .ok rs) ∨
      ∃ message, cb.references target = .error (.query message) := by
  have hfatal := (complete_of_finished finished).2
  have htarget := List.findSome?_eq_none_iff.1 hfatal target (mem_breadthFirst.2 .target)
  rw [fatal?, if_pos present] at htarget
  cases href : cb.references target with
  | ok rs => exact .inl ⟨rs, rfl⟩
  | error fault =>
    rw [href] at htarget
    cases fault with
    | query message => exact .inr ⟨message, rfl⟩
    | unavailable message => cases htarget
    | crash message => cases htarget

/-- The callers of the target in the graph are those of the direct calls. -/
theorem mem_callers_target (h : f.Complete cb target) :
    c ∈ f.graph.callers target ↔ ∃ call ∈ f.directCalls, call.caller = c := by
  rw [CallGraph.mem_callers, h.edges_iff, h.directCalls_eq]
  constructor
  · rintro ⟨-, hc⟩
    obtain ⟨site, hsite, rfl⟩ := List.mem_map.1 hc
    obtain ⟨first, hfirst, hkey⟩ := exists_mem_freshBy siteKey hsite
    exact ⟨_, List.mem_map_of_mem hfirst, (Prod.ext_iff.1 hkey).1⟩
  · rintro ⟨call, hcall, rfl⟩
    obtain ⟨site, hsite, rfl⟩ := List.mem_map.1 hcall
    exact ⟨.target, List.mem_map_of_mem ((freshBy_sublist ..).subset hsite)⟩

/-- **Direct calls are the call sites of the target**, whenever a traversal without cancellation
finishes. There are none where the target does not exist or its search fails. Otherwise its search
succeeds; of the references, those that are exact and enclosed by a method count, of these the
first one for each method and offset, and in their order each is told by one direct call. The
callers of the target in the graph are the callers of the direct calls. -/
theorem traverse_directCalls (cb : Codebase) (target : MethodId) (f : Findings)
    (finished : (cb.traverse .never target).outcome = .finished f) :
    (cb.isPresent target = false ∨ (∃ message, cb.references target = .error (.query message)) →
      f.directCalls = []) ∧
    (cb.isPresent target = true → (∀ message, cb.references target ≠ .error (.query message)) →
      ∃ rs, cb.references target = .ok rs ∧
        List.Forall₂ (cb.Tells target)
          (freshBy (fun site => (site.1, site.2.offset)) []
            (rs.filterMap fun r =>
              if r.accuracy = .exact then (cb.enclosing r).map fun c => (c, r) else none))
          f.directCalls) ∧
    ∀ c, c ∈ f.graph.callers target ↔ ∃ call ∈ f.directCalls, call.caller = c := by
  have hcomplete := (complete_of_finished finished).1
  refine ⟨?_, ?_, fun c => mem_callers_target hcomplete⟩
  · intro hnone
    have hfound : cb.found target = [] := by
      refine List.eq_nil_iff_forall_not_mem.2 fun r hr => ?_
      obtain ⟨present, rs, hrs, -⟩ := mem_found.1 hr
      rcases hnone with absent | ⟨message, hquery⟩
      · rw [absent] at present
        cases present
      · rw [hquery] at hrs
        cases hrs
    rw [hcomplete.directCalls_eq, callSites, hfound]
    rfl
  · intro present hquery
    rcases references_of_finished finished present with ⟨rs, hrs⟩ | ⟨message, hmessage⟩
    · refine ⟨rs, hrs, ?_⟩
      have hfound : cb.found target = rs := by rw [found, if_pos present, hrs]
      rw [hcomplete.directCalls_eq, callSites, hfound, sites_eq, List.forall₂_map_right_iff]
      exact List.forall₂_same.2 fun site _ => tells_directCall cb target site
    · exact absurd hmessage (hquery message)

/-- A target that calls itself. A reference is found twice, one is only potential, one stands
outside of all methods, and the arguments of the call from elsewhere cannot be read. -/
def selfCalling : Tables where
  methods := [⟨"shop.Cart#add(Item)"⟩, ⟨"shop.Page#buy()"⟩]
  references := [
    (⟨"shop.Cart#add(Item)"⟩, ⟨"Cart.java", 300, 9, .exact, some ⟨"shop.Cart#add(Item)"⟩⟩),
    (⟨"shop.Cart#add(Item)"⟩, ⟨"Cart.java", 340, 9, .potential, some ⟨"shop.Cart#clear()"⟩⟩),
    (⟨"shop.Cart#add(Item)"⟩, ⟨"Page.java", 120, 9, .exact, some ⟨"shop.Page#buy()"⟩⟩),
    (⟨"shop.Cart#add(Item)"⟩, ⟨"Cart.java", 300, 4, .exact, some ⟨"shop.Cart#add(Item)"⟩⟩),
    (⟨"shop.Cart#add(Item)"⟩, ⟨"Notes.java", 7, 9, .exact, none⟩),
    (⟨"shop.Page#buy()"⟩, ⟨"Cart.java", 320, 5, .exact, some ⟨"shop.Cart#add(Item)"⟩⟩)]
  arguments := [(120, .error .callSiteNotFound), (300, .ok ["item.parent()"])]
  lines := [(120, 7)]

/-- What is found from a target that calls itself. -/
def selfCallingFindings : Findings where
  graph := [("shop.Cart#add(Item)", "shop.Cart#add(Item)"),
    ("shop.Cart#add(Item)", "shop.Page#buy()"),
    ("shop.Page#buy()", "shop.Cart#add(Item)")].foldl (fun g e => g.addEdge ⟨e.1⟩ ⟨e.2⟩) {}
  directCalls := [⟨⟨"shop.Cart#add(Item)"⟩, none, ["item.parent()"], 300, 9⟩,
    ⟨⟨"shop.Page#buy()"⟩, some 7, ["call-site-not-found"], 120, 9⟩]
  methodsSearched := 2

theorem selfCalling_directCalls :
    (selfCalling.codebase.traverse .never ⟨"shop.Cart#add(Item)"⟩).outcome =
      .finished selfCallingFindings ∧
    ∀ c, c ∈ selfCallingFindings.graph.callers ⟨"shop.Cart#add(Item)"⟩ ↔
      c = ⟨"shop.Cart#add(Item)"⟩ ∨ c = ⟨"shop.Page#buy()"⟩ := by
  have finished : (selfCalling.codebase.traverse .never ⟨"shop.Cart#add(Item)"⟩).outcome =
      .finished selfCallingFindings := rfl
  refine ⟨finished, fun c => ?_⟩
  rw [(traverse_directCalls _ _ _ finished).2.2]
  simp [selfCallingFindings, eq_comm]

end Codebase
end CallOrigins
