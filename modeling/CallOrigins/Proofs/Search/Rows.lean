import CallOrigins.Proofs.Search.Failures

/-!
# The rows of a search

What the rows of a search say about a codebase, with no word of traversals and walks. The origins
of a caller are told from the known callers alone (`IsOriginOf`): going from caller to caller, and
never to an external one, they are the methods that have no caller left to go to.

A traversal searches no more than it needs, so its call graph is a part of this relation. The part
is enough: from a direct caller on, the graph and the codebase agree at every step
(`Findings.Complete.mem_sourceCallers`), so they lead to the same origins
(`Findings.Complete.mem_origins`).

**The law** (`search_rows`): the rows are, for each call site of the target in turn, the origins of
its caller in ascending order, or the caller itself where it has none.
-/

namespace CallOrigins

open Relation (ReflTransGen)

/-- A way in one relation is a way in another, if the two agree along it. -/
theorem reflTransGen_of_closed {α : Type} {R S : α → α → Prop} {P : α → Prop}
    (step : ∀ x y, P x → R x y → S x y ∧ P y) {a b : α} (ha : P a) (h : ReflTransGen R a b) :
    ReflTransGen S a b ∧ P b := by
  induction h with
  | refl => exact ⟨.refl, ha⟩
  | tail _ hbc ih =>
    obtain ⟨hab, hb⟩ := ih
    obtain ⟨hstep, hc⟩ := step _ _ hb hbc
    exact ⟨hab.tail hstep, hc⟩

/-! ## Origins in a codebase -/

namespace Codebase

variable {cb : Codebase} {target m c r x y : MethodId}

/-- The callers of a method that a search for a target may know of. The callers of external
methods are not sought, with the exception of the target. -/
def known (cb : Codebase) (target m : MethodId) : List MethodId :=
  if m = target ∨ cb.isExternal m = false then cb.callersOf m else []

/-- **An origin of a method**, in a search for a target: it is not external, no caller is known of
it but external ones, and it is reached from the method through callers that are not external. -/
structure IsOriginOf (cb : Codebase) (target m r : MethodId) : Prop where
  source : cb.isExternal r = false
  last : ∀ c ∈ cb.known target r, cb.isExternal c = true
  reached : ReflTransGen (fun x y => y ∈ cb.known target x ∧ cb.isExternal y = false) m r

theorem mem_known : c ∈ cb.known target m ↔
    (m = target ∨ cb.isExternal m = false) ∧ c ∈ cb.callersOf m := by
  unfold known
  split
  next h => exact ⟨fun hc => ⟨h, hc⟩, fun hc => hc.2⟩
  next h => exact ⟨fun hc => absurd hc List.not_mem_nil, fun hc => absurd hc.1 h⟩

/-- A method that calls a reached one. -/
def CallsReached (cb : Codebase) (target c : MethodId) : Prop :=
  ∃ m, cb.Reached target m ∧ c ∈ cb.callersOf m

/-- Callers of reached methods are themselves reached where their callers are known. -/
theorem CallsReached.mem_known (hx : cb.CallsReached target x) :
    y ∈ cb.known target x ↔ cb.Reached target x ∧ y ∈ cb.callersOf x := by
  rw [Codebase.mem_known]
  refine and_congr_left fun _ => ⟨?_, fun h => h.eq_or_source⟩
  rintro (rfl | hsource)
  · exact .target
  · obtain ⟨m, hm, hxm⟩ := hx
    exact hm.caller (mem_sourceCallersOf.2 ⟨hxm, hsource⟩)

end Codebase

/-! ## Origins in complete findings -/

namespace Findings.Complete

variable {cb : Codebase} {target c r x y : MethodId} {f : Findings}

/-- A caller of a reached method is marked in the graph as the codebase answers. -/
theorem isExternal_of_callsReached (h : f.Complete cb target) (hx : cb.CallsReached target x) :
    f.graph.isExternal x = cb.isExternal x := by
  obtain ⟨m, hm⟩ := hx
  exact h.isExternal_eq (m, x) ((h.edges_iff (m, x)).2 hm)

/-- **One step**: from a caller of a reached method, the graph and the codebase agree. -/
theorem mem_sourceCallers (h : f.Complete cb target) (hx : cb.CallsReached target x) :
    y ∈ f.graph.sourceCallers x ↔ y ∈ cb.known target x ∧ cb.isExternal y = false := by
  rw [CallGraph.mem_sourceCallers, h.edges_iff, hx.mem_known]
  refine and_congr_right fun hy => ?_
  rw [h.isExternal_of_callsReached ⟨x, hy⟩]

/-- A walk ends in the graph where it ends in the codebase. -/
theorem isOrigin_iff (h : f.Complete cb target) (hr : cb.CallsReached target r) :
    f.graph.IsOrigin r ↔
      cb.isExternal r = false ∧ ∀ c ∈ cb.known target r, cb.isExternal c = true := by
  rw [CallGraph.IsOrigin, h.isExternal_of_callsReached hr, List.eq_nil_iff_forall_not_mem]
  refine and_congr_right fun _ => forall_congr' fun c => ?_
  rw [h.mem_sourceCallers hr, not_and, Bool.not_eq_false]

/-- **All steps**: the origins of a direct caller in the graph are those in the codebase. -/
theorem mem_origins (h : f.Complete cb target) (hc : c ∈ cb.callersOf target) :
    r ∈ f.graph.origins c ↔ cb.IsOriginOf target c r := by
  have hstart : cb.CallsReached target c := ⟨target, .target, hc⟩
  have hnext : ∀ x y, cb.CallsReached target x →
      y ∈ cb.known target x ∧ cb.isExternal y = false → cb.CallsReached target y :=
    fun x y hx hy => ⟨x, hx.mem_known.1 hy.1⟩
  rw [CallGraph.mem_origins]
  -- the steps agree along callers of reached methods, and no way from a direct caller leaves these
  constructor
  · rintro ⟨horigin, hway⟩
    obtain ⟨hway, hr⟩ := reflTransGen_of_closed (fun x y hx hxy =>
      have hy := (h.mem_sourceCallers hx).1 hxy
      ⟨hy, hnext x y hx hy⟩) hstart hway
    obtain ⟨hsource, hlast⟩ := (h.isOrigin_iff hr).1 horigin
    exact ⟨hsource, hlast, hway⟩
  · rintro ⟨hsource, hlast, hway⟩
    obtain ⟨hway, hr⟩ := reflTransGen_of_closed (fun x y hx hxy =>
      ⟨(h.mem_sourceCallers hx).2 hxy, hnext x y hx hxy⟩) hstart hway
    exact ⟨(h.isOrigin_iff hr).2 ⟨hsource, hlast⟩, hway⟩

end Findings.Complete

/-! ## Rows -/

/-- The rows of a direct call: one for each origin, or for the caller itself. -/
theorem Search.rowsOf_eq (g : CallGraph) (call : DirectCall) :
    rowsOf g call =
      (if g.origins call.caller = [] then [call.caller] else g.origins call.caller).map
        (fun o => Row.ofCall o call) := by
  unfold rowsOf
  split
  next h => simp [h]
  next h => rw [if_neg h]

/-- Complete findings are reported call site by call site. -/
theorem Findings.Complete.rows_eq {cb : Codebase} {target : MethodId} {f : Findings}
    (h : f.Complete cb target) :
    f.reported.rows = (cb.callSites target).flatMap fun site =>
      (if f.graph.origins site.1 = [] then [site.1] else f.graph.origins site.1).map
        (fun o => Row.ofCall o (cb.directCall target site)) := by
  show f.directCalls.flatMap (Search.rowsOf f.graph) = _
  rw [h.directCalls_eq, List.flatMap_map]
  simp only [Search.rowsOf_eq, Codebase.directCall]

namespace Codebase

theorem caller_mem_of_mem_callSites {cb : Codebase} {target : MethodId}
    {site : MethodId × Reference} (h : site ∈ cb.callSites target) :
    site.1 ∈ cb.callersOf target :=
  List.mem_map_of_mem ((freshBy_sublist ..).subset h)

/-- An origin of one of the methods that enclose references is one of them, too. -/
theorem IsOriginOf.mem_callers {cb : Codebase} {target m r : MethodId}
    (h : cb.IsOriginOf target m r) (hm : m ∈ cb.callers) : r ∈ cb.callers := by
  rcases h.reached.cases_tail with rfl | ⟨x, -, hr, -⟩
  · exact hm
  · exact mem_callers_of_mem_callersOf (mem_known.1 hr).2

end Codebase

/-- **What a row is about**: methods that enclose references, and the arguments at a call site. -/
theorem Findings.Complete.of_mem_rows {cb : Codebase} {target : MethodId} {f : Findings}
    (h : f.Complete cb target) {r : Row} (hr : r ∈ f.reported.rows) :
    r.origin ∈ cb.callers ∧ r.directCaller ∈ cb.callers ∧ ∃ site ∈ cb.callSites target,
      site.1 = r.directCaller ∧ r.arguments = Traversal.shownArguments
        (cb.arguments r.directCaller target site.2.offset site.2.length) := by
  rw [h.rows_eq] at hr
  obtain ⟨site, hsite, hr⟩ := List.mem_flatMap.1 hr
  obtain ⟨origin, horigin, rfl⟩ := List.mem_map.1 hr
  have hknown := Codebase.caller_mem_of_mem_callSites hsite
  have hcaller : site.1 ∈ cb.callers := Codebase.mem_callers_of_mem_callersOf hknown
  refine ⟨?_, hcaller, site, hsite, rfl, rfl⟩
  by_cases hnone : f.graph.origins site.1 = []
  · rw [if_pos hnone] at horigin
    rwa [List.mem_singleton.1 horigin]
  · rw [if_neg hnone] at horigin
    exact ((h.mem_origins hknown).1 horigin).mem_callers hcaller

/-- Every call site has a row. -/
theorem Findings.Complete.exists_row {cb : Codebase} {target : MethodId} {f : Findings}
    (h : f.Complete cb target) {site : MethodId × Reference} (hsite : site ∈ cb.callSites target) :
    ∃ r ∈ f.reported.rows, r.arguments = Traversal.shownArguments
      (cb.arguments site.1 target site.2.offset site.2.length) := by
  have hne : (if f.graph.origins site.1 = [] then [site.1] else f.graph.origins site.1) ≠ [] := by
    split
    · simp
    · assumption
  obtain ⟨origin, horigin⟩ := List.exists_mem_of_ne_nil _ hne
  refine ⟨Row.ofCall origin (cb.directCall target site), ?_, rfl⟩
  rw [h.rows_eq]
  exact List.mem_flatMap.2 ⟨site, hsite, List.mem_map_of_mem horigin⟩

namespace Codebase

/-- **The rows of a search** without cancellation and outage. For each call site of the target, in
turn, they name the origins of its caller in ascending order, or the caller itself where it has
none; each row carries the caller, the line and the arguments of its call site. -/
theorem search_rows (cb : Codebase) (answers : cb.Answers) (target : MethodId)
    (present : cb.isPresent target = true) (available : ¬ cb.ReachesOutage target) :
    ∃ (report : Report) (origins : MethodId → List MethodId),
      (cb.search .never target).outcome = .finished report ∧
      (∀ site ∈ cb.callSites target,
        (origins site.1).Pairwise (fun a b => a.bytes < b.bytes) ∧
        ∀ r, r ∈ origins site.1 ↔ cb.IsOriginOf target site.1 r) ∧
      report.rows = (cb.callSites target).flatMap fun site =>
        (if origins site.1 = [] then [site.1] else origins site.1).map fun origin =>
          { origin
            directCaller := site.1
            line := cb.line site.1 site.2.offset
            arguments := Traversal.shownArguments
              (cb.arguments site.1 target site.2.offset site.2.length) } := by
  have hfatal : (cb.breadthFirst target).findSome? cb.fatal? = none := by
    rw [answers.findSome?_fatal?, Option.map_eq_none_iff, Option.eq_none_iff_forall_ne_some]
    exact fun message hm => available (reachesOutage_iff.2 ⟨message, hm⟩)
  obtain ⟨f, hcomplete, heval⟩ := Search.eval_script_of_none present hfatal
  refine ⟨f.reported, f.graph.origins, ?_, fun site hsite => ⟨?_, fun r => ?_⟩, ?_⟩
  · rw [search_never_outcome, heval]
    rfl
  · exact (CallGraph.origins_ascending f.graph site.1).imp MethodId.before_iff_bytes_lt.1
  · exact hcomplete.mem_origins (caller_mem_of_mem_callSites hsite)
  · exact hcomplete.rows_eq

/-- Two origins of one call site, which is found twice; a direct caller on a cycle that has no
other callers; and a direct caller that is external. -/
def twoOrigins : Tables where
  methods := [⟨"shop.Cart#add(Item)"⟩, ⟨"shop.Page#buy()"⟩, ⟨"shop.App#main()"⟩,
    ⟨"shop.Admin#main()"⟩, ⟨"shop.Cart#merge(Cart)"⟩, ⟨"shop.Cart#mergeAll()"⟩]
  externals := [⟨"lib.Timer#run()"⟩]
  references := [
    (⟨"shop.Cart#add(Item)"⟩, ⟨"Page.java", 120, 9, .exact, some ⟨"shop.Page#buy()"⟩⟩),
    (⟨"shop.Cart#add(Item)"⟩, ⟨"Cart.java", 300, 9, .exact, some ⟨"shop.Cart#merge(Cart)"⟩⟩),
    (⟨"shop.Cart#add(Item)"⟩, ⟨"Page.java", 120, 3, .exact, some ⟨"shop.Page#buy()"⟩⟩),
    (⟨"shop.Cart#add(Item)"⟩, ⟨"Timer.java", 10, 9, .exact, some ⟨"lib.Timer#run()"⟩⟩),
    (⟨"shop.Page#buy()"⟩, ⟨"App.java", 20, 5, .exact, some ⟨"shop.App#main()"⟩⟩),
    (⟨"shop.Page#buy()"⟩, ⟨"Timer.java", 50, 5, .exact, some ⟨"lib.Timer#run()"⟩⟩),
    (⟨"shop.Page#buy()"⟩, ⟨"Admin.java", 30, 5, .exact, some ⟨"shop.Admin#main()"⟩⟩),
    (⟨"shop.Cart#merge(Cart)"⟩, ⟨"Cart.java", 400, 7, .exact, some ⟨"shop.Cart#mergeAll()"⟩⟩),
    (⟨"shop.Cart#mergeAll()"⟩, ⟨"Cart.java", 450, 9, .exact, some ⟨"shop.Cart#merge(Cart)"⟩⟩)]
  arguments := [(120, .ok ["item"]), (300, .error .parseError)]
  lines := [(120, 7), (300, 31)]

example : (twoOrigins.codebase.search .never ⟨"shop.Cart#add(Item)"⟩).outcome = .finished {
    rows := [
      ⟨⟨"shop.Admin#main()"⟩, ⟨"shop.Page#buy()"⟩, some 7, ["item"]⟩,
      ⟨⟨"shop.App#main()"⟩, ⟨"shop.Page#buy()"⟩, some 7, ["item"]⟩,
      ⟨⟨"shop.Cart#merge(Cart)"⟩, ⟨"shop.Cart#merge(Cart)"⟩, some 31, ["parse-error"]⟩,
      ⟨⟨"lib.Timer#run()"⟩, ⟨"lib.Timer#run()"⟩, none, []⟩]
    directCalls := 3
    methodsSearched := 6
    edges := 8 } := by
  rfl

theorem twoOrigins_answers : twoOrigins.codebase.Answers :=
  fun _ _ hcrash => nomatch hcrash

theorem twoOrigins_available : ¬ twoOrigins.codebase.ReachesOutage ⟨"shop.Cart#add(Item)"⟩ := by
  rintro ⟨m, message, -, -, houtage⟩
  cases houtage

theorem twoOrigins_row :
    twoOrigins.codebase.Answers ∧
    twoOrigins.codebase.isPresent ⟨"shop.Cart#add(Item)"⟩ = true ∧
    ¬ twoOrigins.codebase.ReachesOutage ⟨"shop.Cart#add(Item)"⟩ ∧
    ∃ report, (twoOrigins.codebase.search .never ⟨"shop.Cart#add(Item)"⟩).outcome =
      .finished report ∧
      ⟨⟨"shop.App#main()"⟩, ⟨"shop.Page#buy()"⟩, some 7, ["item"]⟩ ∈ report.rows := by
  refine ⟨twoOrigins_answers, rfl, twoOrigins_available, ?_⟩
  obtain ⟨report, origins, houtcome, horigins, hrows⟩ := search_rows twoOrigins.codebase
    twoOrigins_answers ⟨"shop.Cart#add(Item)"⟩ rfl twoOrigins_available
  refine ⟨report, houtcome, ?_⟩
  have hsite : (⟨"shop.Page#buy()"⟩,
      ⟨"Page.java", 120, 9, .exact, some ⟨"shop.Page#buy()"⟩⟩) ∈
      twoOrigins.codebase.callSites ⟨"shop.Cart#add(Item)"⟩ := by decide
  have hmain : ⟨"shop.App#main()"⟩ ∈ origins ⟨"shop.Page#buy()"⟩ :=
    ((horigins _ hsite).2 _).2 ⟨by decide, by decide, .single ⟨by decide, by decide⟩⟩
  rw [hrows, List.mem_flatMap]
  refine ⟨_, hsite, List.mem_map.2 ⟨⟨"shop.App#main()"⟩, ?_, rfl⟩⟩
  rwa [if_neg (List.ne_nil_of_mem hmain)]

end Codebase
end CallOrigins
