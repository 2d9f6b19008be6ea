import CallOrigins.Proofs.Search.Rows
import Mathlib.Data.List.Basic

/-!
# The order of references

A search for references lists them in some order, and it may list one of them twice. Two codebases
that differ in nothing else are compared here (`SameCalls`). The traversals of the two meet the
methods in different orders and add the edges in different orders.

Neither traversal is followed. What each of them finds is told from its own codebase already
(`Findings.Complete`), and that says only which methods are reached, which edges there are and
which methods are origins; all of this is the same for both. The lists that are reported are
ascending and the numbers count lists without repetition, so they are the same as well.

**The law** (`search_reordered`): the order matters for the references to the target alone, and
there it is the order of the call sites in the report, nothing else.
-/

namespace CallOrigins

open Relation (ReflTransGen)

/-- Two answers to one search for references that differ at most in the order of the references
and in how often they are listed. -/
def References.Alike : References → References → Prop
  | .ok rs, .ok rs' => ∀ r, r ∈ rs ↔ r ∈ rs'
  | .error fault, .error fault' => fault = fault'
  | _, _ => False

namespace References.Alike

variable {a b : References}

theorem refl (a : References) : Alike a a := by
  cases a with
  | ok rs => exact fun r => Iff.rfl
  | error fault => exact rfl

theorem symm (h : Alike a b) : Alike b a := by
  rcases a with fault | rs <;> rcases b with fault' | rs'
  · exact Eq.symm h
  · exact h
  · exact h
  · exact fun r => (h r).symm

theorem of_perm {rs rs' : List Reference} (h : rs.Perm rs') : Alike (.ok rs) (.ok rs') :=
  fun _ => h.mem_iff

/-- Alike answers fail alike. -/
theorem eq_error (h : Alike a b) {fault : SearchFault} (ha : a = .error fault) :
    b = .error fault := by
  subst ha
  cases b with
  | ok rs => exact h.elim
  | error fault' => exact congrArg Except.error (Eq.symm h)

end References.Alike

/-! ## The same calls -/

namespace Codebase

variable {cb cb' : Codebase} {target m c r : MethodId}

/-- Codebases that give the same answers to all questions but searches for references. -/
structure AgreesWith (cb cb' : Codebase) : Prop where
  isPresent : cb'.isPresent = cb.isPresent
  isExternal : cb'.isExternal = cb.isExternal
  enclosing : cb'.enclosing = cb.enclosing
  arguments : cb'.arguments = cb.arguments
  line : cb'.line = cb.line

/-- **Codebases with the same calls**: what a search for references finds may be listed in another
order, and more or less often. -/
structure SameCalls (cb cb' : Codebase) : Prop extends AgreesWith cb cb' where
  references : ∀ m, References.Alike (cb.references m) (cb'.references m)

theorem SameCalls.symm (same : cb.SameCalls cb') : cb'.SameCalls cb where
  isPresent := same.isPresent.symm
  isExternal := same.isExternal.symm
  enclosing := same.enclosing.symm
  arguments := same.arguments.symm
  line := same.line.symm
  references m := (same.references m).symm

theorem AgreesWith.callerAt?_eq (agree : cb.AgreesWith cb') (r : Reference) :
    cb'.callerAt? r = cb.callerAt? r := by
  unfold callerAt?
  rw [agree.enclosing]

theorem AgreesWith.sites_eq (agree : cb.AgreesWith cb') (rs : List Reference) :
    cb'.sites rs = cb.sites rs := by
  unfold sites
  simp only [agree.callerAt?_eq]

theorem AgreesWith.directCall_eq (agree : cb.AgreesWith cb') (target : MethodId)
    (site : MethodId × Reference) : cb'.directCall target site = cb.directCall target site := by
  unfold directCall
  rw [agree.arguments, agree.line]

/-- Where the references to a method are the same list, so are those that a search finds. -/
theorem AgreesWith.found_eq (agree : cb.AgreesWith cb')
    (h : cb'.references m = cb.references m) : cb'.found m = cb.found m := by
  unfold found
  rw [agree.isPresent, h]

theorem SameCalls.mem_found (same : cb.SameCalls cb') {r : Reference} (h : r ∈ cb.found m) :
    r ∈ cb'.found m := by
  have halike := same.references m
  unfold found at h ⊢
  rw [same.isPresent]
  split at h
  next present =>
    rw [if_pos present]
    rcases hrs : cb.references m with fault | rs
    · rw [hrs] at h
      exact absurd h List.not_mem_nil
    · rcases hrs' : cb'.references m with fault | rs'
      · rw [hrs, hrs'] at halike
        exact halike.elim
      · rw [hrs, hrs'] at halike
        rw [hrs] at h
        exact (halike r).1 h
  next => exact absurd h List.not_mem_nil

theorem SameCalls.mem_callersOf (same : cb.SameCalls cb') (h : c ∈ cb.callersOf m) :
    c ∈ cb'.callersOf m := by
  obtain ⟨r, hr, hc⟩ := Codebase.mem_callersOf.1 h
  exact Codebase.mem_callersOf.2 ⟨r, same.mem_found hr, (same.callerAt?_eq r).trans hc⟩

theorem SameCalls.reached (same : cb.SameCalls cb') (h : cb.Reached target m) :
    cb'.Reached target m := by
  induction h with
  | target => exact .target
  | caller _ hc ih =>
    obtain ⟨hcaller, hsource⟩ := mem_sourceCallersOf.1 hc
    refine ih.caller (mem_sourceCallersOf.2 ⟨same.mem_callersOf hcaller, ?_⟩)
    rw [same.isExternal, hsource]

theorem SameCalls.mem_known (same : cb.SameCalls cb') (h : c ∈ cb.known target m) :
    c ∈ cb'.known target m := by
  obtain ⟨hm, hc⟩ := Codebase.mem_known.1 h
  refine Codebase.mem_known.2 ⟨?_, same.mem_callersOf hc⟩
  rwa [same.isExternal]

theorem SameCalls.isOriginOf (same : cb.SameCalls cb') (h : cb.IsOriginOf target m r) :
    cb'.IsOriginOf target m r where
  source := by
    rw [same.isExternal]
    exact h.source
  last c hc := by
    rw [same.isExternal]
    exact h.last c (same.symm.mem_known hc)
  reached := by
    refine ReflTransGen.mono (fun x y hxy => ?_) _ _ h.reached
    rw [same.isExternal]
    exact ⟨same.mem_known hxy.1, hxy.2⟩

theorem SameCalls.answers (same : cb.SameCalls cb') (answers : cb.Answers) : cb'.Answers :=
  fun m message hcrash => answers m message ((same.references m).symm.eq_error hcrash)

theorem SameCalls.reachesOutage (same : cb.SameCalls cb') (h : cb'.ReachesOutage target) :
    cb.ReachesOutage target := by
  obtain ⟨m, message, hreached, hpresent, houtage⟩ := h
  refine ⟨m, message, same.symm.reached hreached, ?_, (same.references m).symm.eq_error houtage⟩
  rw [← same.isPresent, hpresent]

end Codebase

/-! ## The same findings -/

namespace Findings.Complete

variable {cb cb' : Codebase} {target c : MethodId} {f f' : Findings}

theorem edgeCount_eq (h : f.Complete cb target) (h' : f'.Complete cb' target)
    (same : cb.SameCalls cb') : f'.graph.edgeCount = f.graph.edgeCount := by
  refine CallGraph.edgeCount_eq_of_mem_iff fun e => ?_
  rw [h'.edges_iff, h.edges_iff]
  constructor
  · exact fun he => ⟨same.symm.reached he.1, same.symm.mem_callersOf he.2⟩
  · exact fun he => ⟨same.reached he.1, same.mem_callersOf he.2⟩

theorem methodsSearched_eq_of_same (h : f.Complete cb target) (h' : f'.Complete cb' target)
    (same : cb.SameCalls cb') : f'.methodsSearched = f.methodsSearched := by
  rw [h.methodsSearched_eq, h'.methodsSearched_eq]
  refine ((List.perm_ext_iff_of_nodup (cb'.nodup_breadthFirst target)
    (cb.nodup_breadthFirst target)).2 fun m => ?_).length_eq
  rw [Codebase.mem_breadthFirst, Codebase.mem_breadthFirst]
  exact ⟨same.symm.reached, same.reached⟩

/-- A direct caller has the same origins, in the same order. -/
theorem origins_eq (h : f.Complete cb target) (h' : f'.Complete cb' target)
    (same : cb.SameCalls cb') (hc : c ∈ cb.callersOf target) :
    f'.graph.origins c = f.graph.origins c := by
  refine (CallGraph.origins_ascending f'.graph c).eq_of_mem_iff
    (CallGraph.origins_ascending f.graph c) fun r => ?_
  rw [h.mem_origins hc, h'.mem_origins (same.mem_callersOf hc)]
  exact ⟨same.symm.isOriginOf, same.isOriginOf⟩

/-- **A call site has the same rows.** -/
theorem rowsOf_eq (h : f.Complete cb target) (h' : f'.Complete cb' target)
    (same : cb.SameCalls cb') {site : MethodId × Reference} (hsite : site.1 ∈ cb.callersOf target) :
    Search.rowsOf f'.graph (cb'.directCall target site) =
      Search.rowsOf f.graph (cb.directCall target site) := by
  have horigins : f'.graph.origins (cb.directCall target site).caller =
      f.graph.origins (cb.directCall target site).caller := h.origins_eq h' same hsite
  rw [same.directCall_eq, Search.rowsOf_eq, Search.rowsOf_eq, horigins]

theorem rows_eq_flatMap (h : f.Complete cb target) :
    f.reported.rows = (cb.callSites target).flatMap fun site =>
      Search.rowsOf f.graph (cb.directCall target site) := by
  show f.directCalls.flatMap (Search.rowsOf f.graph) = _
  rw [h.directCalls_eq, List.flatMap_map]

theorem directCalls_reported (h : f.Complete cb target) :
    f.reported.directCalls = (cb.callSites target).length := by
  show f.directCalls.length = _
  rw [h.directCalls_eq, List.length_map]

/-- Where the target has the same call sites in the same order, the reports are the same. -/
theorem reported_eq (h : f.Complete cb target) (h' : f'.Complete cb' target)
    (same : cb.SameCalls cb') (hsites : cb'.callSites target = cb.callSites target) :
    f'.reported = f.reported := by
  have hrows : f'.reported.rows = f.reported.rows := by
    rw [h.rows_eq_flatMap, h'.rows_eq_flatMap, hsites]
    refine List.flatMap_congr fun site hsite => ?_
    exact h.rowsOf_eq h' same (Codebase.caller_mem_of_mem_callSites hsite)
  rw [Report.mk.injEq]
  refine ⟨hrows, ?_, h.methodsSearched_eq_of_same h' same, h.edgeCount_eq h' same⟩
  exact h'.directCalls_reported.trans (hsites ▸ h.directCalls_reported.symm)

end Findings.Complete

/-- Every row of a direct call tells the same of it, and there is one at least. -/
theorem Search.rowsOf_spec (g : CallGraph) (call : DirectCall) :
    rowsOf g call ≠ [] ∧ ∀ row ∈ rowsOf g call,
      row.directCaller = call.caller ∧ row.line = call.line ∧ row.arguments = call.arguments := by
  rw [rowsOf_eq]
  constructor
  · split
    · simp
    next h => simpa using h
  · intro row hrow
    obtain ⟨origin, _, rfl⟩ := List.mem_map.1 hrow
    exact ⟨rfl, rfl, rfl⟩

namespace Codebase

/-- Where the references to a target that exists name every call site once, these are all its
call sites. -/
theorem callSites_eq_sites {cb : Codebase} {target : MethodId} {rs : List Reference}
    (present : cb.isPresent target = true) (hrs : cb.references target = .ok rs)
    (distinct : ((cb.sites rs).map siteKey).Nodup) : cb.callSites target = cb.sites rs := by
  have hfound : cb.found target = rs := by
    unfold found
    rw [if_pos present, hrs]
  rw [callSites, hfound]
  exact freshBy_eq_self _ _ _ distinct fun _ _ => List.not_mem_nil

/-- As soon as the references to the target are alike too, two codebases have the same calls. -/
theorem AgreesWith.sameCalls {cb cb' : Codebase} {target : MethodId} (agree : cb.AgreesWith cb')
    (others : ∀ m, m ≠ target → References.Alike (cb.references m) (cb'.references m))
    (htarget : References.Alike (cb.references target) (cb'.references target)) :
    cb.SameCalls cb' := by
  refine { agree with references := fun m => ?_ }
  by_cases hm : m = target
  · exact hm ▸ htarget
  · exact others m hm

/-- Where one of two searches over the same calls meets no outage, both of them finish. -/
theorem SameCalls.search_of_available {cb cb' : Codebase} {target : MethodId}
    (same : cb.SameCalls cb') (answers : cb.Answers) (available : ¬ cb.ReachesOutage target)
    (present : cb.isPresent target = true) :
    ∃ f f' : Findings, f.Complete cb target ∧ f'.Complete cb' target ∧
      (cb.search .never target).outcome = .finished f.reported ∧
      (cb'.search .never target).outcome = .finished f'.reported := by
  have present' : cb'.isPresent target = true := by rw [same.isPresent, present]
  have available' : ¬ cb'.ReachesOutage target :=
    fun houtage => available (same.reachesOutage houtage)
  obtain ⟨f, h, houtcome⟩ := answers.search_of_available present available
  obtain ⟨f', h', houtcome'⟩ := (same.answers answers).search_of_available present' available'
  exact ⟨f, f', h, h', houtcome, houtcome'⟩

/-- **The order of references does not matter**, nor how often they are listed. Where only the
references to other methods than the target are listed otherwise, the report is the same. Where
those to the target are listed in another order as well, each call site once, the report is made
of the same rows for each call site, in the order of the call sites, and the same numbers. -/
theorem search_reordered (cb cb' : Codebase) (target : MethodId) (agree : cb.AgreesWith cb')
    (answers : cb.Answers) (available : ¬ cb.ReachesOutage target)
    (others : ∀ m, m ≠ target → References.Alike (cb.references m) (cb'.references m)) :
    (cb'.references target = cb.references target →
      (cb'.search .never target).outcome = (cb.search .never target).outcome ∧
      (cb.isPresent target = true →
        ∃ report, (cb.search .never target).outcome = .finished report)) ∧
    ∀ rs rs', cb.references target = .ok rs → cb'.references target = .ok rs' → rs.Perm rs' →
      ((cb.sites rs).map siteKey).Nodup → cb.isPresent target = true →
      ∃ (report report' : Report) (block : MethodId × Reference → List Row),
        (cb.search .never target).outcome = .finished report ∧
        (cb'.search .never target).outcome = .finished report' ∧
        report.rows = (cb.sites rs).flatMap block ∧
        report'.rows = (cb.sites rs').flatMap block ∧
        (∀ site ∈ cb.sites rs, block site ≠ [] ∧ ∀ row ∈ block site,
          row.directCaller = site.1 ∧ row.line = cb.line site.1 site.2.offset ∧
          row.arguments = Traversal.shownArguments
            (cb.arguments site.1 target site.2.offset site.2.length)) ∧
        report'.directCalls = report.directCalls ∧
        report'.methodsSearched = report.methodsSearched ∧
        report'.edges = report.edges := by
  constructor
  · intro htarget
    have same := agree.sameCalls others (htarget ▸ References.Alike.refl _)
    cases present : cb.isPresent target with
    | false =>
      have present' : cb'.isPresent target = false := by rw [agree.isPresent, present]
      rw [search_of_not_present present, search_of_not_present present']
      exact ⟨rfl, fun h => absurd h Bool.false_ne_true⟩
    | true =>
      obtain ⟨f, f', h, h', houtcome, houtcome'⟩ :=
        same.search_of_available answers available present
      have hsites : cb'.callSites target = cb.callSites target := by
        rw [callSites, callSites, agree.found_eq htarget, agree.sites_eq]
      rw [houtcome, houtcome', h.reported_eq h' same hsites]
      exact ⟨rfl, fun _ => ⟨_, rfl⟩⟩
  · intro rs rs' hrs hrs' hperm distinct present
    have same := agree.sameCalls others (hrs ▸ hrs' ▸ References.Alike.of_perm hperm)
    obtain ⟨f, f', h, h', houtcome, houtcome'⟩ :=
      same.search_of_available answers available present
    have hsitesPerm : (cb.sites rs).Perm (cb.sites rs') := hperm.filterMap _
    have hsites := callSites_eq_sites present hrs distinct
    have hsites' : cb'.callSites target = cb.sites rs' := by
      rw [← agree.sites_eq]
      refine callSites_eq_sites (by rw [agree.isPresent, present]) hrs' ?_
      rw [agree.sites_eq]
      exact (hsitesPerm.map siteKey).nodup distinct
    refine ⟨f.reported, f'.reported,
      fun site => Search.rowsOf f.graph (cb.directCall target site), houtcome, houtcome',
      ?_, ?_, ?_, ?_, h.methodsSearched_eq_of_same h' same, h.edgeCount_eq h' same⟩
    · rw [h.rows_eq_flatMap, hsites]
    · rw [h'.rows_eq_flatMap, hsites']
      refine List.flatMap_congr fun site hsite => ?_
      refine h.rowsOf_eq h' same (caller_mem_of_mem_callSites ?_)
      rw [hsites]
      exact hsitesPerm.mem_iff.2 hsite
    · exact fun site _ => Search.rowsOf_spec f.graph (cb.directCall target site)
    · rw [h.directCalls_reported, h'.directCalls_reported, hsites, hsites', hsitesPerm.length_eq]

/-- Tables without faults list the same references where they have the same entries. -/
theorem alike_of_tables {t t' : Tables} (hfaults : t.faults = []) (hfaults' : t'.faults = [])
    (h : ∀ e, e ∈ t.references ↔ e ∈ t'.references) (m : MethodId) :
    References.Alike (t.codebase.references m) (t'.codebase.references m) := by
  show References.Alike (t.searchOf m) (t'.searchOf m)
  unfold Tables.searchOf
  rw [hfaults, hfaults']
  intro r
  simp only [List.mem_map, List.mem_filter, h]

/-- Two call sites of a target. The first caller has two origins, and it calls the second one. -/
def twoCalls : Tables where
  methods := [⟨"shop.Cart#add(Item)"⟩, ⟨"shop.Page#buy()"⟩, ⟨"shop.Page#sell()"⟩,
    ⟨"shop.App#main()"⟩, ⟨"shop.Admin#main()"⟩]
  references := [
    (⟨"shop.Cart#add(Item)"⟩, ⟨"Page.java", 120, 9, .exact, some ⟨"shop.Page#buy()"⟩⟩),
    (⟨"shop.Cart#add(Item)"⟩, ⟨"Page.java", 180, 9, .exact, some ⟨"shop.Page#sell()"⟩⟩),
    (⟨"shop.Page#buy()"⟩, ⟨"App.java", 20, 5, .exact, some ⟨"shop.App#main()"⟩⟩),
    (⟨"shop.Page#buy()"⟩, ⟨"Admin.java", 30, 5, .exact, some ⟨"shop.Admin#main()"⟩⟩),
    (⟨"shop.Page#sell()"⟩, ⟨"Page.java", 140, 6, .exact, some ⟨"shop.Page#buy()"⟩⟩)]
  arguments := [(120, .ok ["item"]), (180, .error .parseError)]
  lines := [(120, 7), (180, 11)]

/-- The same, with the references to other methods than the target in the opposite order first. -/
def othersReversed : Tables :=
  { twoCalls with
    references := (twoCalls.references.filter (fun e => e.1 ≠ ⟨"shop.Cart#add(Item)"⟩)).reverse ++
      twoCalls.references }

/-- The same, with all references in the opposite order. -/
def allReversed : Tables :=
  { twoCalls with references := twoCalls.references.reverse }

theorem twoCalls_answers : twoCalls.codebase.Answers := by
  intro m message hcrash
  cases hcrash

theorem twoCalls_available : ¬ twoCalls.codebase.ReachesOutage ⟨"shop.Cart#add(Item)"⟩ := by
  rintro ⟨m, message, -, -, houtage⟩
  cases houtage

theorem twoCalls_reordered :
    twoCalls.codebase.Answers ∧ ¬ twoCalls.codebase.ReachesOutage ⟨"shop.Cart#add(Item)"⟩ ∧
    (othersReversed.codebase.search .never ⟨"shop.Cart#add(Item)"⟩).outcome =
      (twoCalls.codebase.search .never ⟨"shop.Cart#add(Item)"⟩).outcome ∧
    ∃ (report report' : Report) (first second : List Row),
      (twoCalls.codebase.search .never ⟨"shop.Cart#add(Item)"⟩).outcome = .finished report ∧
      (allReversed.codebase.search .never ⟨"shop.Cart#add(Item)"⟩).outcome = .finished report' ∧
      report.rows = first ++ second ∧ report'.rows = second ++ first ∧
      report'.methodsSearched = report.methodsSearched ∧ report'.edges = report.edges := by
  have others : ∀ m, m ≠ ⟨"shop.Cart#add(Item)"⟩ → References.Alike
      (twoCalls.codebase.references m) (othersReversed.codebase.references m) := by
    refine fun m _ => alike_of_tables rfl rfl (fun e => ?_) m
    simp only [othersReversed, List.mem_append, List.mem_reverse, List.mem_filter]
    exact (or_iff_right_of_imp And.left).symm
  have all : ∀ m, m ≠ ⟨"shop.Cart#add(Item)"⟩ → References.Alike
      (twoCalls.codebase.references m) (allReversed.codebase.references m) :=
    fun m _ => alike_of_tables rfl rfl (fun e => List.mem_reverse.symm) m
  refine ⟨twoCalls_answers, twoCalls_available, ?_, ?_⟩
  · exact ((search_reordered twoCalls.codebase othersReversed.codebase ⟨"shop.Cart#add(Item)"⟩
      ⟨rfl, rfl, rfl, rfl, rfl⟩ twoCalls_answers twoCalls_available others).1 rfl).1
  · obtain ⟨report, report', block, houtcome, houtcome', hrows, hrows', -, -, hsearched, hedges⟩ :=
      (search_reordered twoCalls.codebase allReversed.codebase ⟨"shop.Cart#add(Item)"⟩
        ⟨rfl, rfl, rfl, rfl, rfl⟩ twoCalls_answers twoCalls_available all).2
        _ _ rfl rfl (List.reverse_perm _).symm (by decide) (by decide)
    have hblocks : ∀ site site' : MethodId × Reference,
        [site, site'].flatMap block = block site ++ block site' := by simp
    exact ⟨report, report', _, _, houtcome, houtcome', hrows.trans (hblocks ..),
      hrows'.trans (hblocks ..), hsearched, hedges⟩

end Codebase
end CallOrigins
