import CallOrigins.Proofs.Levels
import CallOrigins.Search.Traversal

/-!
# What a codebase lets a search reach

What a search is to find, said of the answers of a codebase alone and without a traversal: the
callers that are known of a method, the methods that are reached from a target, the order in
which they are met, the failures that end everything, and the call sites of the target.

A method that does not exist has no known callers, nor has one whose references could not be
searched. The *reached* methods are the least set that holds the target and with a method all of
its known callers that are not external (`Reached`); the breadth-first order lists just these
(`mem_breadthFirst`).
-/

namespace CallOrigins

namespace Codebase

/-- The method that encloses a reference, if the reference is exact and there is one. -/
def callerAt? (cb : Codebase) (r : Reference) : Option MethodId :=
  match r.accuracy with
  | .exact => cb.enclosing r
  | .potential => none

/-- The exact references with an enclosing method, each after this method. -/
def sites (cb : Codebase) (rs : List Reference) : List (MethodId × Reference) :=
  rs.filterMap (fun r => (cb.callerAt? r).map (fun c => (c, r)))

/-- The references to a method that exists and whose search succeeds. -/
def found (cb : Codebase) (m : MethodId) : List Reference :=
  if cb.isPresent m then
    match cb.references m with
    | .ok rs => rs
    | .error _ => []
  else []

/-- The failure with which the search for the references to a method ends everything. A method
that does not exist is not searched. -/
def fatal? (cb : Codebase) (m : MethodId) : Option Failure :=
  if cb.isPresent m then
    match cb.references m with
    | .ok _ => none
    | .error fault => fault.fatal?
  else none

/-- The methods that are known to call a method. -/
def callersOf (cb : Codebase) (m : MethodId) : List MethodId :=
  (cb.sites (cb.found m)).map Prod.fst

/-- Those of some methods that are not external. -/
def sourcesIn (cb : Codebase) (ms : List MethodId) : List MethodId :=
  ms.filter (fun m => !cb.isExternal m)

/-- The methods that are known to call a method and are not external. -/
def sourceCallersOf (cb : Codebase) (m : MethodId) : List MethodId :=
  cb.sourcesIn (cb.callersOf m)

/-- The methods that are reached from a target. -/
inductive Reached (cb : Codebase) (target : MethodId) : MethodId → Prop
  | target : Reached cb target target
  | caller {m c : MethodId} : Reached cb target m → c ∈ cb.sourceCallersOf m → Reached cb target c

/-- **The breadth-first order** of the methods that are reached from a target. -/
def breadthFirst (cb : Codebase) (target : MethodId) : List MethodId :=
  levelsFrom cb.sourceCallersOf (cb.callers.length + 1) [target] [target]

/-- The caller and the offset of a call site. -/
def siteKey (site : MethodId × Reference) : MethodId × Nat :=
  (site.1, site.2.offset)

/-- **The call sites of a target**: its exact references with an enclosing method, the first one
for each caller and offset. -/
def callSites (cb : Codebase) (target : MethodId) : List (MethodId × Reference) :=
  freshBy siteKey [] (cb.sites (cb.found target))

/-- The direct call at a call site of a target. -/
def directCall (cb : Codebase) (target : MethodId) (site : MethodId × Reference) : DirectCall where
  caller := site.1
  line := cb.line site.1 site.2.offset
  arguments := Traversal.shownArguments
    (cb.arguments site.1 target site.2.offset site.2.length)
  offset := site.2.offset
  length := site.2.length

variable {cb : Codebase} {target m c : MethodId}

@[simp] theorem mem_sourceCallersOf :
    c ∈ cb.sourceCallersOf m ↔ c ∈ cb.callersOf m ∧ cb.isExternal c = false := by
  simp [sourceCallersOf, sourcesIn]

theorem mem_callersOf : c ∈ cb.callersOf m ↔ ∃ r ∈ cb.found m, cb.callerAt? r = some c := by
  simp only [callersOf, sites, List.mem_map, List.mem_filterMap, Option.map_eq_some_iff]
  constructor
  · rintro ⟨_, ⟨r, hr, _, hc, rfl⟩, rfl⟩
    exact ⟨r, hr, hc⟩
  · rintro ⟨r, hr, hc⟩
    exact ⟨(c, r), ⟨r, hr, c, hc, rfl⟩, rfl⟩

/-- Every known caller is one of the finitely many methods that enclose references. -/
theorem mem_callers_of_mem_callersOf (h : c ∈ cb.callersOf m) : c ∈ cb.callers := by
  obtain ⟨r, hr, hc⟩ := mem_callersOf.1 h
  unfold found at hr
  split at hr
  · split at hr
    next rs hrs =>
      unfold callerAt? at hc
      split at hc
      · exact cb.enclosing_mem m rs hrs r hr c hc
      · cases hc
    next => exact absurd hr List.not_mem_nil
  · exact absurd hr List.not_mem_nil

theorem mem_callers_of_mem_sourceCallersOf (cb : Codebase) (m : MethodId) :
    ∀ c ∈ cb.sourceCallersOf m, c ∈ cb.callers := by
  intro c hc
  exact mem_callers_of_mem_callersOf (mem_sourceCallersOf.1 hc).1

theorem length_outside_callers_le (cb : Codebase) (met : List MethodId) :
    (outside cb.callers met).length ≤ cb.callers.length :=
  List.length_filter_le ..

/-- **The breadth-first order lists the reached methods.** -/
theorem mem_breadthFirst : m ∈ cb.breadthFirst target ↔ cb.Reached target m := by
  have hroom := length_outside_callers_le cb [target]
  constructor
  · refine levelsFrom_forall (fun x hx y hy => hx.caller hy) _ _ _ (fun x hx => ?_) m
    rw [List.mem_singleton.1 hx]
    exact .target
  · intro h
    have first : target ∈ cb.breadthFirst target :=
      List.mem_append_left _ (List.mem_singleton_self _)
    induction h with
    | target => exact first
    | caller _ hc ih =>
      rcases levelsFrom_closed (mem_callers_of_mem_sourceCallersOf cb) (cb.callers.length + 1)
        [target] [target] (by omega) _ ih _ hc with hmet | hlevels
      · rw [List.mem_singleton.1 hmet]
        exact first
      · exact hlevels

/-- The breadth-first order lists each method once. -/
theorem nodup_breadthFirst (cb : Codebase) (target : MethodId) :
    (cb.breadthFirst target).Nodup :=
  (nodup_levelsFrom _ _ _ _ (List.pairwise_singleton _ _) fun _ hx => hx).1

/-- A reached method is the target or not external. -/
theorem Reached.eq_or_source (h : cb.Reached target m) : m = target ∨ cb.isExternal m = false := by
  cases h with
  | target => exact .inl rfl
  | caller _ hc => exact .inr (mem_sourceCallersOf.1 hc).2

end Codebase
end CallOrigins
