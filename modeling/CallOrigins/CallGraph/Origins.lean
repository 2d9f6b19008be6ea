import CallOrigins.CallGraph

/-!
# Origins

The origins of a method are found by going from caller to caller: an origin is a method that
is not external and has no caller but external ones. A walk never goes through an external
caller, and it gives a branch up when it meets a method that is on its path already; the same
method may still be met on another branch.

The path grows by one caller in the graph with every step, so the walk is never deeper than
there are callers, with the start.
-/

namespace CallOrigins

/-- The state of a walk: the methods between its start and the current place, the last one
first, and the origins that were found, in ascending order. -/
structure OriginWalk where
  path : List MethodId := []
  origins : List MethodId := []
  deriving DecidableEq, Repr

namespace CallGraph

/-- The callers of a method that are not external. -/
def sourceCallers (g : CallGraph) (m : MethodId) : List MethodId :=
  (g.callers m).filter (fun c => !g.isExternal c)

/-- Walks on from a method, at most `fuel` deep. -/
def walkOrigins (g : CallGraph) : Nat → MethodId → OriginWalk → OriginWalk
  | 0, _, w => w
  | fuel + 1, m, w =>
    if m ∈ w.path then w
    else
      let callers := g.sourceCallers m
      let below :=
        callers.foldl (fun w c => g.walkOrigins fuel c w) { w with path := m :: w.path }
      let isOrigin := callers.isEmpty && !g.isExternal m
      { path := below.path.erase m
        origins := if isOrigin then MethodId.insertInto m below.origins else below.origins }

/-- **The origins of a method**, in ascending order. There are none where the method is
external or every way from it runs into a cycle. -/
def origins (g : CallGraph) (start : MethodId) : List MethodId :=
  (g.walkOrigins (g.edgeCount + 1) start {}).origins

end CallGraph
end CallOrigins
