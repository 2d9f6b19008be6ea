import CallOrigins.CallGraph.Origins
import CallOrigins.Search.Traversal

/-!
# Searching for origins

A search goes through three stages: the traversal from the target, which gives the call graph
and the direct calls; the origins of every direct caller; and one row for each origin of each
direct call. A direct caller without origins is reported as its own origin.
-/

namespace CallOrigins

/-- What a search reports. -/
structure Report where
  rows : List Row
  directCalls : Nat
  methodsSearched : Nat
  edges : Nat
  deriving DecidableEq, Repr

namespace Search

/-- The rows of a direct call. -/
def rowsOf (g : CallGraph) (call : DirectCall) : List Row :=
  match g.origins call.caller with
  | [] => [Row.ofCall call.caller call]
  | origins => origins.map (fun o => Row.ofCall o call)

/-- The rows of direct calls. Before each of them cancellation may end the search. -/
def assemble (g : CallGraph) : List DirectCall → Script (List Row)
  | [] => .done []
  | call :: calls => do
    .checkpoint
    let rows ← assemble g calls
    return rowsOf g call ++ rows

/-- Reports what a traversal has found. -/
def report (f : Findings) : Script Report := do
  .checkpoint
  let rows ← assemble f.graph f.directCalls
  return ⟨rows, f.directCalls.length, f.methodsSearched, f.graph.edgeCount⟩

/-- The search for the origins of a target, where `callers` methods enclose references. -/
def script (callers : Nat) (target : MethodId) : Script Report := do
  if ← .put (.isPresent target) then
    report (← traverse callers target)
  else
    .fail (.invalidTarget target.text "method does not exist")

end Search

namespace Codebase

/-- The traversal from a target in a codebase. -/
def traverse (cb : Codebase) (moment : CancelMoment) (target : MethodId) : Run Findings :=
  (CallOrigins.traverse cb.callers.length target).run cb moment {}

/-- **The search for the origins of a target in a codebase.** -/
def search (cb : Codebase) (moment : CancelMoment) (target : MethodId) : Run Report :=
  (Search.script cb.callers.length target).run cb moment {}

end Codebase

/-- The wording of the outcome of a search. -/
def Outcome.message : Outcome Report → String
  | finished r =>
    "Found " ++ toString r.rows.length ++ " result(s) from " ++ toString r.directCalls ++
      " direct call(s), " ++ toString r.methodsSearched ++ " method(s) searched"
  | cancelled => "search cancelled"
  | failed why => "search failed: " ++ why.message

end CallOrigins
