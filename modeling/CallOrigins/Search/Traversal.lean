import CallOrigins.CallGraph
import CallOrigins.Search.Script

/-!
# The traversal

From the target on, the callers of every method that is met are sought, breadth first. Each
exact reference with an enclosing method gives an edge of the call graph. The callers of
external methods are not sought, with the exception of the target. The references to the
target itself are the direct calls; for these the arguments and the line are asked for.
-/

namespace CallOrigins

/-- What a traversal has found. -/
structure Findings where
  graph : CallGraph := {}
  directCalls : List DirectCall := []
  /-- The number of methods that were met. -/
  methodsSearched : Nat := 0
  deriving Repr

/-- The state of a traversal. -/
structure Traversal where
  /-- The methods that were taken off the queue. -/
  visited : List MethodId := []
  queue : List MethodId := []
  /-- The methods that were ever put into the queue. -/
  queued : List MethodId := []
  /-- Which methods are external, as far as it was asked. -/
  external : List (MethodId × Bool) := []
  /-- The callers and offsets of the direct calls. -/
  recorded : List (MethodId × Nat) := []
  graph : CallGraph := {}
  directCalls : List DirectCall := []
  deriving Repr

namespace Traversal

/-- Puts a method into the queue, unless it has been there. -/
def enqueue (t : Traversal) (m : MethodId) : Traversal :=
  if m ∈ t.visited ∨ m ∈ t.queued then t
  else { t with queue := t.queue ++ [m], queued := m :: t.queued }

/-- The traversal that starts at a target. -/
def seeded (target : MethodId) : Traversal :=
  enqueue {} target

/-- Notes whether a method is external. -/
def noteExternal (t : Traversal) (m : MethodId) (external : Bool) : Traversal :=
  { t with
    external := (m, external) :: t.external
    graph := if external then t.graph.markExternal m else t.graph }

/-- Is a method external? It is asked at most once. -/
def classify (t : Traversal) (m : MethodId) : Script (Bool × Traversal) :=
  match t.external.lookup m with
  | some external => .done (external, t)
  | none => .ask (.isExternal m) (fun external => .done (external, t.noteExternal m external))

/-- The arguments of a direct call, or what stands in their place. -/
def shownArguments : Except ExtractionFailure (List String) → List String
  | .ok arguments => arguments
  | .error failure => [failure.placeholder]

/-- Records a direct call. -/
def record (t : Traversal) (target caller : MethodId) (r : Reference) : Script Traversal := do
  let arguments ← .put (.arguments caller target r.offset r.length)
  .checkpoint
  let line ← .put (.line caller r.offset)
  let call : DirectCall :=
    ⟨caller, line, shownArguments arguments, r.offset, r.length⟩
  return { t with
    recorded := (caller, r.offset) :: t.recorded
    directCalls := t.directCalls ++ [call] }

/-- What an exact reference in a caller adds. -/
def acceptCaller (t : Traversal) (target searched : MethodId) (r : Reference)
    (caller : MethodId) : Script Traversal := do
  let (external, t) ← t.classify caller
  let t := { t with graph := t.graph.addEdge searched caller }
  let isNewSite := decide (searched = target) && !t.recorded.contains (caller, r.offset)
  let t ← if isNewSite then t.record target caller r else pure t
  return if external then t else t.enqueue caller

/-- What a reference adds. Potential references and those outside of all methods add nothing. -/
def accept (t : Traversal) (target searched : MethodId) (r : Reference) : Script Traversal :=
  match r.accuracy with
  | .potential => .done t
  | .exact => do
    match ← .put (.enclosing r) with
    | none => return t
    | some caller => t.acceptCaller target searched r caller

/-- What references add, one after the other. -/
def acceptAll (target searched : MethodId) : List Reference → Traversal → Script Traversal
  | [], t => .done t
  | r :: rs, t => do
    .checkpoint
    let t ← t.accept target searched r
    acceptAll target searched rs t

/-- Seeks the callers of a method that has been taken off the queue. A method that does not
exist, or whose search fails, has none. -/
def visit (t : Traversal) (target m : MethodId) : Script Traversal := do
  if ← .put (.isPresent m) then
    match ← .put (.references m) with
    | .ok rs => acceptAll target m rs t
    | .error fault =>
      match fault.fatal? with
      | some why => .fail why
      | none => return t
  else
    return t

/-- Goes through the queue, for at most `fuel` rounds. -/
def expand (target : MethodId) : Nat → Traversal → Script Traversal
  | 0, t => .done t
  | fuel + 1, t => do
    .checkpoint
    match t.queue with
    | [] => return t
    | m :: queue =>
      if m ∈ t.visited then expand target fuel { t with queue }
      else do
        let t ← visit { t with queue, visited := m :: t.visited } target m
        expand target fuel t

/-- What has been found. -/
def findings (t : Traversal) : Findings :=
  ⟨t.graph, t.directCalls, t.visited.length⟩

end Traversal

/-- **The traversal from a target.** With `callers` methods that enclose references there are
at most as many rounds, one for the target and one that finds the queue empty. -/
def traverse (callers : Nat) (target : MethodId) : Script Findings := do
  let (_, t) ← (Traversal.seeded target).classify target
  let t ← Traversal.expand target (callers + 2) t
  return t.findings

end CallOrigins
