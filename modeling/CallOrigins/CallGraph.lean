import CallOrigins.Method
import Std.Data.TreeSet

/-!
# Call graphs

A call graph records which methods call a method, and which methods are external. The callers of
each method are an ordered set, so that adding an edge again changes nothing.
-/

namespace CallOrigins

/-- A graph of calls. -/
structure CallGraph where
  /-- The callers of every method that is called. -/
  callerSets : Std.TreeMap MethodId (Std.TreeSet MethodId) := {}
  /-- The external methods. -/
  externals : Std.TreeSet MethodId := {}
  deriving Repr

namespace CallGraph

/-- The set of the callers of a method. -/
def callerSet (g : CallGraph) (m : MethodId) : Std.TreeSet MethodId :=
  g.callerSets.getD m {}

/-- Is this edge in the graph? -/
def hasEdge (g : CallGraph) (callee caller : MethodId) : Bool :=
  (g.callerSet callee).contains caller

/-- Adds an edge. -/
def addEdge (g : CallGraph) (callee caller : MethodId) : CallGraph :=
  { g with callerSets := g.callerSets.insert callee ((g.callerSet callee).insert caller) }

/-- Adds an edge, and says whether it is new. -/
def insertEdge (g : CallGraph) (callee caller : MethodId) : Bool × CallGraph :=
  (!g.hasEdge callee caller, g.addEdge callee caller)

/-- Is a method external? -/
def isExternal (g : CallGraph) (m : MethodId) : Bool :=
  g.externals.contains m

/-- Marks a method as external. -/
def markExternal (g : CallGraph) (m : MethodId) : CallGraph :=
  { g with externals := g.externals.insert m }

/-- The callers of a method in ascending order, each of them once. -/
def callers (g : CallGraph) (m : MethodId) : List MethodId :=
  (g.callerSet m).toList

/-- The callers of a method, or `none` where it has none. -/
def callersOf? (g : CallGraph) (m : MethodId) : Option (List MethodId) :=
  g.callerSets[m]?.map Std.TreeSet.toList

/-- The number of edges. -/
def edgeCount (g : CallGraph) : Nat :=
  g.callerSets.foldl (fun n _ callers => n + callers.size) 0

end CallGraph
end CallOrigins
