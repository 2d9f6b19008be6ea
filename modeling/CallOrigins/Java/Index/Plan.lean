import CallOrigins.Ignore
import CallOrigins.Regex.Reader
import CallOrigins.Settings

/-!
# Plans for an index

A plan says which files an index is made of: the roots to go through, the patterns for library
paths, and the number of workers. Settings become a plan when their roots are seen from the
directory of the project and their patterns are read.
-/

namespace CallOrigins.Java

/-- A plan for an index. -/
structure IndexPlan where
  sourceRoots : List String
  libraryRoots : List String
  patterns : List Regex
  walk : WalkOptions
  /-- The number of workers; zero leaves it to the machine. -/
  threads : Nat

namespace IndexPlan

/-- The pattern of a text. -/
def readPattern (text : String) : Except Failure Regex :=
  match Regex.read text with
  | .ok r => .ok r
  | .error why => .error (.badPattern text why.message)

/-- **The plan of settings for a project.** The first pattern that cannot be read is reported. -/
def ofSettings (s : Settings) (project : String) : Except Failure IndexPlan := do
  let patterns ← s.libraryPatterns.mapM readPattern
  return {
    sourceRoots :=
      if s.sourceRoots.isEmpty then [project] else s.sourceRoots.map (Path.join project)
    libraryRoots := s.libraryRoots.map (Path.join project)
    patterns
    walk := { hidden := s.hidden, noIgnore := s.noIgnore }
    threads := s.threads.getD 0 }

/-- **Does a pattern mark a path as library code?** Patterns see slashes in place of
backslashes. -/
def isLibraryPath (plan : IndexPlan) (path : String) : Bool :=
  plan.patterns.any (fun r => r.matchesIn (Path.withSlashes path))

/-- The roots in the order in which they are gone through, and whether they hold library code.
Library roots come first: a library inside of a source root stays a library. -/
def roots (plan : IndexPlan) : List (String × Bool) :=
  plan.libraryRoots.map (fun r => (r, true)) ++ plan.sourceRoots.map (fun r => (r, false))

end IndexPlan
end CallOrigins.Java
