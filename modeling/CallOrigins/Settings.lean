import CallOrigins.Disk
import CallOrigins.Failure
import CallOrigins.Json.Reader

/-!
# Settings

Which directories hold the sources of a project, and how they are to be gone through. Settings
are written as JSON: an object with the fields of `Settings`, each at most once and none of them
required, or an array with their values in this order, which may stop early.

Settings come from the file that was asked for; or else from the project's own file; or else
from the user's file; or else they are the default ones.
-/

namespace CallOrigins

/-- The settings of a project. -/
structure Settings where
  /-- The directories with sources; with none of them, the directory of the project. -/
  sourceRoots : List String := []
  /-- The directories with library code. -/
  libraryRoots : List String := []
  /-- Patterns for the paths of library code. -/
  libraryPatterns : List String := []
  /-- Are hidden files wanted? -/
  hidden : Bool := false
  /-- Are rules for ignored files not to be followed? -/
  noIgnore : Bool := false
  /-- The number of workers. -/
  threads : Option Nat := none
  logLevel : Option String := none
  deriving DecidableEq, Repr, Inhabited

namespace Settings

/-- **Lays settings over others**: lists are appended, flags stay set, and an option that is set
replaces the one below. -/
def overlay (below above : Settings) : Settings :=
  { sourceRoots := below.sourceRoots ++ above.sourceRoots
    libraryRoots := below.libraryRoots ++ above.libraryRoots
    libraryPatterns := below.libraryPatterns ++ above.libraryPatterns
    hidden := below.hidden || above.hidden
    noIgnore := below.noIgnore || above.noIgnore
    threads := above.threads <|> below.threads
    logLevel := above.logLevel <|> below.logLevel }

/-! ## Reading settings -/

/-- A list of strings. -/
def asStrings? : Json → Option (List String)
  | .array vs =>
    vs.mapM (fun v =>
      match v with
      | .string s => some s
      | _ => none)
  | _ => none

/-- A truth value. -/
def asBool? : Json → Option Bool
  | .bool b => some b
  | _ => none

/-- A machine number: it is written with digits only. -/
def wordOfText? (text : String) : Option Nat :=
  let cs := text.toList
  if !cs.isEmpty && cs.all Char.isDigit then
    let n := cs.foldl (fun n c => 10 * n + (c.toNat - '0'.toNat)) 0
    if n < wordCount then some n else none
  else none

/-- A number or nothing. -/
def asThreads? : Json → Option (Option Nat)
  | .null => some none
  | .number text => (wordOfText? text).map some
  | _ => none

/-- A string or nothing. -/
def asLogLevel? : Json → Option (Option String)
  | .null => some none
  | .string s => some (some s)
  | _ => none

/-- The fields in their order: the name of each, and how its value is set. -/
def fields : List (String × (Settings → Json → Option Settings)) :=
  [("sourceRoots", fun s v => (asStrings? v).map (fun x => { s with sourceRoots := x })),
   ("libraryRoots", fun s v => (asStrings? v).map (fun x => { s with libraryRoots := x })),
   ("libraryPatterns", fun s v => (asStrings? v).map (fun x => { s with libraryPatterns := x })),
   ("hidden", fun s v => (asBool? v).map (fun x => { s with hidden := x })),
   ("noIgnore", fun s v => (asBool? v).map (fun x => { s with noIgnore := x })),
   ("threads", fun s v => (asThreads? v).map (fun x => { s with threads := x })),
   ("logLevel", fun s v => (asLogLevel? v).map (fun x => { s with logLevel := x }))]

/-- Sets the fields of an object. -/
def setFields (s : Settings) : List (String × Json) → Option Settings
  | [] => some s
  | (name, v) :: rest =>
    if rest.any (fun r => r.1 == name) then none
    else do
      let set ← fields.lookup name
      (← set s v).setFields rest

/-- Sets fields in their order. -/
def setInOrder (s : Settings) :
    List (String × (Settings → Json → Option Settings)) → List Json → Option Settings
  | _, [] => some s
  | [], _ :: _ => none
  | (_, set) :: sets, v :: vs => do (← set s v).setInOrder sets vs

/-- **The settings of a JSON value.** -/
def ofJson? : Json → Option Settings
  | .object fs => setFields {} fs
  | .array vs => setInOrder {} fields vs
  | _ => none

/-! ## Finding settings -/

/-- The name of the project's own file. -/
def projectFile : String :=
  ".rootcallers.json"

/-- The user's file, below the directory for the settings of programs. -/
def userFile (dir : String) : String :=
  Path.join (Path.join dir "rootcallers") "config.json"

/-- **The settings in a file.** -/
def load (d : Disk) (path : String) : Except Failure Settings :=
  match d.readText path with
  | .error fault => .error (.inputOutput fault.message)
  | .ok text =>
    match (Json.read? text).bind ofJson? with
    | some s => .ok s
    | none => .error (.badSettings path "not the JSON of settings")

/-- Settings, and the file that they come from. -/
structure Found where
  settings : Settings
  source : Option String
  deriving DecidableEq, Repr

/-- The settings in a file, with the file. -/
def loadFrom (d : Disk) (path : String) : Except Failure Found :=
  (load d path).map (fun s => ⟨s, some path⟩)

/-- **The settings for a project.** -/
def discover (d : Disk) (asked : Option String) (project : String) (userDir : Option String) :
    Except Failure Found :=
  match asked with
  | some path =>
    if d.isFile path then loadFrom d path
    else .error (.badSettings path "config file not found")
  | none =>
    match (Path.join project projectFile :: (userDir.map userFile).toList).find? d.isFile with
    | some path => loadFrom d path
    | none => .ok ⟨{}, none⟩

end Settings
end CallOrigins
