import CallOrigins.CommandLine
import CallOrigins.Java.Index.Build
import CallOrigins.Java.Index.Codebase
import CallOrigins.Java.Index.Target
import CallOrigins.Report.Csv
import CallOrigins.Report.Document
import CallOrigins.Report.Table

/-!
# Running commands

A command is run on a disk. What it leaves behind is a transcript: the status, what was written
to the two streams, and the disk. A command that fails says why, after all that it has said
before.
-/

namespace CallOrigins.CommandLine

open Java

/-- Where commands are run. -/
structure Session where
  disk : Disk
  /-- The directory for the settings of programs. -/
  userDir : Option String
  /-- The number of cores of the machine. -/
  cores : Nat
  /-- The home directory of the user. -/
  home : Option String := none

/-- What a command leaves behind. -/
structure Transcript where
  status : Nat
  out : String := ""
  /-- The lines on the stream for messages. -/
  messages : List String := []
  disk : Disk

/-- The status of a command that failed. -/
def failedStatus : Nat := 1

/-- The status where a command line is not used as it should be. -/
def misusedStatus : Nat := 2

/-- The status of a search that was cancelled. -/
def cancelledStatus : Nat := 130

namespace Session

/-- The end of a command that failed. -/
def fail (s : Session) (messages : List String) (why : Failure) : Transcript :=
  { status := failedStatus, messages := messages ++ ["Error: " ++ why.message], disk := s.disk }

/-- **The plan for the index of a project.** -/
def plan (s : Session) (o : IndexOptions) : Except Failure IndexPlan := do
  let found ← Settings.discover s.disk o.config o.dir s.userDir
  let plan ← IndexPlan.ofSettings (found.settings.overlay o.overrides) o.dir
  return { plan with walk := { plan.walk with user := ⟨s.home, s.userDir⟩ } }

/-- The index of a project. -/
def openIndex (s : Session) (o : IndexOptions) : Except Failure BuiltIndex := do
  (← s.plan o).build s.cores s.disk

/-! ## Searching for origins -/

/-- A search that is about to start. -/
structure Prepared where
  index : Index
  target : MethodId
  messages : List String

/-- Gets a search ready. -/
def prepare (s : Session) (c : CallersCommand) : Except Transcript Prepared :=
  match s.openIndex c.index with
  | .error why => .error (s.fail [] why)
  | .ok built =>
    match built.index.findTarget c.target with
    | .error why => .error (s.fail built.log why)
    | .ok target =>
      .ok ⟨built.index, target,
        built.log ++ ["[callers] Searching root callers of " ++ target.text]⟩

/-- The outcome of a search that nobody cancels. -/
def Prepared.search (p : Prepared) : Outcome Report :=
  (p.index.codebase.search .never p.target).outcome

/-- A time in milliseconds with one decimal. -/
def milliseconds (nanoseconds : Nat) : String :=
  let tenths := (nanoseconds + 50000) / 100000
  toString (tenths / 10) ++ "." ++ toString (tenths % 10) ++ "ms"

/-- The results of a search in a format. -/
def results (format : OutputFormat) (target : MethodId) (r : Report) (nanoseconds : Nat) : String :=
  match format with
  | .text => Table.render r.rows
  | .json => Document.render target r nanoseconds
  | .csv => Csv.render r.rows

/-- What is said when results are written. -/
def resultMessages (c : CallersCommand) (target : MethodId) (r : Report) : List String :=
  match c.format, c.output with
  | .csv, some path =>
    ["[callers] Wrote " ++ toString r.rows.length ++ " row(s) to " ++ path]
  | .text, _ =>
    if r.rows.isEmpty then ["[callers] No callers found for " ++ target.displayName] else []
  | _, _ => []

/-- Writes results to their file or to the stream for them. -/
def deliver (s : Session) (c : CallersCommand) (p : Prepared) (messages : List String)
    (r : Report) (nanoseconds : Nat) : Transcript :=
  let text := results c.format p.target r nanoseconds
  let said := messages ++ resultMessages c p.target r
  match c.output with
  | none => { status := 0, out := text, messages := said, disk := s.disk }
  | some path =>
    match s.disk.write path text with
    | .ok disk => { status := 0, messages := said, disk }
    | .error fault => s.fail messages (.inputOutput fault.message)

/-- **The end of a search** that took some time. -/
def finish (s : Session) (c : CallersCommand) (p : Prepared) (outcome : Outcome Report)
    (nanoseconds : Nat) : Transcript :=
  let messages :=
    p.messages ++ ["[callers] " ++ outcome.message ++ " in " ++ milliseconds nanoseconds]
  match outcome with
  | .finished r => s.deliver c p messages r nanoseconds
  | .cancelled => { status := cancelledStatus, messages, disk := s.disk }
  | .failed why => s.fail messages why

/-- The search for the origins of a method. -/
def callers (s : Session) (c : CallersCommand) (nanoseconds : Nat) : Transcript :=
  match s.prepare c with
  | .error t => t
  | .ok p => s.finish c p p.search nanoseconds

/-! ## Listing methods -/

/-- The line of a method. -/
def methodLine (ix : Index) (d : IndexedMethod) : String :=
  match ix.fileOf? d with
  | none => d.decl.id.text ++ "\n"
  | some f =>
    d.decl.id.text ++ "  " ++ f.source.path ++ ":" ++ toString d.decl.lineStart ++
      (if f.source.external then " [lib]" else "") ++ "\n"

/-- The line on how many methods there are. -/
def countLine (shown all : Nat) : String :=
  if shown < all then
    "[methods] Showing " ++ toString shown ++ " of " ++ toString all ++
      " matches (use --max-results 0 for all)"
  else "[methods] " ++ toString all ++ " match(es)"

/-- The list of the methods with a text in their name. -/
def methods (s : Session) (c : MethodsCommand) : Transcript :=
  match s.openIndex c.index with
  | .error why => s.fail [] why
  | .ok built =>
    let all := built.index.findMethods c.name
    let shown := if c.maxResults == 0 then all else all.take c.maxResults
    { status := 0
      out := String.join (shown.map (methodLine built.index))
      messages := built.log ++ [countLine shown.length all.length]
      disk := s.disk }

/-- **Runs a command line.** `nanoseconds` is the time that a search takes. -/
def run (s : Session) (args : List String) (nanoseconds : Nat) : Transcript :=
  match read? args with
  | none => { status := misusedStatus, disk := s.disk }
  | some (.callers c) => s.callers c nanoseconds
  | some (.methods c) => s.methods c

end Session
end CallOrigins.CommandLine
