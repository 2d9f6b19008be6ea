import CallOrigins.CommandLine.Run

/-!
# The program

The outermost layer: it takes the part of the file system that a command asks about as a disk,
runs the command on it, and writes what the transcript says.
-/

namespace CallOrigins.Main

open CommandLine Java

/-! ## Taking files -/

/-- Does a directory stand at a path? -/
def isDirectory (place : String) : IO Bool := do
  try
    (← IO.FS.realPath place).isDir
  catch _ =>
    return false

/-- Takes a file, if there is one at a canonical path. -/
def takeFileAt (d : Disk) (place : String) : IO Disk := do
  try
    let bytes ← IO.FS.readBinFile place
    return d.addFile place bytes.toList
  catch _ =>
    return d

/-- Takes the directories on the way to a path, and the path itself if it is one. -/
def takeWay (d : Disk) (path : String) : IO Disk := do
  let parts := Path.parts (Path.join d.workingDir path)
  let mut d := d
  for n in List.range (parts.length + 1) do
    let place := Path.canonical (Path.ofParts (parts.take n))
    if ← isDirectory place then
      d := d.addDir place
  return d

/-- Takes a file and the directories on the way to it. -/
def takeFile (d : Disk) (path : String) : IO Disk := do
  takeFileAt (← takeWay d path) (Path.canonical (Path.join d.workingDir path))

/-- Takes the rules of the repository that a file `.git` leads to. -/
def takeLinkedRules (d : Disk) (dir : String) : IO Disk := do
  let mut d := d
  match d.entryAt? (Disk.within dir ".git") with
  | some (.file bytes) =>
    for copy in (Disk.workingCopy? bytes).toList do
      d ← takeFile d (Disk.within copy "commondir")
    for linked in (d.linkedDir? bytes).toList do
      d ← takeFile d (Disk.within linked "info/exclude")
  | _ => pure ()
  return d

/-- Takes the ignore rules of a directory. -/
def takeRules (d : Disk) (dir : String) : IO Disk := do
  let mut d := d
  for name in [".ignore", ".gitignore", ".jj", ".git", ".git/info/exclude"] do
    let place := Path.join dir name
    if ← isDirectory place then
      d := d.addDir place
    else
      d ← takeFileAt d place
  takeLinkedRules d dir

/-- Takes the Java files and the ignore rules below a directory. -/
partial def takeTree (d : Disk) (dir : String) : IO Disk := do
  let mut d ← takeRules (d.addDir dir) dir
  for e in ← (← IO.FS.realPath dir).readDir do
    let place := Path.join dir e.fileName
    if (← e.path.symlinkMetadata).type == .dir then
      if e.fileName != ".git" && e.fileName != ".jj" then
        d ← takeTree d place
    else if IndexPlan.isJavaPath e.fileName then
      d ← takeFileAt d place
  return d

/-- Takes what is below a root, and the ignore rules above it. -/
def takeRoot (d : Disk) (root : String) : IO Disk := do
  let place := Path.canonical (Path.join d.workingDir root)
  let mut d ← takeWay d root
  if ← isDirectory place then
    d ← takeTree d place
  else
    d ← takeFileAt d place
  for dir in Disk.dirsAbove place do
    d ← takeRules d dir
  return d

/-- Takes the rules of the user. -/
def takeUserRules (d : Disk) (user : UserPlaces) : IO Disk := do
  let mut d := d
  for path in user.settingsFiles do
    d ← takeFile d path
  for path in (user.rulesFile? d).toList do
    d ← takeFile d path
  return d

/-! ## Running -/

/-- The directory for the settings of programs. -/
def findUserDir : IO (Option String) := do
  match ← IO.getEnv "XDG_CONFIG_HOME" with
  | some dir => if Path.isAbsolute dir then return some dir else findInHome
  | none => findInHome
where
  findInHome : IO (Option String) := do
    return (← IO.getEnv "HOME").map (fun home => Path.join home ".config")

/-- How many cores there are taken to be. -/
def cores : Nat := 4

/-- A session with all the files that a command asks about. -/
def openSession (o : IndexOptions) (output : Option String) : IO Session := do
  let userDir ← findUserDir
  let mut d : Disk := { workingDir := (← IO.currentDir).toString }
  d ← takeWay d "."
  for path in o.config.toList ++ [Path.join o.dir Settings.projectFile] ++
      (userDir.map Settings.userFile).toList do
    d ← takeFile d path
  let home ← IO.getEnv "HOME"
  d ← takeUserRules d ⟨home, userDir⟩
  match Session.plan ⟨d, userDir, cores, home⟩ o with
  | .error _ => pure ()
  | .ok plan =>
    for (root, _) in plan.roots do
      d ← takeRoot d root
  for path in output.toList do
    d ← takeWay d path
  return ⟨d, userDir, cores, home⟩

/-- Writes what a transcript says. -/
def publish (t : Transcript) (output : Option String) : IO UInt32 := do
  for line in t.messages do
    IO.eprintln line
  if t.status == 0 then
    for path in output.toList do
      match t.disk.readText path with
      | .ok text => IO.FS.writeFile path text
      | .error _ => pure ()
  IO.print t.out
  return t.status.toUInt32

/-- Searches for origins and measures the time that it takes. -/
def runCallers (c : CallersCommand) : IO UInt32 := do
  let s ← openSession c.index c.output
  match s.prepare c with
  | .error t => publish t none
  | .ok p =>
    let start ← IO.monoNanosNow
    let outcome := p.search
    let said := outcome.message
    let stop ← if said.isEmpty then pure start else IO.monoNanosNow
    publish (s.finish c p outcome (stop - start)) c.output

/-- Lists methods. -/
def runMethods (c : MethodsCommand) : IO UInt32 := do
  let s ← openSession c.index none
  publish (s.methods c) none

end CallOrigins.Main

/-- **The program.** -/
def main (args : List String) : IO UInt32 := do
  match CallOrigins.CommandLine.read? args with
  | some (.callers c) => CallOrigins.Main.runCallers c
  | some (.methods c) => CallOrigins.Main.runMethods c
  | none =>
    IO.eprintln "usage: callers <TARGET> [OPTIONS] | methods <NAME> [OPTIONS]"
    return CallOrigins.CommandLine.misusedStatus.toUInt32
