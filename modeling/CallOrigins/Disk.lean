import CallOrigins.Disk.Path
import CallOrigins.Text.Utf8

/-!
# Disks

A disk is a value: the directories and files that there are, by canonical path, and the
directory from which relative paths are seen. Every question to a disk goes through `locate`,
which follows a path part by part and fails where a part leads through something that is not a
directory.

Links, permissions and failing devices are not modelled: a fault is always a fault of the path
that was asked for, or of the bytes that were found.
-/

namespace CallOrigins

open Text

/-- A disk. -/
structure Disk where
  /-- The canonical path of the working directory. -/
  workingDir : String := "/"
  /-- The canonical paths of the directories; the topmost one need not be listed. -/
  dirs : List String := []
  /-- The canonical paths of the files, with their bytes. The first entry of a path counts. -/
  files : List (String × List UInt8) := []
  deriving Repr

/-- Why a disk refuses. -/
inductive DiskFault where
  | notFound
  | notDirectory
  | isDirectory
  | notUtf8
  deriving DecidableEq, Repr

/-- The wording of a fault. -/
def DiskFault.message : DiskFault → String
  | notFound => "No such file or directory (os error 2)"
  | notDirectory => "Not a directory (os error 20)"
  | isDirectory => "Is a directory (os error 21)"
  | notUtf8 => "stream did not contain valid UTF-8"

/-- What can stand at a path. -/
inductive DiskEntry where
  | directory
  | file (bytes : List UInt8)
  deriving Repr

namespace Disk

/-- What stands at a canonical path. -/
def entryAt? (d : Disk) (path : String) : Option DiskEntry :=
  match d.files.lookup path with
  | some bytes => some (.file bytes)
  | none => if path == "/" || d.dirs.contains path then some .directory else none

/-- Goes through parts from a directory, given by its parts in reverse order. Only from a
directory can one go on. -/
def follow (d : Disk) (here : List String) : List String → Except DiskFault (List String)
  | [] => .ok here
  | p :: ps =>
    match d.entryAt? (Path.ofParts here.reverse) with
    | none => .error .notFound
    | some (.file _) => .error .notDirectory
    | some .directory => if p == ".." then d.follow here.tail ps else d.follow (p :: here) ps

/-- **The canonical path that a path leads to**, whether or not something stands there. -/
def locate (d : Disk) (path : String) : Except DiskFault String :=
  if path.isEmpty then .error .notFound
  else
    (d.follow [] (Path.parts (Path.join d.workingDir path))).map
      (fun here => Path.ofParts here.reverse)

/-- What a path leads to. With a slash at its end it must lead to a directory. -/
def entry (d : Disk) (path : String) : Except DiskFault DiskEntry := do
  let place ← d.locate path
  match d.entryAt? place with
  | none => .error .notFound
  | some (.file bytes) =>
    if endsWith ['/'] path.toList then .error .notDirectory else .ok (.file bytes)
  | some .directory => .ok .directory

/-- Does a path lead to anything? -/
def hasEntry (d : Disk) (path : String) : Bool :=
  (d.entry path).isOk

/-- Does a path lead to a file? -/
def isFile (d : Disk) (path : String) : Bool :=
  match d.entry path with
  | .ok (.file _) => true
  | _ => false

/-- The bytes of a file. -/
def readBytes (d : Disk) (path : String) : Except DiskFault (List UInt8) := do
  match ← d.entry path with
  | .file bytes => .ok bytes
  | .directory => .error .isDirectory

/-- **The text of a file**, which must be UTF-8. -/
def readText (d : Disk) (path : String) : Except DiskFault String := do
  match Utf8.text? (← d.readBytes path) with
  | some text => .ok text
  | none => .error .notUtf8

/-- A text that was read although its bytes may not be UTF-8. -/
structure LossyText where
  content : String
  /-- Were there bytes that had to be replaced? -/
  lossy : Bool
  deriving DecidableEq, Repr

/-- **The text of a file**, whatever its bytes. -/
def readLossy (d : Disk) (path : String) : Except DiskFault LossyText :=
  (d.readBytes path).map (fun bytes => ⟨Utf8.textLossy bytes, Utf8.isFaulty bytes⟩)

/-- **Writes a file**, in place of the one that stands there. -/
def write (d : Disk) (path text : String) : Except DiskFault Disk := do
  let place ← d.locate path
  match d.entryAt? place with
  | some .directory => .error .isDirectory
  | _ =>
    if endsWith ['/'] path.toList then .error .isDirectory
    else .ok { d with files := (place, Utf8.bytes text) :: d.files }

/-! ## Setting a disk up -/

/-- The directories above a canonical path, from the topmost one on. -/
def dirsAbove (path : String) : List String :=
  let ps := Path.parts path
  (List.range ps.length).map (fun n => Path.ofParts (ps.take n))

/-- Adds a directory and those above it. -/
def addDir (d : Disk) (path : String) : Disk :=
  { d with dirs := d.dirs ++ dirsAbove path ++ [path] }

/-- Adds a file and the directories above it. -/
def addFile (d : Disk) (path : String) (bytes : List UInt8) : Disk :=
  { d with dirs := d.dirs ++ dirsAbove path, files := (path, bytes) :: d.files }

end Disk
end CallOrigins
