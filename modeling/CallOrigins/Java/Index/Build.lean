import CallOrigins.Java.Index.Assemble
import CallOrigins.Java.Index.Plan

/-!
# Building an index from a disk

The roots of a plan are gone through one after the other; a file that several of them give is
taken once, as the first of them gave it. The files are sorted by path, dealt out in chunks to
workers, read, and merged in the order of the chunks. How many workers there are makes no
difference to the index.
-/

namespace CallOrigins.Java

open Text

/-- A file that was found. -/
structure FoundFile where
  path : String
  external : Bool
  deriving DecidableEq, Repr

/-- The files that a root gives, and whether it holds library code. -/
structure Listing where
  external : Bool
  paths : List String
  deriving DecidableEq, Repr

namespace IndexPlan

/-! ## Finding files -/

/-- Is a path that of a Java file? -/
def isJavaPath (path : String) : Bool :=
  (Path.extension? (Path.fileName path)).any
    (fun ext => ext.toList.map Char.toLower == "java".toList)

/-- The Java files that are seen from a root. -/
def listing (plan : IndexPlan) (d : Disk) (root : String) (external : Bool) :
    Except Failure Listing :=
  match d.entry root, d.locate root with
  | .ok _, .ok place =>
    .ok ⟨external, ((d.filesBelow plan.walk place).filter isJavaPath).map Path.clean⟩
  | _, _ => .error (.inputOutput ("Source root not found: " ++ root))

/-- What all the roots give. -/
def listings (plan : IndexPlan) (d : Disk) : Except Failure (List Listing) :=
  plan.roots.mapM (fun (root, external) => plan.listing d root external)

/-- Adds a path, unless it is there already. -/
def addPath (plan : IndexPlan) (external : Bool) (found : List FoundFile) (path : String) :
    List FoundFile :=
  if found.any (fun f => f.path == path) then found
  else found ++ [⟨path, external || plan.isLibraryPath path⟩]

/-- Adds the paths of a root. -/
def addListing (plan : IndexPlan) (found : List FoundFile) (l : Listing) : List FoundFile :=
  l.paths.foldl (plan.addPath l.external) found

/-- **The files of a plan**, sorted by path. -/
def files (plan : IndexPlan) (ls : List Listing) : List FoundFile :=
  (ls.foldl plan.addListing []).mergeSort (fun a b => decide (a.path ≤ b.path))

end IndexPlan

/-! ## Reading files -/

/-- A list in chunks of a size, the last one perhaps smaller. A size of zero counts as one. -/
def chunks {α : Type} (size : Nat) : List α → List (List α)
  | [] => []
  | a :: as => (a :: as.take (size - 1)) :: chunks size (as.drop (size - 1))
termination_by as => as.length
decreasing_by simp only [List.length_drop, List.length_cons]; omega

/-- The size of the chunks of so many files for so many workers. -/
def chunkSize (total workers : Nat) : Nat :=
  max 1 ((total + workers - 1) / workers)

/-- What a worker has read. -/
structure Batch where
  files : List (SourceFile × Bool) := []
  readErrors : Nat := 0

/-- How a file is read; `none` where that fails. -/
abbrev FileReader := String → Option Disk.LossyText

/-- Reads a file. -/
def Batch.add (read : FileReader) (b : Batch) (f : FoundFile) : Batch :=
  match read f.path with
  | none => { b with readErrors := b.readErrors + 1 }
  | some t =>
    { b with files := b.files ++ [(SourceFile.read ⟨f.path, t.content, f.external⟩, t.lossy)] }

/-- **The work of one worker.** -/
def Batch.ofFiles (read : FileReader) (fs : List FoundFile) : Batch :=
  fs.foldl (Batch.add read) {}

namespace Index

/-- The index of what workers have read. -/
def ofBatches (bs : List Batch) : Index :=
  let files := bs.flatMap Batch.files
  { ofFiles (files.map Prod.fst) with
    readErrors := (bs.map Batch.readErrors).foldr (· + ·) 0
    lossyFiles := (files.filter Prod.snd).length }

/-- **The index of files**, read by so many workers. -/
def load (read : FileReader) (workers : Nat) (fs : List FoundFile) : Index :=
  ofBatches ((chunks (chunkSize fs.length workers) fs).map (Batch.ofFiles read))

end Index

/-! ## Building -/

/-- An index, and what is said while it is made. -/
structure BuiltIndex where
  index : Index
  log : List String

/-- The line on the files that were found. -/
def foundLine (fs : List FoundFile) : String :=
  "[index] Found " ++ toString fs.length ++ " Java files (" ++
    toString (fs.filter FoundFile.external).length ++ " external)"

/-- The line on a file whose bytes were not UTF-8. -/
def lossyLine (path : String) : String :=
  "[index] WARNING: file contains non-UTF8 bytes (lossy conversion applied): " ++ path

/-- The line on what is in an index. -/
def extractedLine (ix : Index) : String :=
  "[index] Extracted " ++ toString ix.types.size ++ " types, " ++ toString ix.methods.size ++
    " methods, " ++ toString ix.callCount ++ " call sites"

namespace IndexPlan

/-- The number of workers on a machine with so many cores. -/
def workers (plan : IndexPlan) (cores : Nat) : Nat :=
  if plan.threads == 0 then cores else plan.threads

/-- How the files on a disk are read. -/
def reader (d : Disk) : FileReader := fun path =>
  (d.readLossy path).toOption

/-- **Builds the index of a plan.** -/
def build (plan : IndexPlan) (cores : Nat) (d : Disk) : Except Failure BuiltIndex := do
  let fs := plan.files (← plan.listings d)
  let index := Index.load (reader d) (plan.workers cores) fs
  let lossy := fs.filter (fun f => (reader d f.path).any Disk.LossyText.lossy)
  return ⟨index, [foundLine fs] ++ lossy.map (fun f => lossyLine f.path) ++ [extractedLine index]⟩

end IndexPlan
end CallOrigins.Java
