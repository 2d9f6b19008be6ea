import CallOrigins.Text.Cut

/-!
# Paths

A path is a text whose parts are separated by slashes. Paths are joined and shown as they are
written; only when the disk is asked are they made *canonical*: absolute, with empty parts and
the parts `.` and `..` worked off.
-/

namespace CallOrigins.Path

open Text

/-- Is a path absolute? -/
def isAbsolute (p : String) : Bool :=
  startsWith ['/'] p.toList

/-- A path seen from a directory. An absolute path stays what it is; an empty one leaves the
slash after the directory. -/
def join (dir p : String) : String :=
  if isAbsolute p || dir.isEmpty then p
  else if endsWith ['/'] dir.toList then dir ++ p
  else dir ++ "/" ++ p

/-- A path without the mark of an extended length at its front. -/
def clean (p : String) : String :=
  match dropFront? "\\\\?\\".toList p.toList with
  | some rest => String.ofList rest
  | none => p

/-- A path with slashes in place of backslashes. -/
def withSlashes (p : String) : String :=
  String.ofList (p.toList.map (fun c => if c = '\\' then '/' else c))

/-! ## Parts -/

/-- The parts of a path, the empty ones and `.` left out. -/
def parts (p : String) : List String :=
  ((pieces '/' p.toList).map String.ofList).filter (fun s => !s.isEmpty && s != ".")

/-- Goes through parts from a directory, given by its parts in reverse order. -/
def goThrough (dir : List String) : List String → List String
  | [] => dir
  | p :: ps => if p == ".." then goThrough dir.tail ps else goThrough (p :: dir) ps

/-- The absolute path of parts. -/
def ofParts (ps : List String) : String :=
  "/" ++ "/".intercalate ps

/-- The canonical form of an absolute path. -/
def canonical (p : String) : String :=
  ofParts (goThrough [] (parts p)).reverse

/-- The last part. -/
def fileName (p : String) : String :=
  String.ofList (afterLastOf (· == '/') p.toList)

/-- The extension of a file name: what stands after its last point, if that is not its first
character. -/
def extension? (name : String) : Option String :=
  match cutLast '.' name.toList with
  | none => none
  | some (stem, ext) => if stem.isEmpty then none else some (String.ofList ext)

end CallOrigins.Path
