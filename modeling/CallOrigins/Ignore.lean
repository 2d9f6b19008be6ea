import CallOrigins.Ignore.Repository

/-!
# Visible files

Which files below a root are seen. An entry is skipped where the rules ignore it, or where they
say nothing and its name starts with a point; a file is seen if neither it nor a directory
between it and the root is skipped. The root itself is never skipped.

Rules stand in the files `.ignore` and `.gitignore` of the directories above an entry, also of
those above the root, in the repository, and among the files of the user. Nearer files come
first; all of the first kind come before those of the second, these before those of the third,
and the last kind comes last. All but the first kind count only inside of a repository, and the
second and third no further up than the nearest one.
-/

namespace CallOrigins

open Ignore

/-- How the files below a root are gone through. -/
structure WalkOptions where
  /-- Are hidden files wanted? -/
  hidden : Bool := false
  /-- Are the rules not to be followed? -/
  noIgnore : Bool := false
  /-- Where the user keeps files. -/
  user : UserPlaces := {}
  deriving DecidableEq, Repr

namespace Disk

/-- The directories above an entry, given by its parts, from the nearest one on, each with the
parts that lead from there to the entry. -/
def levels (parts : List String) : List (String × String) :=
  (List.range parts.length).reverse.map
    (fun n => (Path.ofParts (parts.take n), "/".intercalate (parts.drop n)))

/-- The levels up to the nearest one that is a repository; none at all without one. -/
def repositoryLevels (d : Disk) : List (String × String) → List (String × String)
  | [] => []
  | level :: rest =>
    if d.isRepository level.1 then [level]
    else
      match d.repositoryLevels rest with
      | [] => []
      | inside => level :: inside

/-- What the rules of directories say of an entry: the first verdict along the levels. -/
def verdictOf? (rulesOf : String → List Rule) (isDir : Bool) (levels : List (String × String)) :
    Option Verdict :=
  levels.findSome? (fun (dir, path) => verdict? (rulesOf dir) path isDir)

/-- The path of an entry, given by its parts, as it is seen from a directory; the absolute path
where it is not below it. -/
def seenFrom (dir : String) (parts : List String) : String :=
  let above := Path.parts dir
  if above.isPrefixOf parts then "/".intercalate (parts.drop above.length)
  else Path.ofParts parts

/-- What the rules of the user say of an entry, given by its parts. They are seen from the working
directory. -/
def userVerdict? (d : Disk) (user : UserPlaces) (parts : List String) (isDir : Bool) :
    Option Verdict :=
  verdict? (user.rules d) (seenFrom d.workingDir parts) isDir

/-- **What the rules say of an entry**, given by its parts. -/
def ruling? (d : Disk) (user : UserPlaces) (parts : List String) (isDir : Bool) :
    Option Verdict :=
  let all := levels parts
  let inside := d.repositoryLevels all
  verdictOf? (fun dir => d.rulesAt (within dir ".ignore")) isDir all <|>
    verdictOf? (fun dir => d.rulesAt (within dir ".gitignore")) isDir inside <|>
    verdictOf? d.excludeRules isDir inside <|>
    if inside.isEmpty then none else d.userVerdict? user parts isDir

/-- Is a name hidden? -/
def isHiddenName (name : String) : Bool :=
  name.toList.head? == some '.'

/-- Is an entry skipped? -/
def isSkipped (d : Disk) (options : WalkOptions) (parts : List String) (isDir : Bool) : Bool :=
  match if options.noIgnore then none else d.ruling? options.user parts isDir with
  | some .ignored => true
  | some .kept => false
  | none => !options.hidden && parts.getLast?.any isHiddenName

/-- Is the file at a path seen from a root, both of them given by their parts? The paths on the
way are those with at least one part more than the root. -/
def isSeen (d : Disk) (options : WalkOptions) (root parts : List String) : Bool :=
  root.isPrefixOf parts &&
    (List.range parts.length).all (fun n =>
      n < root.length || !d.isSkipped options (parts.take (n + 1)) (n + 1 < parts.length))

/-- **The files that are seen from a root**, given by its canonical path. -/
def filesBelow (d : Disk) (options : WalkOptions) (root : String) : List String :=
  let rootParts := Path.parts root
  (d.files.map Prod.fst).eraseDups.filter
    (fun path => d.isSeen options rootParts (Path.parts path))

end Disk
end CallOrigins
