import CallOrigins.Disk
import CallOrigins.Ignore.Rules

/-!
# Repositories and the rules around them

A directory with an entry `.git` or `.jj` is the top of a repository. A repository has rules of
its own, in the file `info/exclude` of its directory `.git`; where `.git` is a file, it names the
directory of a working copy, and that one names the directory of the repository.

A user has rules for all repositories. They stand in the file that the setting `excludesfile`
names, in the first of the user's two files of settings that has it, or else in the file
`git/ignore` among the settings of programs.
-/

namespace CallOrigins

open Text Ignore

/-- Where a user keeps files. -/
structure UserPlaces where
  /-- The home directory. -/
  home : Option String := none
  /-- The directory for the settings of programs. -/
  settings : Option String := none
  deriving DecidableEq, Repr

namespace Disk

/-- A file in a directory. -/
def within (dir name : String) : String :=
  Path.join dir name

/-- The rules in a file, given by its canonical path; none where there is no such file. -/
def rulesAt (d : Disk) (path : String) : List Rule :=
  match d.entryAt? path with
  | some (.file bytes) => readRules bytes
  | _ => []

/-- The rules in a file; none where there is no such file. -/
def rulesIn (d : Disk) (path : String) : List Rule :=
  match d.readBytes path with
  | .ok bytes => readRules bytes
  | .error _ => []

/-! ## Repositories -/

/-- **Is a directory the top of a repository?** -/
def isRepository (d : Disk) (dir : String) : Bool :=
  [".git", ".jj"].any (fun name => (d.entryAt? (within dir name)).isSome)

/-- The first line of a file. An empty file has none, and a line that is not UTF-8 is none. -/
def firstLine? (bytes : List UInt8) : Option String :=
  if bytes.isEmpty then none
  else
    match readableLines ((byteLines bytes).take 1) with
    | line :: _ => some (String.ofList line)
    | [] => none

/-- The directory of a working copy, as a file `.git` with these bytes names it. -/
def workingCopy? (bytes : List UInt8) : Option String := do
  let line ← firstLine? bytes
  (dropFront? "gitdir: ".toList line.toList).map String.ofList

/-- The directory of the repository whose working copy has a file `.git` with these bytes. -/
def linkedDir? (d : Disk) (bytes : List UInt8) : Option String := do
  let copy ← workingCopy? bytes
  let common ← firstLine? (← (d.readBytes (within copy "commondir")).toOption)
  some (if startsWith ['.'] common.toList then within copy common else common)

/-- **The rules of a repository**, given by its top. -/
def excludeRules (d : Disk) (dir : String) : List Rule :=
  match d.entryAt? (within dir ".git") with
  | some (.file bytes) =>
    match d.linkedDir? bytes with
    | some linked => d.rulesIn (within linked "info/exclude")
    | none => []
  | _ => d.rulesAt (within dir ".git/info/exclude")

end Disk

/-! ## The rules of a user -/

namespace UserPlaces

/-- Is a byte blank? -/
def isSpace (c : Char) : Bool :=
  c = ' ' || ('\t' ≤ c && c ≤ '\r')

/-- Are there only blanks up to the end of a line? -/
def lineEnds (cs : List Char) : Bool :=
  (cs.takeWhile isSpace).contains '\n' || (cs.dropWhile isSpace).isEmpty

/-- Can a value end here? A quote may follow it. -/
def valueEnds (cs : List Char) : Bool :=
  lineEnds cs ||
    match cs.dropWhile isSpace with
    | '"' :: rest => lineEnds rest
    | _ => false

/-- The shortest value without blanks after which one can end; `taken` is in reverse order. -/
def valueFrom? (taken : List Char) : List Char → Option (List Char)
  | [] => none
  | c :: cs =>
    if isSpace c then none
    else if valueEnds cs then some (c :: taken).reverse
    else valueFrom? (c :: taken) cs

/-- The value of a setting, perhaps between quotes; its name has been read. -/
def value? (cs : List Char) : Option (List Char) :=
  match cs.dropWhile isSpace with
  | '=' :: rest =>
    match rest.dropWhile isSpace with
    | '"' :: rest => valueFrom? [] (rest.dropWhile isSpace) <|> valueFrom? [] ('"' :: rest)
    | rest => valueFrom? [] rest
  | _ => none

/-- The rest after a name in small letters, whatever the case of the text. -/
def afterName? : List Char → List Char → Option (List Char)
  | [], cs => some cs
  | _ :: _, [] => none
  | n :: ns, c :: cs => if c.toLower = n then afterName? ns cs else none

/-- The value of the first setting `excludesfile` that stands at the front of a line, where
`front` is set as long as there were only blanks in the line. -/
def excludesValue? (front : Bool) : List Char → Option (List Char)
  | [] => none
  | c :: cs =>
    let here :=
      if front then (afterName? "excludesfile".toList (c :: cs)).bind value? else none
    match here with
    | some value => some value
    | none => excludesValue? (c = '\n' || (front && isSpace c)) cs

/-- **The file that settings name for rules**; a tilde stands for the home directory. -/
def excludesFile? (u : UserPlaces) (bytes : List UInt8) : Option String := do
  let value ← excludesValue? true (bytes.map (fun b => Char.ofNat b.toNat))
  let text ← Utf8.text? (value.map (fun c => c.toNat.toUInt8))
  match u.home with
  | some home => some (String.ofList (text.toList.flatMap (fun c =>
      if c = '~' then home.toList else [c])))
  | none => some text

/-- The user's files of settings. -/
def settingsFiles (u : UserPlaces) : List String :=
  (u.home.map (Disk.within · ".gitconfig")).toList ++
    (u.settings.map (Disk.within · "git/config")).toList

/-- The file with the user's rules. -/
def rulesFile? (u : UserPlaces) (d : Disk) : Option String :=
  u.settingsFiles.findSome? (fun path =>
    ((d.readBytes path).toOption).bind u.excludesFile?) <|>
  u.settings.map (Disk.within · "git/ignore")

/-- **The rules of a user.** -/
def rules (u : UserPlaces) (d : Disk) : List Rule :=
  match u.rulesFile? d with
  | some path => d.rulesIn path
  | none => []

end UserPlaces
end CallOrigins
