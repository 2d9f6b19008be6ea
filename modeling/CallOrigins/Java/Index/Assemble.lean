import CallOrigins.Java.Index.Resolve

/-!
# Assembling an index

Source files are merged one after the other. A method whose identifier is taken is left out.
When all files are merged, the supertypes of every type are resolved, each of them as if no
supertype of another one were known.
-/

namespace CallOrigins.Java.Index

/-- The type of an outline as a type of the index: `base` types are there already. -/
def shiftType (file base : Nat) (t : TypeDecl) : IndexedType :=
  { decl := { t with outer := t.outer.map (· + base) }, file }

/-- The method of an outline as a method of the index. -/
def shiftMethod (file base : Nat) (m : MethodDecl) : IndexedMethod :=
  { decl := { m with type := m.type + base }, file }

/-- Adds a method, unless its identifier is taken. -/
def addMethod (ix : Index) (d : IndexedMethod) : Index :=
  if ix.methods.any (fun e => e.decl.id == d.decl.id) then
    { ix with duplicates := ix.duplicates + 1 }
  else ix.replace ix.files ix.types (ix.methods.push d)

/-- Adds a file with its types and methods. -/
def addFile (ix : Index) (f : SourceFile) : Index :=
  let file := ix.files.size
  let base := ix.types.size
  let withTypes :=
    ix.replace (ix.files.push f) (ix.types ++ f.outline.types.map (shiftType file base)) ix.methods
  (f.outline.methods.toList.map (shiftMethod file base)).foldl addMethod withTypes

/-- Resolves the supertypes of all types at once. -/
def linkSupers (ix : Index) : Index :=
  ix.withSupers ix.resolvedSupers

/-- The index of source files. -/
def ofFiles (fs : List SourceFile) : Index :=
  (fs.foldl addFile {}).linkSupers

/-- **The index of sources.** -/
def ofSources (sources : List Source) : Index :=
  ofFiles (sources.map SourceFile.read)

end CallOrigins.Java.Index
