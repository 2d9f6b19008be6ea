import CallOrigins.Java.Index.Lookups

/-!
# The index of a set of sources

An index holds the types and methods of many source files. Types, methods and files are
numbered; a type or method knows the number of its file, and the numbers inside of an outline
are shifted to numbers of the index.

The look-ups of this module are the only ways in which the rest of the library finds a type,
method or call by name. They read the tables, which an index carries with the proof that they are
those of its types and methods.
-/

namespace CallOrigins.Java

/-- The index of a set of sources. -/
structure Index where
  files : Array SourceFile := #[]
  types : Array IndexedType := #[]
  methods : Array IndexedMethod := #[]
  /-- The tables of these types and methods. -/
  lookups : Lookups.Filled files.size types methods := .lazily
  /-- The number of methods that were left out because their identifier was taken. -/
  duplicates : Nat := 0
  /-- The number of files that could not be read. -/
  readErrors : Nat := 0
  /-- The number of files with bytes that are not UTF-8. -/
  lossyFiles : Nat := 0

namespace Index

/-! ## Changes -/

/-- The index with other files, types and methods. -/
def replace (ix : Index) (files : Array SourceFile) (types : Array IndexedType)
    (methods : Array IndexedMethod) : Index :=
  { ix with
    files
    types
    methods
    lookups := .lazily }

/-- The index with other supertypes. The tables stay, as they do not tell supertypes. -/
def withSupers (ix : Index) (supers : IndexedType → List Nat) : Index :=
  { ix with
    types := ix.types.map (fun t => { t with supers := supers t })
    lookups := ix.lookups.withSupers supers }

/-- The tables. -/
def tables (ix : Index) : Lookups :=
  ix.lookups.tables.get

/-! ## Types -/

/-- The number of the type with a qualified name. -/
def typeNamed? (ix : Index) (name : String) : Option Nat :=
  ix.tables.typeByName[name]?

/-- The supertypes of a type, by number. -/
def supersOf (ix : Index) (type : Nat) : List Nat :=
  match ix.types[type]? with
  | some t => t.supers
  | none => []

/-- The chain of a type and the types around it, as far as `fuel` goes. -/
def outward (ix : Index) : Nat → Nat → List Nat
  | 0, _ => []
  | fuel + 1, type =>
    type ::
      match ix.types[type]?.bind (fun t => t.decl.outer) with
      | some outer => outward ix fuel outer
      | none => []

/-- **A type and the types around it**, from the inside outward. The type around another one
has a smaller number. -/
def enclosingTypes (ix : Index) (type : Nat) : List Nat :=
  ix.outward (type + 1) type

/-! ## Methods -/

/-- The number of the method with an identifier. -/
def methodNumber? (ix : Index) (m : MethodId) : Option Nat :=
  ix.tables.methodById[m]?

/-- The method with an identifier. -/
def method? (ix : Index) (m : MethodId) : Option IndexedMethod :=
  (ix.methodNumber? m).bind (fun i => ix.methods[i]?)

/-- The methods of a type with a name. -/
def members (ix : Index) (type : Nat) (name : String) : List Nat :=
  (ix.tables.members.getD (type, name) #[]).toList

/-- The methods with a name. -/
def methodsNamed (ix : Index) (name : String) : List Nat :=
  (ix.tables.methodsByName.getD name #[]).toList

/-- The methods in a file. -/
def methodsIn (ix : Index) (file : Nat) : List IndexedMethod :=
  (ix.tables.methodsByFile.getD file #[]).toList.filterMap (fun i => ix.methods[i]?)

/-- The calls of all methods under a name. -/
def sitesNamed (ix : Index) (name : String) : List Site :=
  (ix.tables.callsByName.getD name #[]).toList

/-! ## Files -/

/-- The file of a method. -/
def fileOf? (ix : Index) (d : IndexedMethod) : Option SourceFile :=
  ix.files[d.file]?

/-- The number of the file with a path, the last one where several have it. -/
def fileNumber? (ix : Index) (path : String) : Option Nat :=
  (List.range ix.files.size).reverse.find?
    (fun i => ix.files[i]?.any (fun f => f.source.path == path))

/-! ## Statistics -/

/-- The number of external files. -/
def externalFiles (ix : Index) : Nat :=
  (ix.files.toList.filter (fun f => f.source.external)).length

/-- The number of files with syntax errors. -/
def faultyFiles (ix : Index) : Nat :=
  (ix.files.toList.filter (fun f => f.outline.hasErrors)).length

/-- The number of calls in all the methods. -/
def callCount (ix : Index) : Nat :=
  (ix.methods.toList.map (fun d => d.decl.calls.length)).foldr (· + ·) 0

end Index
end CallOrigins.Java
