import CallOrigins.Java.Source

/-!
# The tables of an index

Types, methods and files of an index are numbered, and what is sought by name is found in tables.
They are filled in one pass through the types and one through the methods. Where several types have
one name the first of them is kept; where several methods have one identifier, the last.
-/

namespace CallOrigins.Java

/-- A type of the index. -/
structure IndexedType where
  decl : TypeDecl
  /-- The number of its file. -/
  file : Nat
  /-- The numbers of those of its supertypes that are in the index. -/
  supers : List Nat := []
  deriving DecidableEq, Repr

/-- A method of the index. -/
structure IndexedMethod where
  decl : MethodDecl
  /-- The number of its file. -/
  file : Nat
  deriving DecidableEq, Repr

namespace Index

/-- A call, by the number of its method and its place among the calls of that method. -/
structure Site where
  method : Nat
  place : Nat
  deriving DecidableEq, Repr

end Index

/-- The tables of an index. -/
structure Lookups where
  typeByName : Std.TreeMap String Nat := {}
  methodById : Std.TreeMap MethodId Nat := {}
  /-- The methods of a type, by its number and their name. -/
  members : Std.TreeMap (Nat × String) (Array Nat) lexOrd.compare := {}
  methodsByName : Std.TreeMap String (Array Nat) := {}
  methodsByFile : Array (Array Nat) := #[]
  callsByName : Std.TreeMap String (Array Index.Site) := {}

namespace Lookups

/-- Enters something under a key, after what is there. -/
def push {κ α : Type} {cmp : κ → κ → Ordering} (table : Std.TreeMap κ (Array α) cmp) (key : κ)
    (a : α) : Std.TreeMap κ (Array α) cmp :=
  table.insert key ((table.getD key #[]).push a)

/-- Enters a type, unless its name is taken. -/
def addType (l : Lookups) (t : IndexedType) (number : Nat) : Lookups :=
  { l with typeByName := l.typeByName.insertIfNew t.decl.name number }

/-- Enters a call. -/
def addCall (l : Lookups) (c : Call) (s : Index.Site) : Lookups :=
  { l with callsByName := push l.callsByName c.name s }

/-- Enters a method and its calls. -/
def addMethod (l : Lookups) (d : IndexedMethod) (number : Nat) : Lookups :=
  let entered :=
    { l with
      methodById := l.methodById.insert d.decl.id number
      members := push l.members (d.decl.type, d.decl.id.name) number
      methodsByName := push l.methodsByName d.decl.id.name number
      methodsByFile := l.methodsByFile.modify d.file (fun ms => ms.push number) }
  d.decl.calls.zipIdx.foldl (fun l c => l.addCall c.1 ⟨number, c.2⟩) entered

/-- **The tables of types and methods** in so many files. -/
def build (files : Nat) (types : Array IndexedType) (methods : Array IndexedMethod) : Lookups :=
  let withTypes : Lookups := types.toList.zipIdx.foldl (fun l t => l.addType t.1 t.2) {}
  methods.toList.zipIdx.foldl (fun l d => l.addMethod d.1 d.2)
    { withTypes with methodsByFile := Array.replicate files #[] }

/-- The supertypes of types make no difference to the tables. -/
theorem build_withSupers (files : Nat) (types : Array IndexedType)
    (methods : Array IndexedMethod) (supers : IndexedType → List Nat) :
    build files (types.map (fun t => { t with supers := supers t })) methods =
      build files types methods := by
  unfold build
  rw [Array.toList_map, List.zipIdx_map, List.foldl_map]
  rfl

/-- The tables of types and methods in so many files, filled when one of them is first looked
into. -/
structure Filled (files : Nat) (types : Array IndexedType) (methods : Array IndexedMethod) where
  tables : Thunk Lookups
  get_eq : tables.get = build files types methods

variable {files : Nat} {types : Array IndexedType} {methods : Array IndexedMethod}

/-- Tables that are still to be filled. -/
def Filled.lazily : Filled files types methods :=
  ⟨⟨fun _ => build files types methods⟩, rfl⟩

/-- The same tables, for types that differ in their supertypes only. -/
def Filled.withSupers (l : Filled files types methods) (supers : IndexedType → List Nat) :
    Filled files (types.map (fun t => { t with supers := supers t })) methods :=
  ⟨l.tables, l.get_eq.trans (build_withSupers ..).symm⟩

end Lookups
end CallOrigins.Java
