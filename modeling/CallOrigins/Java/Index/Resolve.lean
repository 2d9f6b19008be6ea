import CallOrigins.BreadthFirst
import CallOrigins.Java.Index

/-!
# Names and hierarchies

What a type name means at a place in a source file, and which methods a type has from its
supertypes. A name that means a type outside of the index has no meaning here.
-/

namespace CallOrigins.Java.Index

open Text

/-! ## Type names -/

/-- The type `simple` inside of the type with a number. -/
def memberType? (ix : Index) (type : Nat) (simple : String) : Option Nat :=
  match ix.types[type]? with
  | some t => ix.typeNamed? (t.decl.name ++ "." ++ simple)
  | none => none

/-- Does the type with a number have this simple name? Anonymous types have none. -/
def isCalled (ix : Index) (type : Nat) (simple : String) : Bool :=
  match ix.types[type]? with
  | some t => t.decl.kind != .anonymousType && t.decl.simpleName == simple
  | none => false

/-- All the supertypes of some types, with these types themselves, the nearest first. -/
def hierarchy (ix : Index) (starts : List Nat) : List Nat :=
  breadthFirst ix.types.size ix.supersOf starts

/-- The type `simple` inside of a supertype of the type with a number. -/
def inheritedType? (ix : Index) (type : Nat) (simple : String) : Option Nat :=
  (ix.hierarchy (ix.supersOf type)).findSome? (fun t => ix.memberType? t simple)

/-- What a simple name means directly inside of the type with a number: the type itself, a type
inside of it, or a type inside of a supertype. -/
def typeInScope? (ix : Index) (simple : String) (scope : Nat) : Option Nat :=
  if ix.isCalled scope simple then some scope
  else
    match ix.memberType? scope simple with
    | some t => some t
    | none => ix.inheritedType? scope simple

/-- What a simple name means outside of all types of a file: an imported type, a type of the
package, or a type of a package that is imported as a whole. A single import hides the others,
even where it means no type of the index. -/
def typeInFile? (ix : Index) (o : Outline) (simple : String) : Option Nat :=
  match o.imports.find? (fun i => endsWith ('.' :: simple.toList) i.toList) with
  | some i => ix.typeNamed? i
  | none =>
    let inPackage := if o.package.isEmpty then simple else o.package ++ "." ++ simple
    match ix.typeNamed? inPackage with
    | some t => some t
    | none => o.wildcardImports.findSome? (fun w => ix.typeNamed? (w ++ "." ++ simple))

/-- **The meaning of a simple type name** in a file, seen from inside of a type. -/
def resolveSimple? (ix : Index) (simple : String) (file : Nat) (scope : Option Nat) :
    Option Nat :=
  let scopes :=
    match scope with
    | some s => ix.enclosingTypes s
    | none => []
  match scopes.findSome? (ix.typeInScope? simple) with
  | some t => some t
  | none =>
    match ix.files[file]? with
    | some f => ix.typeInFile? f.outline simple
    | none => none

/-- The meaning of a name whose first part is `head` and whose other parts are `rest`. -/
def resolveParts? (ix : Index) (head : String) (rest : Option String) (file : Nat)
    (scope : Option Nat) : Option Nat :=
  match ix.resolveSimple? head file scope with
  | none => none
  | some t =>
    match rest with
    | none => some t
    | some r => ix.memberType? t r

/-- **The meaning of a type name** in a file, seen from inside of a type. A name with points may
be a qualified name; else its first part is a simple name, and the others lead inward. -/
def resolveType? (ix : Index) (name : String) (file : Nat) (scope : Option Nat) : Option Nat :=
  match cutFirst '.' name.toList with
  | none => ix.resolveParts? name none file scope
  | some (head, rest) =>
    match ix.typeNamed? name with
    | some t => some t
    | none => ix.resolveParts? (String.ofList head) (some (String.ofList rest)) file scope

/-- What the supertypes of a type mean. -/
def resolvedSupers (ix : Index) (t : IndexedType) : List Nat :=
  t.decl.supertypes.filterMap (fun s => ix.resolveType? s t.file t.decl.outer)

/-- Is the type with a number an interface? -/
def isInterface (ix : Index) (type : Nat) : Bool :=
  match ix.types[type]? with
  | some t => t.decl.kind == .interfaceType
  | none => false

/-- **The superclass of a class**: what its first supertype means, unless that is an
interface. -/
def superclass? (ix : Index) (type : Nat) : Option Nat :=
  match ix.types[type]? with
  | none => none
  | some t =>
    if t.decl.kind = .interfaceType then none
    else
      match t.decl.supertypes with
      | [] => none
      | s :: _ =>
        match ix.resolveType? s t.file t.decl.outer with
        | none => none
        | some u => if ix.isInterface u then none else some u

/-! ## Methods of a hierarchy -/

/-- Does the method with a number accept this number of arguments? Every method does where no
number is given. -/
def accepts (ix : Index) (arity : Option Nat) (method : Nat) : Bool :=
  match arity, ix.methods[method]? with
  | none, _ => true
  | some n, some d => d.decl.id.acceptsArity n
  | some _, none => false

/-- The methods of a type with a name that accept a number of arguments. -/
def declaredMethods (ix : Index) (type : Nat) (name : String) (arity : Option Nat) : List Nat :=
  (ix.members type name).filter (ix.accepts arity)

/-- **The methods that a call on some types can mean**: those of the nearest type that declares
any. -/
def inheritedMethods (ix : Index) (starts : List Nat) (name : String) (arity : Option Nat) :
    List Nat :=
  ((ix.hierarchy starts).map (fun t => ix.declaredMethods t name arity)).find?
    (fun ms => !ms.isEmpty) |>.getD []

end CallOrigins.Java.Index
