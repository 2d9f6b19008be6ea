import CallOrigins.Method

/-!
# The outline of a source file

What is kept of a source file: its package and imports, the types it declares (anonymous
classes included), their methods, and the calls in the bodies of the methods.

Types are numbered in the order in which they are met, an outer type before the types inside
of it. Methods are in the order of their first tokens, calls in the order of a walk that meets
a call before the calls among its receiver and arguments.
-/

namespace CallOrigins.Java

/-- The kinds of types. -/
inductive TypeKind where
  | classType | interfaceType | enumType | recordType | anonymousType
  deriving DecidableEq, Repr

/-- A declared or anonymous type. An anonymous type of base `B` in the type `A` is named
`A$n$B`, where `n` counts the anonymous types directly inside of `A`. -/
structure TypeDecl where
  name : String
  simpleName : String
  kind : TypeKind
  line : Nat
  /-- The number of the type around it. -/
  outer : Option Nat
  /-- The superclass, if there is one, and the interfaces, as written and erased. -/
  supertypes : List String
  deriving DecidableEq, Repr

/-- The kinds of calls. -/
inductive CallKind where
  /-- The call of a method. -/
  | method
  /-- The creation of an object. -/
  | creation
  /-- The call of a constructor of the superclass. -/
  | superConstructor
  /-- The call of another constructor of the class. -/
  | thisConstructor
  /-- A reference to a method or constructor. -/
  | reference
  deriving DecidableEq, Repr

/-- What is known of the object on which a method is called. -/
inductive Receiver where
  /-- None is written, or `this`. -/
  | implicit
  /-- The object as a member of its superclass. -/
  | superclass
  /-- An object of this type, as written and erased, or the type itself. -/
  | typed (name : String)
  /-- Another object. -/
  | unknown
  deriving DecidableEq, Repr

/-- A call in the body of a method. -/
structure Call where
  kind : CallKind
  /-- The name of the method; the simple name of a created type; `new` in a reference to a
  constructor; `this` or `super` in the call of a constructor. -/
  name : String
  receiver : Receiver
  /-- The number of arguments; a reference has none. -/
  argCount : Option Nat
  offset : Nat
  length : Nat
  line : Nat
  deriving DecidableEq, Repr

/-- A method or constructor with the calls in its body. -/
structure MethodDecl where
  id : MethodId
  /-- The number of the declaring type. -/
  type : Nat
  start : Nat
  stop : Nat
  lineStart : Nat
  lineEnd : Nat
  calls : List Call
  deriving DecidableEq, Repr

namespace MethodDecl

/-- Does an offset lie in the method? -/
def contains (m : MethodDecl) (offset : Nat) : Bool :=
  m.start ≤ offset && offset < m.stop

/-- The length of the method in bytes. -/
def span (m : MethodDecl) : Nat :=
  m.stop - m.start

end MethodDecl

/-- The outline of a source file. -/
structure Outline where
  package : String := ""
  /-- Imports of single types. -/
  imports : List String := []
  /-- Packages and types whose members are all imported. -/
  wildcardImports : List String := []
  /-- Imported static members, with their types. -/
  staticImports : List (String × String) := []
  types : Array TypeDecl := #[]
  methods : Array MethodDecl := #[]
  /-- Does the file have a syntax error? -/
  hasErrors : Bool := false
  deriving Repr

end CallOrigins.Java
