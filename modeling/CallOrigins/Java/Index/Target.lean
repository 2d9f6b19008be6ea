import CallOrigins.Failure
import CallOrigins.Java.Index

/-!
# Finding methods by name

A user names a method as `Type#name` or `Type#name(Param,Param)`, where the type may be
qualified or not. Another way is to search for all methods whose name contains a text.
-/

namespace CallOrigins.Java

open Text

/-- Why a text names no method. -/
inductive TargetFault where
  | noSeparator
  | unterminated
  | emptyPart
  | typeNotFound
  | noSuchSignature
  | noSuchName
  deriving DecidableEq, Repr

/-- The wording of a fault. -/
def TargetFault.message : TargetFault → String
  | noSeparator => "expected Type#method"
  | unterminated => "unterminated parameter list"
  | emptyPart => "empty type or method name"
  | typeNotFound => "type not found"
  | noSuchSignature => "no method with that signature"
  | noSuchName => "no method with that name"

/-- A method as a user names it. -/
structure TargetName where
  type : String
  name : String
  /-- The erased parameter types, where they are given. -/
  params : Option (List String)
  deriving DecidableEq, Repr

namespace TargetName

/-- The parameters in a list that is written between parentheses. -/
def parseParams (inner : List Char) : List String :=
  if (trimChars inner).isEmpty then []
  else (pieces ',' inner).map (fun p => eraseType (compact (String.ofList p)))

/-- The name of a method and its parameters. -/
def parseMember (member : List Char) : Except TargetFault (String × Option (List String)) :=
  match cutFirst '(' member with
  | none => .ok (String.ofList (trimChars member), none)
  | some (name, rest) =>
    match dropBack? [')'] rest with
    | none => .error .unterminated
    | some inner => .ok (String.ofList (trimChars name), some (parseParams inner))

/-- **Reading a name.** -/
def parse (s : String) : Except TargetFault TargetName :=
  match cutFirst '#' (trimChars s.toList) with
  | none => .error .noSeparator
  | some (type, member) =>
    match parseMember member with
    | .error e => .error e
    | .ok (name, params) =>
      if type.isEmpty || name.isEmpty then .error .emptyPart
      else .ok ⟨String.ofList type, name, params⟩

/-- Is this the type that is named? -/
def fitsType (t : TargetName) (d : IndexedType) : Bool :=
  d.decl.name == t.type ||
    (d.decl.kind != .anonymousType && endsWith ('.' :: t.type.toList) d.decl.name.toList)

end TargetName

namespace Index

/-- The methods of a type that a name means: all with the parameters that are given, or the
first one where none are. -/
def membersNamed (ix : Index) (t : TargetName) (type : Nat) : List MethodId :=
  let ids := (ix.members type t.name).filterMap (fun i => (ix.methods[i]?).map (fun d => d.decl.id))
  match t.params with
  | some params => ids.filter (fun m => m.params == params)
  | none => ids.take 1

/-- The types that a name means. -/
def typesNamed (ix : Index) (t : TargetName) : List Nat :=
  (List.range ix.types.size).filter (fun i => (ix.types[i]?).any t.fitsType)

/-- The first method that a name means. -/
def methodNamed (ix : Index) (t : TargetName) : Except TargetFault MethodId :=
  match ix.typesNamed t with
  | [] => .error .typeNotFound
  | types =>
    match types.flatMap (ix.membersNamed t) with
    | m :: _ => .ok m
    | [] => .error (if t.params.isSome then .noSuchSignature else .noSuchName)

/-- **The method that a user names.** -/
def findTarget (ix : Index) (s : String) : Except Failure MethodId :=
  match (TargetName.parse s).bind ix.methodNamed with
  | .ok m => .ok m
  | .error e => .error (.invalidTarget s e.message)

/-- **The methods whose name contains a text**, whatever the case of its letters, in the order
of their identifiers. -/
def findMethods (ix : Index) (needle : String) : List IndexedMethod :=
  let part := (lowercase needle).toList
  (ix.methods.toList.filter (fun d => occursIn part (lowercase d.decl.id.name).toList)).mergeSort
    (fun a b => !b.decl.id.before a.decl.id)

end Index
end CallOrigins.Java
