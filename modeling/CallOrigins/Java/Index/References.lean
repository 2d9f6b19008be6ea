import CallOrigins.Java.Index.Resolve
import CallOrigins.Reference

/-!
# References to a method

Which calls can mean a method. A call is *bound* to the methods that it can mean; it is an
exact reference to a method where this is the only one, and a potential one where there are
others.

Only calls under certain names are looked at, and only with a number of arguments that the
method accepts: no other call can be bound to it.
-/

namespace CallOrigins.Java.Index

/-! ## Binding -/

/-- The accuracy of a call that can mean any of the candidates, as a reference to one method. -/
def accuracyOf (candidates : List Nat) (target : Nat) : Option Accuracy :=
  if candidates = [target] then some .exact
  else if target ∈ candidates then some .potential
  else none

/-- The methods that a call without a receiver can mean: those of the nearest type around it
that has any, else those of a static import. -/
def bindImplicit (ix : Index) (caller : IndexedMethod) (name : String) (arity : Option Nat) :
    List Nat :=
  let inTypes :=
    ((ix.enclosingTypes caller.decl.type).map
      (fun t => ix.inheritedMethods [t] name arity)).find? (fun ms => !ms.isEmpty)
  match inTypes with
  | some ms => ms
  | none =>
    match ix.files[caller.file]? with
    | none => []
    | some f =>
      let imported := f.outline.staticImports.filter (fun (_, member) => member == name)
      let types := imported.filterMap (fun (type, _) => ix.resolveType? type caller.file none)
      ((types.map (fun t => ix.inheritedMethods [t] name arity)).find?
        (fun ms => !ms.isEmpty)).getD []

/-- The methods that a method call or a method reference can mean. -/
def bindCall (ix : Index) (caller : IndexedMethod) (call : Call) : List Nat :=
  match call.receiver with
  | .implicit => ix.bindImplicit caller call.name call.argCount
  | .superclass =>
    match ix.superclass? caller.decl.type with
    | some t => ix.inheritedMethods [t] call.name call.argCount
    | none => []
  | .typed name =>
    match ix.resolveType? name caller.file (some caller.decl.type) with
    | some t => ix.inheritedMethods [t] call.name call.argCount
    | none => []
  | .unknown => (ix.methodsNamed call.name).filter (ix.accepts call.argCount)

/-- **A call as a reference to a method** that is no constructor. -/
def bindMethod (ix : Index) (caller : IndexedMethod) (call : Call) (target : Nat) :
    Option Accuracy :=
  match call.kind with
  | .method | .reference => accuracyOf (ix.bindCall caller call) target
  | _ => none

/-- The type whose constructor a call runs. -/
def createdType? (ix : Index) (caller : IndexedMethod) (call : Call) : Option Nat :=
  match call.kind, call.receiver with
  | .creation, .typed name => ix.resolveType? name caller.file (some caller.decl.type)
  | .reference, .typed name =>
    if call.name == "new" then ix.resolveType? name caller.file (some caller.decl.type) else none
  | .thisConstructor, _ => some caller.decl.type
  | .superConstructor, _ => ix.superclass? caller.decl.type
  | _, _ => none

/-- **A call as a reference to a constructor.** -/
def bindConstructor (ix : Index) (caller : IndexedMethod) (call : Call) (target : Nat)
    (constructor : IndexedMethod) : Option Accuracy :=
  match ix.createdType? caller call with
  | none => none
  | some t =>
    if t = constructor.decl.type then
      accuracyOf (ix.declaredMethods t constructor.decl.id.name call.argCount) target
    else none

/-! ## Searching -/

/-- The method and the call of a site. -/
def callAt? (ix : Index) (s : Site) : Option (IndexedMethod × Call) :=
  match ix.methods[s.method]? with
  | none => none
  | some d => (d.decl.calls[s.place]?).map (fun c => (d, c))

/-- The file and the offset of a site. -/
def placeOf (ix : Index) (s : Site) : Nat × Nat :=
  match ix.callAt? s with
  | some (d, c) => (d.file, c.offset)
  | none => (0, 0)

/-- Does the first site stand before the second one, or in the same place? -/
def siteLe (ix : Index) (a b : Site) : Bool :=
  let p := ix.placeOf a
  let q := ix.placeOf b
  p.1 < q.1 || (p.1 == q.1 && p.2 ≤ q.2)

/-- The names under which a method may be called. -/
def searchNames (m : MethodId) : List String :=
  if m.isConstructor then [m.simpleTypeName, "super", "this", "new"] else [m.name]

/-- The calls that are looked at, in the order of their files and offsets. -/
def candidateSites (ix : Index) (m : MethodId) : List Site :=
  (((searchNames m).flatMap ix.sitesNamed).mergeSort ix.siteLe).eraseReps

/-- Does a method accept the number of arguments of a call? -/
def fitsCall (m : MethodId) (call : Call) : Bool :=
  call.argCount.all m.acceptsArity

/-- The accuracy of a call as a reference to the method with a number. -/
def bind? (ix : Index) (target : Nat) (method : IndexedMethod) (caller : IndexedMethod)
    (call : Call) : Option Accuracy :=
  if method.decl.id.isConstructor then ix.bindConstructor caller call target method
  else ix.bindMethod caller call target

/-- The path of the file of a method. -/
def pathOf (ix : Index) (d : IndexedMethod) : String :=
  ((ix.fileOf? d).map (fun f => f.source.path)).getD ""

/-- The reference that a call is to the method with a number, if it is one. -/
def referenceAt? (ix : Index) (target : Nat) (method : IndexedMethod) (caller : IndexedMethod)
    (call : Call) : Option Reference :=
  if fitsCall method.decl.id call then
    (ix.bind? target method caller call).map
      (fun accuracy =>
        ⟨ix.pathOf caller, call.offset, call.length, accuracy, some caller.decl.id⟩)
  else none

/-- The references among sites. Before a site in another file than the last one the search
stops if cancellation has been requested: `cancelled` says whether it has, given the number of
the file. -/
def referencesAmong (ix : Index) (cancelled : Nat → Bool) (target : Nat)
    (method : IndexedMethod) : Option Nat → List Site → List Reference
  | _, [] => []
  | current, s :: rest =>
    match ix.callAt? s with
    | none => ix.referencesAmong cancelled target method current rest
    | some (caller, call) =>
      if current != some caller.file && cancelled caller.file then []
      else
        (ix.referenceAt? target method caller call).toList ++
          ix.referencesAmong cancelled target method (some caller.file) rest

/-- **The references to a method**, in the order of files and offsets. -/
def references (ix : Index) (cancelled : Nat → Bool) (m : MethodId) :
    Except SearchFault (List Reference) :=
  match ix.methodNumber? m, ix.method? m with
  | some target, some method =>
    .ok (ix.referencesAmong cancelled target method none (ix.candidateSites m))
  | _, _ => .error (.query (m.text ++ " is not in the index"))

end CallOrigins.Java.Index
