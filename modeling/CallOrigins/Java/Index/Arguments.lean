import CallOrigins.Java.Expr.Lift
import CallOrigins.Java.Index
import CallOrigins.Row

/-!
# The arguments at a place

A place is a range of bytes in the file of a method. The smallest node that covers the range is
sought in the syntax tree, and from there the nearest call around it in the same body.
-/

namespace CallOrigins.Java

/-! ## Places in a tree -/

mutual
/-- The nodes that cover a range, the outermost first, below and with a node that does. -/
def Node.covering (lo hi : Nat) : Node → List Node
  | .leaf r k t => [.leaf r k t]
  | .branch r k cs => .branch r k cs :: Node.coveringAmong lo hi cs
/-- The nodes that cover a range, the outermost first, among nodes that stand side by side: the
first that reaches its end either covers it or none does. -/
def Node.coveringAmong (lo hi : Nat) : List Node → List Node
  | [] => []
  | n :: ns =>
    if n.stop < hi || n.stop ≤ lo then Node.coveringAmong lo hi ns
    else if lo < n.start then []
    else n.covering lo hi
end

/-- The kinds of nodes that a call never reaches across. -/
def Kind.isBoundary : Kind → Bool
  | .methodDeclaration | .constructorDeclaration | .compactConstructorDeclaration
  | .classBody | .program => true
  | _ => false

/-- The nearest call among nodes, the innermost first. -/
def nearestCall? (inward : List Node) : Option Node :=
  match inward.find? (fun n => n.kind.isCall || n.kind.isBoundary) with
  | some n => if n.kind.isCall then some n else none
  | none => none

/-- The call that covers a range. -/
def coveringCall? (root : Node) (lo hi : Nat) : Option Node :=
  nearestCall? (root.covering lo hi).reverse

/-- Can a call, as it is written, be a call of a method? -/
def writtenFor (call : Node) (target : MethodId) : Bool :=
  match call.kind with
  | .methodInvocation => (call.child? .name).any (fun n => n.text == target.name)
  | .objectCreationExpression =>
    target.isConstructor &&
      (call.child? .type).any (fun t => lastSegment t.erased == target.simpleTypeName)
  | .explicitConstructorInvocation => target.isConstructor
  | .methodReference =>
    match call.parts.getLast? with
    | none => false
    | some last =>
      if last.kind = .symbol && last.text == "new" then target.isConstructor
      else last.text == target.name
  | _ => false

namespace Index

/-- The call of a method that covers a range in the file of its caller. -/
def callCovering (ix : Index) (caller target : MethodId) (offset length : Nat) :
    Except ExtractionFailure Node :=
  match (ix.method? caller).bind ix.fileOf? with
  | none => .error .noSource
  | some f =>
    if f.source.content.utf8ByteSize < offset + length then .error .callSiteNotFound
    else
      match coveringCall? f.tree offset (offset + length) with
      | none => .error .callSiteNotFound
      | some call => if writtenFor call target then .ok call else .error .callSiteNotFound

/-- The argument list of a call of a method that covers a range in the file of its caller. -/
def argumentList (ix : Index) (caller target : MethodId) (offset length : Nat) :
    Except ExtractionFailure Node :=
  match ix.callCovering caller target offset length with
  | .error e => .error e
  | .ok call =>
    if call.hasError then .error .parseError
    else
      match call.child? .arguments with
      | none => .error .argumentsUnavailable
      | some arguments => .ok arguments

/-- **The arguments of a call**, as texts. -/
def arguments (ix : Index) (caller target : MethodId) (offset length : Nat) :
    Except ExtractionFailure (List String) :=
  match ix.argumentList caller target offset length with
  | .error e => .error e
  | .ok list => .ok (renderArguments list)

end Index
end CallOrigins.Java
