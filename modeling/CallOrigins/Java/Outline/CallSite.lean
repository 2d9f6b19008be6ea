import CallOrigins.Java.Outline.Scope

/-!
# Calls in a tree

The call that a node makes, and the variables that a node declares. The place of the call of a
method starts at the name of the method, that of every other call at the node.
-/

namespace CallOrigins.Java

/-- The kinds of nodes that are calls. -/
def Kind.isCall : Kind → Bool
  | .methodInvocation | .objectCreationExpression | .explicitConstructorInvocation
  | .methodReference => true
  | _ => false

/-- The name that a method reference refers to: its last part, a name or the keyword `new`. -/
def referredName? (n : Node) : Option String :=
  match n.parts.getLast? with
  | none => none
  | some last =>
    match last.kind with
    | .identifier => some last.text
    | .symbol => if last.text == "new" then some "new" else none
    | _ => none

/-- The number of arguments that a node gives. -/
def argumentCount (n : Node) : Nat :=
  ((n.child? .arguments).map (fun a => a.children.length)).getD 0

/-- A call that takes up its node from `start` on. -/
def callAt (line : Nat → Nat) (n : Node) (kind : CallKind) (name : String) (receiver : Receiver)
    (argCount : Option Nat) (start : Nat) : Call :=
  { kind, name, receiver, argCount, offset := start, length := n.stop - start, line := line start }

/-- **The call that a node makes**, seen from a place in a method. -/
def call? (line : Nat → Nat) (scopes : List TypeScope) (b : Body) (n : Node) : Option Call :=
  match n.kind with
  | .methodInvocation =>
    match n.child? .name with
    | none => none
    | some name =>
      let receiver :=
        match n.child? .object with
        | none => .implicit
        | some object => receiverOf scopes b object
      some (callAt line n .method name.text receiver (some (argumentCount n)) name.start)
  | .objectCreationExpression =>
    match n.child? .type with
    | none => none
    | some type =>
      some
        (callAt line n .creation (lastSegment type.erased) (.typed type.erased)
          (some (argumentCount n)) n.start)
  | .explicitConstructorInvocation =>
    match n.child? .constructor with
    | none => none
    | some constructor =>
      if constructor.kind = .superWord then
        some
          (callAt line n .superConstructor "super" .superclass (some (argumentCount n)) n.start)
      else
        some (callAt line n .thisConstructor "this" .implicit (some (argumentCount n)) n.start)
  | .methodReference =>
    match n.children.head?, referredName? n with
    | some qualifier, some name =>
      let receiver :=
        if qualifier.kind.isType then .ofVariable scopes b qualifier.erased
        else receiverOf scopes b qualifier
      some (callAt line n .reference name receiver none n.start)
    | _, _ => none
  | _ => none

/-! ## Declarations of variables -/

/-- The type of a variable declared with `var`: that of the object that is created for it. -/
def inferredType (declarator : Node) : String :=
  match declarator.child? .value with
  | none => ""
  | some value =>
    if value.kind = .objectCreationExpression then
      ((value.child? .type).map Node.erased).getD ""
    else ""

/-- Declares the variables of a declaration. -/
def declareVariables (b : Body) (n : Node) : Body :=
  match n.child? .type with
  | none => b
  | some type =>
    (n.childrenAs .declarator).foldl
      (fun b d =>
        match d.child? .name with
        | none => b
        | some name =>
          b.declare name.text (if type.erased == "var" then inferredType d else type.erased))
      b

/-- The type written for the variable of a node: the only type that is caught, the type that is
tested, or the type in front. -/
def writtenType? (n : Node) : Option Node :=
  match n.kind with
  | .catchFormalParameter =>
    match (n.childOfKind? .catchType).map Node.typeChildren with
    | some [type] => some type
    | _ => none
  | .instanceofExpression => n.child? .right
  | _ => n.child? .type

/-- Declares the one variable of a node. -/
def declareOne (b : Body) (n : Node) : Body :=
  match n.child? .name with
  | none => b
  | some name =>
    let type := ((writtenType? n).map Node.erased).getD ""
    b.declare name.text (if type == "var" then "" else type)

/-- Declares the parameters of a lambda expression. -/
def declareParameters (b : Body) (n : Node) : Body :=
  match n.child? .parameters with
  | none => b
  | some ps =>
    match ps.kind with
    | .formalParameters =>
      (Header.parameters ps).foldl (fun b (type, name) => b.declare name type) b
    | .identifier => b.declare ps.text ""
    | _ =>
      (ps.children.filter (fun p => p.kind == .identifier)).foldl
        (fun b p => b.declare p.text "") b

/-- What a node alone means for the method it stands in: a call, or variables. -/
def Body.meet (b : Body) (line : Nat → Nat) (scopes : List TypeScope) (n : Node) : Body :=
  match n.kind with
  | .methodInvocation | .objectCreationExpression | .explicitConstructorInvocation
  | .methodReference =>
    match call? line scopes b n with
    | some c => b.note c
    | none => b
  | .localVariableDeclaration | .fieldDeclaration => declareVariables b n
  | .enhancedForStatement | .resource | .catchFormalParameter | .instanceofExpression =>
    declareOne b n
  | .lambdaExpression => declareParameters b n
  | _ => b

end CallOrigins.Java
