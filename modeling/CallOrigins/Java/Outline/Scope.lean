import CallOrigins.Java.Outline.Header
import CallOrigins.Text.Lowercase

/-!
# Scopes and receivers

The variables that can be seen from a place: the local variables of the method, innermost block
first, then the fields of the types around it, innermost type first. Where a name is declared
twice in one block the later declaration counts; of two fields the first.

The type of a variable may be empty: then none is written, or there is no single one.
-/

namespace CallOrigins.Java

open Text

/-- A type around a place. -/
structure TypeScope where
  /-- The number of the type. -/
  id : Nat
  fields : List (String × String)
  typeParameters : List String
  deriving Repr

/-- What is known of a method while its body is read. -/
structure Body where
  /-- The calls so far, the last one first. -/
  calls : List Call
  /-- The variables of the open blocks, the innermost block and the latest variable first. -/
  locals : List (List (String × String))
  typeParameters : List String
  deriving Repr

namespace Body

/-- Declares a variable in the innermost block. -/
def declare (b : Body) (name type : String) : Body :=
  match b.locals with
  | [] => b
  | scope :: outer => { b with locals := ((name, type) :: scope) :: outer }

/-- The type of a local variable. -/
def local? (b : Body) (name : String) : Option String :=
  b.locals.findSome? (fun scope => scope.lookup name)

/-- Opens a block. -/
def openBlock (b : Body) : Body :=
  { b with locals := [] :: b.locals }

/-- Closes the innermost block. -/
def closeBlock (b : Body) : Body :=
  { b with locals := b.locals.tail }

/-- Notes a call. -/
def note (b : Body) (c : Call) : Body :=
  { b with calls := c :: b.calls }

end Body

/-- The kinds of nodes that are blocks of their own for local variables. -/
def Kind.opensBlock : Kind → Bool
  | .block | .forStatement | .enhancedForStatement | .catchClause | .lambdaExpression
  | .tryWithResourcesStatement | .switchBlockStatementGroup | .switchRule => true
  | _ => false

/-! ## Receivers -/

/-- The type of a field of the types around a place. -/
def field? (scopes : List TypeScope) (name : String) : Option String :=
  scopes.findSome? (fun s => s.fields.lookup name)

/-- A variable of a type as a receiver. Nothing is known of a type parameter, of an array, or
where the type is not known. -/
def Receiver.ofVariable (scopes : List TypeScope) (b : Body) (type : String) : Receiver :=
  let isParameter :=
    b.typeParameters.contains type || scopes.any (fun s => s.typeParameters.contains type)
  if isParameter || type.toList.contains '[' || type.isEmpty then .unknown else .typed type

/-- Does a text start with a capital? -/
def startsUppercase (s : String) : Bool :=
  match s.toList with
  | [] => false
  | c :: _ => isUppercase c

/-- Is a text made of names with points between? -/
def isDottedName (s : String) : Bool :=
  s.toList.all (fun c => isAlphanumeric c || c == '_' || c == '$' || c == '.')

/-- A simple name as a receiver: a variable, or else a type if it starts with a capital. -/
def Receiver.ofName (scopes : List TypeScope) (b : Body) (name : String) : Receiver :=
  match b.local? name with
  | some type => .ofVariable scopes b type
  | none =>
    match field? scopes name with
    | some type => .ofVariable scopes b type
    | none => if startsUppercase name then .typed name else .unknown

/-- An access with a point as a receiver: an outer object, a field of this object, or the
qualified name of a type. -/
def Receiver.ofAccess (scopes : List TypeScope) (b : Body) (n : Node) : Receiver :=
  match n.child? .object, n.child? .field with
  | some object, some field =>
    if field.kind = .thisWord then .typed (compact object.text)
    else if object.kind = .thisWord then
      match field? scopes field.text with
      | some type => .ofVariable scopes b type
      | none => .unknown
    else
      let text := compact n.text
      if isDottedName text && startsUppercase field.text then .typed text else .unknown
  | _, _ => .unknown

mutual
/-- What is known of the object that an expression gives. -/
def receiverOf (scopes : List TypeScope) (b : Body) : Node → Receiver
  | .leaf _ k t =>
    match k with
    | .thisWord => .implicit
    | .superWord => .superclass
    | .identifier => .ofName scopes b t.text
    | .stringLiteral => .typed "String"
    | _ => .unknown
  | .branch r k parts =>
    let n := Node.branch r k parts
    match k with
    | .fieldAccess => .ofAccess scopes b n
    | .objectCreationExpression =>
      match n.child? .type with
      | some type => .typed type.erased
      | none => .unknown
    | .castExpression =>
      match n.child? .type with
      | some type => .ofVariable scopes b type.erased
      | none => .unknown
    | .parenthesizedExpression => receiverOfFirst scopes b parts
    | .stringLiteral => .typed "String"
    | _ => .unknown
/-- What is known of the object that the first named node gives. -/
def receiverOfFirst (scopes : List TypeScope) (b : Body) : List Node → Receiver
  | [] => .unknown
  | n :: ns => if n.isNamed then receiverOf scopes b n else receiverOfFirst scopes b ns
end

end CallOrigins.Java
