import CallOrigins.Java.Expr
import CallOrigins.Java.Outline.Header

/-!
# The expression of a tree

Every node of a syntax tree is lifted to an expression. The tree is folded from its leaves:
the expression of a node is composed of those of its parts, and for each part the expressions
of its own named children are at hand, because arguments and initializers stand one level
below the node they belong to.
-/

namespace CallOrigins.Java

open Text

/-- A node with its expression and those of its named children. -/
structure Lifted where
  node : Node
  expr : Expr
  items : List Expr

namespace Lifted

/-- The source text of a node, its blanks collapsed. -/
def collapsedText (n : Node) : String :=
  collapse n.text

/-- The first part in a role. -/
def child? (parts : List Lifted) (r : Role) : Option Lifted :=
  parts.find? (fun p => p.node.role = some r)

/-- The parts that are named. -/
def named (parts : List Lifted) : List Lifted :=
  parts.filter (fun p => p.node.isNamed)

/-- The expression of the part in a role; nothing is shown where there is none. -/
def exprAs (parts : List Lifted) (r : Role) : Expr :=
  ((child? parts r).map Lifted.expr).getD (.other "")

/-- The source text of the part in a role. -/
def textAs (parts : List Lifted) (r : Role) : String :=
  ((child? parts r).map (fun p => p.node.text)).getD ""

/-- The same, with its blanks collapsed. -/
def collapsedAs (parts : List Lifted) (r : Role) : String :=
  ((child? parts r).map (fun p => collapsedText p.node)).getD ""

/-- The arguments of a call. -/
def arguments (parts : List Lifted) : List Expr :=
  ((child? parts .arguments).map Lifted.items).getD []

/-- The first of the named parts. -/
def firstNamed (parts : List Lifted) : Expr :=
  ((named parts).head?.map Lifted.expr).getD (.other "")

/-- The dimensions that one part of an array creation stands for: one with a size, or as many
without as there are brackets. -/
def dimensionsOf (part : Lifted) : List (Option Expr) :=
  if part.node.kind = .dimensionsExpr then [part.items.head?]
  else List.replicate (part.node.text.toList.count '[') none

/-- The parameters of a lambda expression. -/
def lambdaParameters (parts : List Lifted) : String :=
  match child? parts .parameters with
  | none => "()"
  | some ps =>
    if ps.node.kind = .identifier then ps.node.text
    else "(" ++ Expr.commaList (ps.node.children.map collapsedText) ++ ")"

/-- The body of a lambda expression. -/
def lambdaBody (parts : List Lifted) : LambdaBody :=
  match child? parts .body with
  | none => .elided
  | some b =>
    if b.node.kind = .block then
      if 1 < b.node.children.length then .elided else .block (collapsedText b.node)
    else .expr b.expr

/-- What a method reference is qualified by: a type as it is written, or an expression. -/
def qualifier (parts : List Lifted) : String :=
  match (named parts).head? with
  | none => ""
  | some q => if q.node.kind.isType then collapsedText q.node else q.expr.render

/-- The type arguments in a method reference. -/
def typeArguments (parts : List Lifted) : String :=
  (((named parts).find? (fun p => p.node.kind = .typeArguments)).map
    (fun p => collapsedText p.node)).getD ""

/-- The source text of the last part. -/
def lastText (parts : List Lifted) : String :=
  (parts.getLast?.map (fun p => p.node.text)).getD ""

/-- The type that a value is tested for, with the name of the variable that it declares. -/
def testedType (parts : List Lifted) : String :=
  let type :=
    match child? parts .right with
    | some p => collapsedText p.node
    | none => collapsedAs parts .pattern
  match child? parts .name with
  | some name => type ++ " " ++ name.node.text
  | none => type

/-- An increment or decrement, written before or after its operand. -/
def update (parts : List Lifted) : Expr :=
  match parts.head? with
  | some first =>
    if first.node.kind = .symbol && (first.node.text == "++" || first.node.text == "--") then
      .prefixed first.node.text (firstNamed parts)
    else .postfixed (firstNamed parts) (lastText parts)
  | none => .postfixed (firstNamed parts) (lastText parts)

/-- **The expression of a node**, given its parts. -/
def compose (n : Node) (parts : List Lifted) : Expr :=
  match n.kind with
  | .literal | .stringLiteral => .literal n.text
  | .identifier | .thisWord | .superWord => .name n.text
  | .classLiteral => .classLiteral (collapsedText n)
  | .methodInvocation =>
    .call ((child? parts .object).map Lifted.expr) (textAs parts .name) (arguments parts)
  | .objectCreationExpression =>
    .creation (collapsedAs parts .type) (arguments parts)
      (parts.any (fun p => p.node.kind = .classBody))
  | .arrayCreationExpression =>
    .newArray (collapsedAs parts .type)
      ((parts.filter (fun p => p.node.role = some .dimensions)).flatMap dimensionsOf)
      ((child? parts .value).map Lifted.items)
  | .arrayInitializer => .arrayInit ((named parts).map Lifted.expr)
  | .fieldAccess => .field (exprAs parts .object) (textAs parts .field)
  | .arrayAccess => .index (exprAs parts .array) (exprAs parts .index)
  | .castExpression => .cast (collapsedAs parts .type) (exprAs parts .value)
  | .parenthesizedExpression => .paren (firstNamed parts)
  | .lambdaExpression => .lambda (lambdaParameters parts) (lambdaBody parts)
  | .methodReference => .methodRef (qualifier parts) (typeArguments parts) (lastText parts)
  | .instanceofExpression => .instanceOf (exprAs parts .left) (testedType parts)
  | .ternaryExpression =>
    .conditional (exprAs parts .condition) (exprAs parts .consequence)
      (exprAs parts .alternative)
  | .assignmentExpression =>
    .assign (exprAs parts .left) (textAs parts .operator) (exprAs parts .right)
  | .unaryExpression => .prefixed (textAs parts .operator) (exprAs parts .operand)
  | .updateExpression => update parts
  | .binaryExpression =>
    .binary (exprAs parts .left) (textAs parts .operator) (exprAs parts .right)
  | _ => .other (collapsedText n)

mutual
/-- Lifts a node. -/
def ofNode : Node → Lifted
  | .leaf r k t => ⟨.leaf r k t, compose (.leaf r k t) [], []⟩
  | .branch r k cs =>
    let parts := ofAll cs
    ⟨.branch r k cs, compose (.branch r k cs) parts, (named parts).map Lifted.expr⟩
/-- Lifts nodes that stand side by side. -/
def ofAll : List Node → List Lifted
  | [] => []
  | n :: ns => ofNode n :: ofAll ns
end

end Lifted

/-- The expression of a node. -/
def Expr.ofNode (n : Node) : Expr :=
  (Lifted.ofNode n).expr

/-- The expressions of the arguments in an argument list. -/
def Expr.ofArguments (arguments : Node) : List Expr :=
  arguments.children.map Expr.ofNode

/-- **The texts of the arguments in an argument list.** -/
def renderArguments (arguments : Node) : List String :=
  (Expr.ofArguments arguments).map Expr.render

end CallOrigins.Java
