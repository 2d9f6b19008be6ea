import CallOrigins.Java.Token

/-!
# Syntax trees

A tree holds every token of the source it was read from, so its text and its place in the
source are read off its tokens. A node has a *kind*, and in its parent it may have a *role*
(the name of a declaration, the body of a loop, the left operand of an operator). Nodes of the
kind `symbol` are keywords, operators and brackets; the others are the *named* nodes.

A tree may have faults: a node of the kind `missing` stands for a token that should be there,
one of the kind `error` for text that fits nowhere and belongs to no other node.
-/

namespace CallOrigins.Java

/-- What a node is. -/
inductive Kind where
  | symbol | missing | error | program
  -- names, literals
  | identifier | typeIdentifier | scopedIdentifier | underscorePattern | asterisk
  | thisWord | superWord
  | literal | stringLiteral | classLiteral
  -- types
  | integralType | floatingPointType | booleanType | voidType
  | scopedTypeIdentifier | genericType | arrayType | annotatedType
  | typeArguments | wildcard | dimensions | typeParameters | typeParameter | typeBound | typeList
  -- expressions
  | lambdaExpression | inferredParameters | ternaryExpression | binaryExpression
  | instanceofExpression | unaryExpression | updateExpression | castExpression
  | assignmentExpression | switchExpression | parenthesizedExpression
  | objectCreationExpression | arrayCreationExpression | dimensionsExpr | arrayInitializer
  | fieldAccess | arrayAccess | methodInvocation | methodReference | templateExpression
  | argumentList
  -- switches and patterns
  | switchBlock | switchRule | switchBlockStatementGroup | switchLabel | guard
  | pattern | typePattern | recordPattern | recordPatternBody | recordPatternComponent
  -- statements
  | block | expressionStatement | labeledStatement | assertStatement | doStatement
  | breakStatement | continueStatement | returnStatement | yieldStatement
  | synchronizedStatement | throwStatement | tryStatement | tryWithResourcesStatement
  | resourceSpecification | resource | catchClause | catchFormalParameter | catchType
  | finallyClause | ifStatement | whileStatement | forStatement | enhancedForStatement
  | localVariableDeclaration | variableDeclarator
  -- annotations and modifiers
  | modifiers | annotationMarker | annotationWithArguments | annotationArgumentList
  | elementValuePair | elementValueArrayInitializer
  -- declarations
  | packageDeclaration | importDeclaration | moduleDeclaration | moduleBody | moduleDirective
  | requiresModifier
  | classDeclaration | interfaceDeclaration | enumDeclaration | recordDeclaration
  | annotationTypeDeclaration | superclass | superInterfaces | extendsInterfaces | permits
  | classBody | interfaceBody | enumBody | enumBodyDeclarations | enumConstant
  | annotationTypeBody | annotationTypeElementDeclaration
  | methodDeclaration | constructorDeclaration | compactConstructorDeclaration
  | constructorBody | explicitConstructorInvocation | staticInitializer
  | fieldDeclaration | constantDeclaration | throwsClause
  | formalParameters | formalParameter | spreadParameter | receiverParameter
  deriving DecidableEq, Repr

/-- What a node is to its parent. -/
inductive Role where
  | name | type | body | value | parameters | typeParameters | typeArguments | arguments
  | dimensions | declarator | element | scope | superclass | interfaces | permits
  | left | right | operator | operand | condition | consequence | alternative
  | object | field | array | index | pattern | constructor | resources | key
  | init | update | processor | template
  deriving DecidableEq, Repr

/-- A syntax tree. -/
inductive Node where
  | leaf (role : Option Role) (kind : Kind) (token : Token)
  | branch (role : Option Role) (kind : Kind) (children : List Node)
  deriving Repr

namespace Node

/-! ## The node itself -/

/-- What the node is. -/
def kind : Node → Kind
  | leaf _ k _ => k
  | branch _ k _ => k

/-- What the node is to its parent. -/
def role : Node → Option Role
  | leaf r _ _ => r
  | branch r _ _ => r

/-- All the children, symbols included. -/
def parts : Node → List Node
  | leaf _ _ _ => []
  | branch _ _ cs => cs

/-- Keywords, operators and brackets are not named, nor is a token that is missing. -/
def isNamed (n : Node) : Bool :=
  n.kind != .symbol && n.kind != .missing

/-- The named children. -/
def children (n : Node) : List Node :=
  n.parts.filter isNamed

/-- The first child in a role. -/
def child? (n : Node) (r : Role) : Option Node :=
  n.parts.find? (fun c => c.role = some r)

/-- All the children in a role. -/
def childrenAs (n : Node) (r : Role) : List Node :=
  n.parts.filter (fun c => c.role = some r)

/-- The first named child of a kind. -/
def childOfKind? (n : Node) (k : Kind) : Option Node :=
  n.children.find? (fun c => c.kind = k)

/-! ## Tokens and text -/

mutual
/-- The tokens of a tree, from left to right, before those that follow. -/
def tokensOnto : Node → List Token → List Token
  | leaf _ _ t, after => t :: after
  | branch _ _ cs, after => tokensOfAllOnto cs after
/-- The tokens of trees that stand side by side, before those that follow. -/
def tokensOfAllOnto : List Node → List Token → List Token
  | [], after => after
  | n :: ns, after => n.tokensOnto (tokensOfAllOnto ns after)
end

/-- **The tokens of a tree**, from left to right. -/
def tokens (n : Node) : List Token :=
  n.tokensOnto []

mutual
/-- The first token of a tree. -/
def firstToken? : Node → Option Token
  | leaf _ _ t => some t
  | branch _ _ cs => firstTokenOfAll? cs
/-- The first token of trees that stand side by side. -/
def firstTokenOfAll? : List Node → Option Token
  | [] => none
  | n :: ns =>
    match n.firstToken? with
    | some t => some t
    | none => firstTokenOfAll? ns
end

mutual
/-- The last token of a tree. -/
def lastToken? : Node → Option Token
  | leaf _ _ t => some t
  | branch _ _ cs => lastTokenOfAll? cs
/-- The last token of trees that stand side by side. -/
def lastTokenOfAll? : List Node → Option Token
  | [] => none
  | n :: ns =>
    match lastTokenOfAll? ns with
    | some t => some t
    | none => n.lastToken?
end

/-- The source text of a list of tokens, without the gap before the first. -/
def textOf : List Token → String
  | [] => ""
  | t :: ts => t.text ++ String.join (ts.map (fun u => u.gap ++ u.text))

/-- The source text of a tree. -/
def text (n : Node) : String :=
  textOf n.tokens

/-- The byte offset of the first token. -/
def start (n : Node) : Nat :=
  (n.firstToken?.map Token.start).getD 0

/-- The byte offset after the last token. -/
def stop (n : Node) : Nat :=
  (n.lastToken?.map Token.stop).getD 0

/-! ## Faults -/

mutual
/-- Is a token missing, or a part of the tree an error? -/
def isIncomplete : Node → Bool
  | leaf _ k _ => k == .error || k == .missing
  | branch _ k cs => k == .error || k == .missing || anyIncomplete cs
/-- Is one of the trees incomplete? -/
def anyIncomplete : List Node → Bool
  | [] => false
  | n :: ns => n.isIncomplete || anyIncomplete ns
end

/-- Is a token missing, or was anything passed over between the tokens? -/
def hasError (n : Node) : Bool :=
  n.isIncomplete || n.tokens.tail.any Token.stray

end Node
end CallOrigins.Java
