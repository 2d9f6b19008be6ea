/-!
# The rules of the grammar

Every rule stands for a class of phrases. Some of them show in a tree as nodes of their own, the
others only group what stands in them. Where a text can be read in two ways that nothing else
tells apart, the order of the rules decides.
-/

namespace CallOrigins.Java

/-- The names of the rules. -/
inductive Rule where
  | program | toplevelStatement | literal | stringLiteral
  -- expressions
  | expression | castExpression | assignmentExpression | binaryExpression
  | instanceofExpression | lambdaExpression | inferredParameters | ternaryExpression
  | unaryExpression | updateExpression | primaryExpression | arrayCreationExpression
  | dimensionsExpr | parenthesizedExpression | classLiteral | objectCreationExpression
  | unqualifiedCreation | fieldAccess | templateExpression | arrayAccess | methodInvocation
  | argumentList | methodReference | typeArguments | wildcard | wildcardBounds | dimensions
  -- switches and patterns
  | switchExpression | switchBlock | switchBlockStatementGroup | switchRule | switchLabel
  | pattern | typePattern | recordPattern | recordPatternBody | recordPatternComponent | guard
  -- statements
  | statement | block | expressionStatement | labeledStatement | assertStatement | doStatement
  | breakStatement | continueStatement | returnStatement | yieldStatement
  | synchronizedStatement | throwStatement | tryStatement | catchClause | catchFormalParameter
  | catchType | finallyClause | tryWithResourcesStatement | resourceSpecification | resource
  | ifStatement | whileStatement | forStatement | enhancedForStatement
  -- annotations
  | annotationUse | annotationMarker | annotationWithArguments | annotationArgumentList
  | elementValuePair | elementValue | elementValueArrayInitializer
  -- declarations
  | declaration | moduleDeclaration | moduleBody | moduleDirective | requiresDirective
  | requiresModifier | exportsDirective | opensDirective | usesDirective | providesDirective
  | packageDeclaration | importDeclaration | asterisk | enumDeclaration | enumBody
  | enumBodyDeclarations | enumConstant | classDeclaration | modifiers | typeParameters
  | typeParameter | typeBound | superclass | superInterfaces | typeList | permits | classBody
  | staticInitializer | constructorDeclaration | constructorDeclarator | constructorBody
  | explicitConstructorInvocation | scopedIdentifier | fieldDeclaration | recordDeclaration
  | annotationTypeDeclaration | annotationTypeBody | annotationTypeElementDeclaration
  | defaultValue | interfaceDeclaration | extendsInterfaces | interfaceBody
  | constantDeclaration | variableDeclaratorList | variableDeclarator | variableDeclaratorId
  | arrayInitializer
  -- types
  | type | unannotatedType | annotatedType | scopedTypeIdentifier | genericType | arrayType
  | integralType | floatingPointType
  -- members
  | methodHeader | methodDeclarator | formalParameters | formalParameter | receiverParameter
  | spreadParameter | throwsClause | localVariableDeclaration | methodDeclaration
  | compactConstructorDeclaration | reservedIdentifier
  deriving DecidableEq, Repr

namespace Rule

/-- How many rules there are. -/
def count : Nat := reservedIdentifier.ctorIdx + 1

/-- The number of a rule. -/
def index (r : Rule) : Nat := r.ctorIdx

end Rule
end CallOrigins.Java
