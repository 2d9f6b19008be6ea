import CallOrigins.Java.Grammar.Declarations

/-!
# The grammar

The table of the rules.
-/

namespace CallOrigins.Java.Grammar

/-- **What defines each rule.** -/
def definition : Rule → Definition
  | .program => program
  | .toplevelStatement => toplevelStatement
  | .literal => literal
  | .stringLiteral => stringLiteral
  | .expression => expression
  | .castExpression => castExpression
  | .assignmentExpression => assignmentExpression
  | .binaryExpression => binaryExpression
  | .instanceofExpression => instanceofExpression
  | .lambdaExpression => lambdaExpression
  | .inferredParameters => inferredParameters
  | .ternaryExpression => ternaryExpression
  | .unaryExpression => unaryExpression
  | .updateExpression => updateExpression
  | .primaryExpression => primaryExpression
  | .arrayCreationExpression => arrayCreationExpression
  | .dimensionsExpr => dimensionsExpr
  | .parenthesizedExpression => parenthesizedExpression
  | .classLiteral => classLiteral
  | .objectCreationExpression => objectCreationExpression
  | .unqualifiedCreation => unqualifiedCreation
  | .fieldAccess => fieldAccess
  | .templateExpression => templateExpression
  | .arrayAccess => arrayAccess
  | .methodInvocation => methodInvocation
  | .argumentList => argumentList
  | .methodReference => methodReference
  | .typeArguments => typeArguments
  | .wildcard => wildcard
  | .wildcardBounds => wildcardBounds
  | .dimensions => dimensions
  | .switchExpression => switchExpression
  | .switchBlock => switchBlock
  | .switchBlockStatementGroup => switchBlockStatementGroup
  | .switchRule => switchRule
  | .switchLabel => switchLabel
  | .pattern => pattern
  | .typePattern => typePattern
  | .recordPattern => recordPattern
  | .recordPatternBody => recordPatternBody
  | .recordPatternComponent => recordPatternComponent
  | .guard => guard
  | .statement => statement
  | .block => block
  | .expressionStatement => expressionStatement
  | .labeledStatement => labeledStatement
  | .assertStatement => assertStatement
  | .doStatement => doStatement
  | .breakStatement => breakStatement
  | .continueStatement => continueStatement
  | .returnStatement => returnStatement
  | .yieldStatement => yieldStatement
  | .synchronizedStatement => synchronizedStatement
  | .throwStatement => throwStatement
  | .tryStatement => tryStatement
  | .catchClause => catchClause
  | .catchFormalParameter => catchFormalParameter
  | .catchType => catchType
  | .finallyClause => finallyClause
  | .tryWithResourcesStatement => tryWithResourcesStatement
  | .resourceSpecification => resourceSpecification
  | .resource => resource
  | .ifStatement => ifStatement
  | .whileStatement => whileStatement
  | .forStatement => forStatement
  | .enhancedForStatement => enhancedForStatement
  | .annotationUse => annotationUse
  | .annotationMarker => annotationMarker
  | .annotationWithArguments => annotationWithArguments
  | .annotationArgumentList => annotationArgumentList
  | .elementValuePair => elementValuePair
  | .elementValue => elementValue
  | .elementValueArrayInitializer => elementValueArrayInitializer
  | .declaration => declaration
  | .moduleDeclaration => moduleDeclaration
  | .moduleBody => moduleBody
  | .moduleDirective => moduleDirective
  | .requiresDirective => requiresDirective
  | .requiresModifier => requiresModifier
  | .exportsDirective => exportsDirective
  | .opensDirective => opensDirective
  | .usesDirective => usesDirective
  | .providesDirective => providesDirective
  | .packageDeclaration => packageDeclaration
  | .importDeclaration => importDeclaration
  | .asterisk => asterisk
  | .enumDeclaration => enumDeclaration
  | .enumBody => enumBody
  | .enumBodyDeclarations => enumBodyDeclarations
  | .enumConstant => enumConstant
  | .classDeclaration => classDeclaration
  | .modifiers => modifiers
  | .typeParameters => typeParameters
  | .typeParameter => typeParameter
  | .typeBound => typeBound
  | .superclass => superclass
  | .superInterfaces => superInterfaces
  | .typeList => typeList
  | .permits => permits
  | .classBody => classBody
  | .staticInitializer => staticInitializer
  | .constructorDeclaration => constructorDeclaration
  | .constructorDeclarator => constructorDeclarator
  | .constructorBody => constructorBody
  | .explicitConstructorInvocation => explicitConstructorInvocation
  | .scopedIdentifier => scopedIdentifier
  | .fieldDeclaration => fieldDeclaration
  | .recordDeclaration => recordDeclaration
  | .annotationTypeDeclaration => annotationTypeDeclaration
  | .annotationTypeBody => annotationTypeBody
  | .annotationTypeElementDeclaration => annotationTypeElementDeclaration
  | .defaultValue => defaultValue
  | .interfaceDeclaration => interfaceDeclaration
  | .extendsInterfaces => extendsInterfaces
  | .interfaceBody => interfaceBody
  | .constantDeclaration => constantDeclaration
  | .variableDeclaratorList => variableDeclaratorList
  | .variableDeclarator => variableDeclarator
  | .variableDeclaratorId => variableDeclaratorId
  | .arrayInitializer => arrayInitializer
  | .type => type
  | .unannotatedType => unannotatedType
  | .annotatedType => annotatedType
  | .scopedTypeIdentifier => scopedTypeIdentifier
  | .genericType => genericType
  | .arrayType => arrayType
  | .integralType => integralType
  | .floatingPointType => floatingPointType
  | .methodHeader => methodHeader
  | .methodDeclarator => methodDeclarator
  | .formalParameters => formalParameters
  | .formalParameter => formalParameter
  | .receiverParameter => receiverParameter
  | .spreadParameter => spreadParameter
  | .throwsClause => throwsClause
  | .localVariableDeclaration => localVariableDeclaration
  | .methodDeclaration => methodDeclaration
  | .compactConstructorDeclaration => compactConstructorDeclaration
  | .reservedIdentifier => reservedIdentifier

end CallOrigins.Java.Grammar
