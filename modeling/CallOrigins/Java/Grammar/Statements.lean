import CallOrigins.Java.Grammar.Expressions

/-!
# Statements
-/

namespace CallOrigins.Java.Grammar

open Form Definition

/-- A statement. -/
def statement : Definition :=
  group
    (oneOf
      [.rule .declaration, .rule .expressionStatement, .rule .labeledStatement,
        .rule .ifStatement, .rule .whileStatement, .rule .forStatement,
        .rule .enhancedForStatement, .rule .block, mark ";", .rule .assertStatement,
        .rule .doStatement, .rule .breakStatement, .rule .continueStatement,
        .rule .returnStatement, .rule .yieldStatement, .rule .switchExpression,
        .rule .synchronizedStatement, .rule .localVariableDeclaration, .rule .throwStatement,
        .rule .tryStatement, .rule .tryWithResourcesStatement])

/-- A block. -/
def block : Definition := node .block (inBraces (many (.rule .statement)))

/-- An expression for its effect. -/
def expressionStatement : Definition :=
  node .expressionStatement (.seq (.rule .expression) (mark ";"))

/-- A statement with a label. -/
def labeledStatement : Definition :=
  node .labeledStatement (all [plainName, mark ":", .rule .statement])

/-- An assertion. -/
def assertStatement : Definition :=
  node .assertStatement
    (.alt (all [word "assert", .rule .expression, mark ";"])
      (all [word "assert", .rule .expression, mark ":", .rule .expression, mark ";"]))

/-- The condition of a statement. -/
def condition : Form := .as .condition (.rule .parenthesizedExpression)

/-! ## Branches and loops -/

/-- A branch. -/
def ifStatement : Definition :=
  (node .ifStatement
    (all
      [word "if", condition, .as .consequence (.rule .statement),
        opt (.seq (word "else") (.as .alternative (.rule .statement)))])).onLevel 0 .right

/-- A loop that tests first. -/
def whileStatement : Definition :=
  node .whileStatement (all [word "while", condition, .as .body (.rule .statement)])

/-- A loop that tests last. -/
def doStatement : Definition :=
  node .doStatement
    (all [word "do", .as .body (.rule .statement), word "while", condition, mark ";"])

/-- A loop that counts. A first expression may end before the word `when`, so that after a
single name this word is never the name of a variable. -/
def forStatement : Definition :=
  let first : Form := .before (.word "when") (.as .init (.rule .expression))
  node .forStatement
    (all
      [word "for", mark "(",
        .alt (.as .init (.rule .localVariableDeclaration))
          (.seq (opt (.seq first (many (.seq (mark ",") (.as .init (.rule .expression))))))
            (mark ";")),
        .as .condition (opt (.rule .expression)), mark ";",
        commas (.as .update (.rule .expression)), mark ")", .as .body (.rule .statement)])

/-- A loop over the elements of something. -/
def enhancedForStatement : Definition :=
  node .enhancedForStatement
    (all
      [word "for", mark "(", opt (.rule .modifiers), .as .type (.rule .unannotatedType),
        .rule .variableDeclaratorId, mark ":", .as .value (.rule .expression), mark ")",
        .as .body (.rule .statement)])

/-! ## Jumps -/

/-- Leaves a loop or a switch. -/
def breakStatement : Definition :=
  node .breakStatement (all [word "break", opt plainName, mark ";"])

/-- Goes on with a loop. -/
def continueStatement : Definition :=
  node .continueStatement (all [word "continue", opt plainName, mark ";"])

/-- Leaves a method. -/
def returnStatement : Definition :=
  node .returnStatement (all [word "return", opt (.rule .expression), mark ";"])

/-- Leaves a switch with a value. -/
def yieldStatement : Definition :=
  node .yieldStatement (all [word "yield", .rule .expression, mark ";"])

/-- Throws an exception. -/
def throwStatement : Definition :=
  node .throwStatement (all [word "throw", .rule .expression, mark ";"])

/-! ## Locks and exceptions -/

/-- A block under a lock. -/
def synchronizedStatement : Definition :=
  node .synchronizedStatement
    (all [word "synchronized", .rule .parenthesizedExpression, .as .body (.rule .block)])

/-- A block whose exceptions are handled. -/
def tryStatement : Definition :=
  node .tryStatement
    (all
      [word "try", .as .body (.rule .block),
        .alt (.repeated (.rule .catchClause))
          (.seq (many (.rule .catchClause)) (.rule .finallyClause))])

/-- Handles exceptions of some types. -/
def catchClause : Definition :=
  node .catchClause
    (all
      [word "catch", inParens (.rule .catchFormalParameter), .as .body (.rule .block)])

/-- The exception that is handled. -/
def catchFormalParameter : Definition :=
  node .catchFormalParameter
    (all [opt (.rule .modifiers), .rule .catchType, .rule .variableDeclaratorId])

/-- The types of exceptions that are handled. -/
def catchType : Definition := node .catchType (sepBy1 (.rule .unannotatedType) "|")

/-- What is done in any case. -/
def finallyClause : Definition :=
  node .finallyClause (.seq (word "finally") (.rule .block))

/-- A block whose resources are closed after it. -/
def tryWithResourcesStatement : Definition :=
  node .tryWithResourcesStatement
    (all
      [word "try", .as .resources (.rule .resourceSpecification), .as .body (.rule .block),
        many (.rule .catchClause), opt (.rule .finallyClause)])

/-- The resources of a block. -/
def resourceSpecification : Definition :=
  node .resourceSpecification
    (inParens (.seq (sepBy1 (.rule .resource) ";") (opt (mark ";"))))

/-- A resource: a variable that is declared here, or one that exists. -/
def resource : Definition :=
  node .resource
    (oneOf
      [all
          [opt (.rule .modifiers), .as .type (.rule .unannotatedType),
            .rule .variableDeclaratorId, mark "=", .as .value (.rule .expression)],
        plainName, .rule .fieldAccess])

/-! ## Variables -/

/-- What declares variables. -/
def variableDeclaration (kind : Kind) : Definition :=
  node kind
    (all
      [opt (.rule .modifiers), .as .type (.rule .unannotatedType),
        .rule .variableDeclaratorList, mark ";"])

/-- A declaration of local variables. -/
def localVariableDeclaration : Definition := variableDeclaration .localVariableDeclaration

/-- The variables of a declaration. -/
def variableDeclaratorList : Definition :=
  group (commas1 (.as .declarator (.rule .variableDeclarator)))

/-- A variable, with a value or without. -/
def variableDeclarator : Definition :=
  node .variableDeclarator
    (.seq (.rule .variableDeclaratorId) (opt (.seq (mark "=") (.as .value initialValue))))

/-- The name of a variable and the brackets after it. -/
def variableDeclaratorId : Definition :=
  group
    (.seq (.as .name (oneOf [plainName, .rule .reservedIdentifier, word "_"]))
      (.as .dimensions (opt (.rule .dimensions))))

end CallOrigins.Java.Grammar
