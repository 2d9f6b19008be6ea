import CallOrigins.Java.Grammar.Types

/-!
# Expressions

Operators bind by their levels: an assignment is the loosest, then the conditional, then the
binary operators, a cast, and the signs. An arrow and what follows it extend as far as they can.

A name in round brackets may be an operand or the type of a cast; which of the two is told by
what follows, or else by the weight and the order of the rules.
-/

namespace CallOrigins.Java.Grammar

open Form Definition

/-- An expression. A test for a type may end before the word `when`, so that after the type this
word is never a name. -/
def expression : Definition :=
  group
    (oneOf
      [.rule .assignmentExpression, .rule .binaryExpression,
        .before (.word "when") (.rule .instanceofExpression), .rule .lambdaExpression,
        .rule .ternaryExpression, .rule .updateExpression, .rule .primaryExpression,
        .rule .unaryExpression, .rule .castExpression, .rule .switchExpression])

/-! ## Operators -/

/-- A cast, to one type or to several at once. -/
def castExpression : Definition :=
  (node .castExpression
    (.alt
      (all
        [mark "(", .as .type (.rule .type), mark ")", .as .value (.rule .expression)])
      (all
        [mark "(", sepBy1 (.as .type (.rule .type)) "&", mark ")",
          .as .value (.alt (.rule .primaryExpression) (.rule .lambdaExpression))]))).onLevel
    14 .neither

/-- The operators of assignment. -/
def assignmentOperators : List String :=
  ["=", "+=", "-=", "*=", "/=", "&=", "|=", "^=", "%=", "<<=", ">>=", ">>>="]

/-- An assignment. -/
def assignmentExpression : Definition :=
  (node .assignmentExpression
    (all
      [.as .left
          (oneOf
            [plainName, .rule .reservedIdentifier, .rule .fieldAccess, .rule .arrayAccess]),
        .as .operator (oneOf (assignmentOperators.map mark)),
        .as .right (.rule .expression)])).onLevel 1 .right

/-- The binary operators with their levels. -/
def binaryOperators : List (String × Int) :=
  [(">", 10), ("<", 10), (">=", 10), ("<=", 10), ("==", 9), ("!=", 9), ("&&", 5), ("||", 4),
    ("+", 12), ("-", 12), ("*", 13), ("/", 13), ("&", 8), ("|", 6), ("^", 7), ("%", 13),
    ("<<", 11), (">>", 11), (">>>", 11)]

/-- Two operands of a binary operator. -/
def binaryExpression : Definition :=
  let operation (operator : String) : Form :=
    all
      [.as .left (.rule .expression), .as .operator (mark operator),
        .as .right (.rule .expression)]
  ⟨some .binaryExpression,
    binaryOperators.map (fun (operator, level) => ⟨operation operator, level, .left, 0⟩)⟩

/-- A test for a type, which may also name the value or take it apart. -/
def instanceofExpression : Definition :=
  (node .instanceofExpression
    (all
      [.as .left (.rule .expression), word "instanceof", opt (word "final"),
        .alt (.seq (.as .right (.rule .type)) (opt (.as .name name)))
          (.as .pattern (.rule .recordPattern))])).onLevel 10 .neither

/-- A conditional. -/
def ternaryExpression : Definition :=
  (node .ternaryExpression
    (all
      [.as .condition (.rule .expression), mark "?", .as .consequence (.rule .expression),
        mark ":", .as .alternative (.rule .expression)])).onLevel 3 .right

/-- An operand with a sign. -/
def unaryExpression : Definition :=
  (node .unaryExpression
    (oneOf
      (["+", "-", "!", "~"].map fun operator =>
        .seq (.as .operator (mark operator)) (.as .operand (.rule .expression))))).onLevel
    15 .left

/-- An increment or decrement. -/
def updateExpression : Definition :=
  (node .updateExpression
    (oneOf
      [.seq (.rule .expression) (mark "++"), .seq (.rule .expression) (mark "--"),
        .seq (mark "++") (.rule .expression), .seq (mark "--") (.rule .expression)])).onLevel
    15 .left

/-- A lambda expression. -/
def lambdaExpression : Definition :=
  node .lambdaExpression
    (all
      [.as .parameters
          (oneOf
            [plainName, .rule .formalParameters, .rule .inferredParameters,
              .rule .reservedIdentifier]),
        mark "->", .as .body (.alt (.rule .expression) (.rule .block))])

/-- Parameters without types. -/
def inferredParameters : Definition := node .inferredParameters (inParens (commas1 name))

/-! ## Operands -/

/-- A literal. -/
def literal : Definition :=
  group
    (oneOf
      [.token .number, .token .character, word "true", word "false", .rule .stringLiteral,
        word "null"])

/-- A string or text block, with embedded expressions or without. -/
def stringLiteral : Definition :=
  let embedding (first middle last : Terminal) : Form :=
    all
      [.token first, .rule .expression, many (.seq (.token middle) (.rule .expression)),
        .token last]
  node .stringLiteral
    (oneOf
      [.token .string, .token .textBlock, embedding .stringHead .stringPart .stringTail,
        embedding .blockHead .blockPart .blockTail])

/-- An operand to which a point or a bracket may be added. -/
def primaryExpression : Definition :=
  group
    (oneOf
      [.rule .literal, .rule .classLiteral, word "this", plainName, .rule .reservedIdentifier,
        .rule .parenthesizedExpression, .rule .objectCreationExpression, .rule .fieldAccess,
        .rule .arrayAccess, .rule .methodInvocation, .rule .methodReference,
        .rule .arrayCreationExpression, .rule .templateExpression])

/-- The creation of an array. -/
def arrayCreationExpression : Definition :=
  (node .arrayCreationExpression
    (all
      [word "new", many (.rule .annotationUse), .as .type simpleType,
        .alt
          (.seq (.as .dimensions (.repeated (.rule .dimensionsExpr)))
            (.as .dimensions (opt (.rule .dimensions))))
          (.seq (.as .dimensions (.rule .dimensions))
            (.as .value (.rule .arrayInitializer)))])).onLevel 0 .right

/-- A dimension of an array that is created. -/
def dimensionsExpr : Definition :=
  node .dimensionsExpr
    (all [many (.rule .annotationUse), mark "[", .rule .expression, mark "]"])

/-- An expression in round brackets. -/
def parenthesizedExpression : Definition :=
  node .parenthesizedExpression (inParens (.rule .expression))

/-- The class of a type. -/
def classLiteral : Definition :=
  (node .classLiteral (all [.rule .unannotatedType, mark ".", word "class"])).weighing 17

/-- The creation of an object. -/
def objectCreationExpression : Definition :=
  node .objectCreationExpression
    (.alt (.rule .unqualifiedCreation)
      (all [.rule .primaryExpression, mark ".", .rule .unqualifiedCreation]))

/-- The creation of an object, from the keyword on. -/
def unqualifiedCreation : Definition :=
  (group
    (all
      [word "new",
        .alt
          (all
            [many (.rule .annotationUse), .as .typeArguments (.rule .typeArguments),
              many (.rule .annotationUse)])
          (many (.rule .annotationUse)),
        .as .type simpleType, .as .arguments (.rule .argumentList),
        opt (.rule .classBody)])).onLevel 0 .right

/-- Something with members: an operand, or the keyword `super`. -/
def memberOwner : Form := .as .object (.alt (.rule .primaryExpression) (word "super"))

/-- A member that is not called. -/
def fieldAccess : Definition :=
  node .fieldAccess
    (all
      [memberOwner, opt (.seq (mark ".") (word "super")), mark ".",
        .as .field (oneOf [plainName, .rule .reservedIdentifier, word "this"])])

/-- A string that a processor is applied to. -/
def templateExpression : Definition :=
  node .templateExpression
    (all
      [.as .processor (.rule .primaryExpression), mark ".",
        .as .template (.rule .stringLiteral)])

/-- An element of an array. -/
def arrayAccess : Definition :=
  node .arrayAccess
    (all
      [.as .array (.rule .primaryExpression), mark "[", .as .index (.rule .expression),
        mark "]"])

/-- The call of a method. -/
def methodInvocation : Definition :=
  node .methodInvocation
    (.seq
      (.alt (.as .name name)
        (all
          [memberOwner, mark ".", opt (.seq (word "super") (mark ".")),
            .as .typeArguments (opt (.rule .typeArguments)), .as .name name]))
      (.as .arguments (.rule .argumentList)))

/-- The arguments of a call. -/
def argumentList : Definition :=
  node .argumentList (inParens (commas (.rule .expression)))

/-- A method or constructor that is referred to. -/
def methodReference : Definition :=
  node .methodReference
    (all
      [oneOf [.rule .type, .rule .primaryExpression, word "super"], mark "::",
        opt (.rule .typeArguments), .alt (word "new") plainName])

/-- A value of a variable or of an element. -/
def initialValue : Form := .alt (.rule .expression) (.rule .arrayInitializer)

/-- The elements of an array. -/
def arrayInitializer : Definition :=
  node .arrayInitializer (inBraces (.seq (commas initialValue) (opt (mark ","))))

/-! ## Switches -/

/-- A switch, which is also a statement. -/
def switchExpression : Definition :=
  node .switchExpression
    (all
      [word "switch", .as .condition (.rule .parenthesizedExpression),
        .as .body (.rule .switchBlock)])

/-- The cases of a switch, all of them with colons or all with arrows. -/
def switchBlock : Definition :=
  node .switchBlock
    (inBraces
      (.alt (many (.rule .switchBlockStatementGroup)) (many (.rule .switchRule))))

/-- Labels and the statements after them. -/
def switchBlockStatementGroup : Definition :=
  (node .switchBlockStatementGroup
    (.seq (.repeated (.seq (.rule .switchLabel) (mark ":")))
      (many (.rule .statement)))).onLevel 0 .left

/-- A label with an arrow. -/
def switchRule : Definition :=
  node .switchRule
    (all
      [.rule .switchLabel, mark "->",
        oneOf [.rule .expressionStatement, .rule .throwStatement, .rule .block]])

/-- A label. -/
def switchLabel : Definition :=
  node .switchLabel
    (.alt
      (all
        [word "case", .alt (.rule .pattern) (commas1 (.rule .expression)),
          opt (.rule .guard)])
      (word "default"))

/-- A pattern. -/
def pattern : Definition :=
  node .pattern (.alt (.rule .typePattern) (.rule .recordPattern))

/-- A pattern that names a value of a type. -/
def typePattern : Definition := node .typePattern (.seq (.rule .unannotatedType) name)

/-- A pattern that takes a record apart. -/
def recordPattern : Definition :=
  node .recordPattern
    (.seq (oneOf [plainName, .rule .reservedIdentifier, .rule .genericType])
      (.rule .recordPatternBody))

/-- The patterns of the parts of a record. -/
def recordPatternBody : Definition :=
  node .recordPatternBody
    (inParens (commas (.alt (.rule .recordPatternComponent) (.rule .recordPattern))))

/-- The pattern of a part that is not taken apart itself. -/
def recordPatternComponent : Definition :=
  node .recordPatternComponent (.alt (word "_") (.seq (.rule .unannotatedType) name))

/-- A condition on a label. -/
def guard : Definition := node .guard (.seq (word "when") (.rule .expression))

end CallOrigins.Java.Grammar
