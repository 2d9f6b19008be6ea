import CallOrigins.Java.Grammar.Statements

/-!
# Declarations
-/

namespace CallOrigins.Java.Grammar

open Form Definition

/-! ## The source file -/

/-- A source file. -/
def program : Definition := node .program (many (.rule .toplevelStatement))

/-- What may stand in a source file: statements, declarations and methods. -/
def toplevelStatement : Definition :=
  group (.alt (.rule .statement) (.rule .methodDeclaration))

/-- A declaration that may stand among statements. -/
def declaration : Definition :=
  (group
    (oneOf
      [.rule .moduleDeclaration, .rule .packageDeclaration, .rule .importDeclaration,
        .rule .classDeclaration, .rule .recordDeclaration, .rule .interfaceDeclaration,
        .rule .annotationTypeDeclaration, .rule .enumDeclaration])).onLevel 2 .neither

/-- The package of a source file. -/
def packageDeclaration : Definition :=
  node .packageDeclaration
    (all [many (.rule .annotationUse), word "package", dottedName, mark ";"])

/-- An import. -/
def importDeclaration : Definition :=
  node .importDeclaration
    (all
      [word "import", opt (word "static"), dottedName,
        opt (.seq (mark ".") (.rule .asterisk)), mark ";"])

/-- The mark for all names. -/
def asterisk : Definition := node .asterisk (mark "*")

/-! ## Modules -/

/-- A module. -/
def moduleDeclaration : Definition :=
  node .moduleDeclaration
    (all
      [many (.rule .annotationUse), opt (word "open"), word "module", .as .name dottedName,
        .as .body (.rule .moduleBody)])

/-- What a module requires and offers. -/
def moduleBody : Definition := node .moduleBody (inBraces (many (.rule .moduleDirective)))

/-- One thing that a module requires or offers. -/
def moduleDirective : Definition :=
  group
    (oneOf
      [.rule .requiresDirective, .rule .exportsDirective, .rule .opensDirective,
        .rule .usesDirective, .rule .providesDirective])

/-- A module that is required. -/
def requiresDirective : Definition :=
  node .moduleDirective
    (all [word "requires", many (.rule .requiresModifier), dottedName, mark ";"])

/-- In which way a module is required. -/
def requiresModifier : Definition := node .requiresModifier (wordOf ["transitive", "static"])

/-- A package that is given to some modules or to all. -/
def packageDirective (keyword : String) : Definition :=
  node .moduleDirective
    (all
      [word keyword, dottedName,
        opt (all [word "to", dottedName, many (.seq (mark ",") dottedName)]), mark ";"])

/-- A package that is exported. -/
def exportsDirective : Definition := packageDirective "exports"

/-- A package that is opened. -/
def opensDirective : Definition := packageDirective "opens"

/-- A service that is used. -/
def usesDirective : Definition :=
  node .moduleDirective (all [word "uses", dottedName, mark ";"])

/-- A service that is provided. -/
def providesDirective : Definition :=
  node .moduleDirective
    (all
      [word "provides", dottedName, word "with", dottedName,
        many (.seq (mark ",") dottedName), mark ";"])

/-! ## Types -/

/-- Modifiers and annotations of a declaration. -/
def modifiers : Definition :=
  node .modifiers
    (.repeated
      (oneOf
        [.rule .annotationUse,
          wordOf
            ["public", "protected", "private", "abstract", "static", "final", "strictfp",
              "default", "synchronized", "native", "transient", "volatile", "sealed"],
          mark "non-sealed"]))

/-- The name of a declaration. -/
def declaredName : Form := .as .name plainName

/-- The type parameters of a declaration, if there are any. -/
def declaredParameters : Form := .as .typeParameters (opt (.rule .typeParameters))

/-- The interfaces that a type implements, if there are any. -/
def implemented : Form := .as .interfaces (opt (.rule .superInterfaces))

/-- The types that may extend a type, if they are listed. -/
def permitted : Form := .as .permits (opt (.rule .permits))

/-- A class. -/
def classDeclaration : Definition :=
  node .classDeclaration
    (all
      [opt (.rule .modifiers), word "class", declaredName, declaredParameters,
        .as .superclass (opt (.rule .superclass)), implemented, permitted,
        .as .body (.rule .classBody)])

/-- The class that a class extends. -/
def superclass : Definition := node .superclass (.seq (word "extends") (.rule .type))

/-- The interfaces that a type implements. -/
def superInterfaces : Definition :=
  node .superInterfaces (.seq (word "implements") (.rule .typeList))

/-- The types that may extend a type. -/
def permits : Definition := node .permits (.seq (word "permits") (.rule .typeList))

/-- A record. -/
def recordDeclaration : Definition :=
  node .recordDeclaration
    (all
      [opt (.rule .modifiers), word "record", declaredName, declaredParameters,
        .as .parameters (.rule .formalParameters), implemented, .as .body (.rule .classBody)])

/-- An interface. -/
def interfaceDeclaration : Definition :=
  node .interfaceDeclaration
    (all
      [opt (.rule .modifiers), word "interface", declaredName, declaredParameters,
        opt (.rule .extendsInterfaces), permitted, .as .body (.rule .interfaceBody)])

/-- The interfaces that an interface extends. -/
def extendsInterfaces : Definition :=
  node .extendsInterfaces (.seq (word "extends") (.rule .typeList))

/-- An enumeration. -/
def enumDeclaration : Definition :=
  node .enumDeclaration
    (all
      [opt (.rule .modifiers), word "enum", declaredName, implemented,
        .as .body (.rule .enumBody)])

/-- A constant of an enumeration. -/
def enumConstant : Definition :=
  node .enumConstant
    (all
      [opt (.rule .modifiers), declaredName, .as .arguments (opt (.rule .argumentList)),
        .as .body (opt (.rule .classBody))])

/-- A type of annotations. -/
def annotationTypeDeclaration : Definition :=
  node .annotationTypeDeclaration
    (all
      [opt (.rule .modifiers), mark "@interface", declaredName,
        .as .body (.rule .annotationTypeBody)])

/-! ## Bodies -/

/-- A member of a class. -/
def member : Form :=
  oneOf
    [.rule .fieldDeclaration, .rule .recordDeclaration, .rule .methodDeclaration,
      .rule .compactConstructorDeclaration, .rule .classDeclaration,
      .rule .interfaceDeclaration, .rule .annotationTypeDeclaration, .rule .enumDeclaration,
      .rule .block, .rule .staticInitializer, .rule .constructorDeclaration, mark ";"]

/-- The body of a class or record. -/
def classBody : Definition := node .classBody (inBraces (many member))

/-- The body of an interface. -/
def interfaceBody : Definition :=
  node .interfaceBody
    (inBraces
      (many
        (oneOf
          [.rule .constantDeclaration, .rule .enumDeclaration, .rule .methodDeclaration,
            .rule .classDeclaration, .rule .interfaceDeclaration, .rule .recordDeclaration,
            .rule .annotationTypeDeclaration, mark ";"])))

/-- The body of an enumeration: its constants, then members. -/
def enumBody : Definition :=
  node .enumBody
    (inBraces
      (all
        [commas (.rule .enumConstant), opt (mark ","), opt (.rule .enumBodyDeclarations)]))

/-- The members of an enumeration. -/
def enumBodyDeclarations : Definition :=
  node .enumBodyDeclarations (.seq (mark ";") (many member))

/-- The body of a type of annotations. -/
def annotationTypeBody : Definition :=
  node .annotationTypeBody
    (inBraces
      (many
        (oneOf
          [.rule .annotationTypeElementDeclaration, .rule .constantDeclaration,
            .rule .classDeclaration, .rule .interfaceDeclaration, .rule .enumDeclaration,
            .rule .annotationTypeDeclaration, mark ";"])))

/-- An element of a type of annotations. -/
def annotationTypeElementDeclaration : Definition :=
  node .annotationTypeElementDeclaration
    (all
      [opt (.rule .modifiers), .as .type (.rule .unannotatedType), .as .name name, mark "(",
        mark ")", .as .dimensions (opt (.rule .dimensions)), opt (.rule .defaultValue),
        mark ";"])

/-- The value of an element that is not given. -/
def defaultValue : Definition :=
  group (.seq (word "default") (.as .value (.rule .elementValue)))

/-! ## Members -/

/-- Fields of a class. -/
def fieldDeclaration : Definition := variableDeclaration .fieldDeclaration

/-- Constants of an interface. -/
def constantDeclaration : Definition := variableDeclaration .constantDeclaration

/-- A block that runs when a class is loaded. -/
def staticInitializer : Definition :=
  node .staticInitializer (.seq (word "static") (.rule .block))

/-- A method. -/
def methodDeclaration : Definition :=
  node .methodDeclaration
    (all
      [opt (.rule .modifiers), .rule .methodHeader,
        .alt (.as .body (.rule .block)) (mark ";")])

/-- A method without its body. -/
def methodHeader : Definition :=
  group
    (all
      [opt
          (.seq (.as .typeParameters (.rule .typeParameters)) (many (.rule .annotationUse))),
        .as .type (.rule .unannotatedType), .rule .methodDeclarator,
        opt (.rule .throwsClause)])

/-- The name and the parameters of a method. -/
def methodDeclarator : Definition :=
  group
    (all
      [.as .name name, .as .parameters (.rule .formalParameters),
        .as .dimensions (opt (.rule .dimensions))])

/-- The parameters of a method. -/
def formalParameters : Definition :=
  node .formalParameters
    (inParens
      (.alt (.rule .receiverParameter)
        (.seq (opt (.seq (.rule .receiverParameter) (mark ",")))
          (commas (.alt (.rule .formalParameter) (.rule .spreadParameter))))))

/-- A parameter. -/
def formalParameter : Definition :=
  node .formalParameter
    (all
      [opt (.rule .modifiers), .as .type (.rule .unannotatedType),
        .rule .variableDeclaratorId])

/-- The object that a method is called on, as a parameter. -/
def receiverParameter : Definition :=
  node .receiverParameter
    (all
      [many (.rule .annotationUse), .rule .unannotatedType,
        many (.seq plainName (mark ".")), word "this"])

/-- A parameter for any number of arguments. -/
def spreadParameter : Definition :=
  node .spreadParameter
    (all
      [opt (.rule .modifiers), .rule .unannotatedType, mark "...",
        many (.rule .annotationUse), .rule .variableDeclarator])

/-- The exceptions that a method declares. -/
def throwsClause : Definition :=
  node .throwsClause (.seq (word "throws") (commas1 (.rule .type)))

/-- A constructor. -/
def constructorDeclaration : Definition :=
  node .constructorDeclaration
    (all
      [opt (.rule .modifiers), .rule .constructorDeclarator, opt (.rule .throwsClause),
        .as .body (.rule .constructorBody)])

/-- The name and the parameters of a constructor. -/
def constructorDeclarator : Definition :=
  group
    (all [declaredParameters, declaredName, .as .parameters (.rule .formalParameters)])

/-- A constructor of a record, whose parameters are those of the record. -/
def compactConstructorDeclaration : Definition :=
  node .compactConstructorDeclaration
    (all [opt (.rule .modifiers), declaredName, .as .body (.rule .block)])

/-- The body of a constructor, which may first call another one. -/
def constructorBody : Definition :=
  node .constructorBody
    (inBraces
      (.seq (opt (.rule .explicitConstructorInvocation)) (many (.rule .statement))))

/-- The call of another constructor. -/
def explicitConstructorInvocation : Definition :=
  let typed : Form := .as .typeArguments (opt (.rule .typeArguments))
  node .explicitConstructorInvocation
    (all
      [.alt
          (.seq typed (.as .constructor (.alt (word "this") (word "super"))))
          (all
            [.as .object (.rule .primaryExpression), mark ".", typed,
              .as .constructor (word "super")]),
        .as .arguments (.rule .argumentList), mark ";"])

end CallOrigins.Java.Grammar
