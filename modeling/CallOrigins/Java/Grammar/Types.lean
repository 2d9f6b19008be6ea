import CallOrigins.Java.Grammar.Form

/-!
# Types and annotations
-/

namespace CallOrigins.Java.Grammar

open Form Definition

/-! ## Names -/

/-- A name, with points or without. -/
def dottedName : Form := oneOf [plainName, .rule .reservedIdentifier, .rule .scopedIdentifier]

/-- A name with points. -/
def scopedIdentifier : Definition :=
  node .scopedIdentifier (all [.as .scope dottedName, mark ".", .as .name plainName])

/-- Keywords that may be names. -/
def reservedIdentifier : Definition :=
  let named (texts : List String) : Form := .shown .identifier (wordOf texts)
  ⟨none,
    [⟨named ["open", "module", "record", "with", "sealed"], -3, .neither, 0⟩,
      ⟨named ["yield"], 0, .neither, 0⟩]⟩

/-! ## Types -/

/-- A type that is no array. -/
def simpleType : Form :=
  oneOf
    [word "void", .rule .integralType, .rule .floatingPointType, word "boolean", typeName,
      .rule .scopedTypeIdentifier, .rule .genericType]

/-- A type. -/
def type : Definition := group (.alt (.rule .unannotatedType) (.rule .annotatedType))

/-- A type without annotations in front. -/
def unannotatedType : Definition := group (.alt simpleType (.rule .arrayType))

/-- A type with annotations in front. -/
def annotatedType : Definition :=
  node .annotatedType (.seq (.repeated (.rule .annotationUse)) (.rule .unannotatedType))

/-- A type within another. -/
def scopedTypeIdentifier : Definition :=
  node .scopedTypeIdentifier
    (all
      [oneOf [typeName, .rule .scopedTypeIdentifier, .rule .genericType], mark ".",
        many (.rule .annotationUse), typeName])

/-- A type with arguments. -/
def genericType : Definition :=
  (node .genericType
    (.seq (.alt typeName (.rule .scopedTypeIdentifier)) (.rule .typeArguments))).weighing 10

/-- An array type. -/
def arrayType : Definition :=
  node .arrayType
    (.seq (.as .element (.rule .unannotatedType)) (.as .dimensions (.rule .dimensions)))

/-- The types of whole numbers. -/
def integralType : Definition :=
  node .integralType (wordOf ["byte", "short", "int", "long", "char"])

/-- The types of fractional numbers. -/
def floatingPointType : Definition := node .floatingPointType (wordOf ["float", "double"])

/-- Type arguments, possibly none. -/
def typeArguments : Definition :=
  node .typeArguments
    (all [mark "<", commas (.alt (.rule .type) (.rule .wildcard)), mark ">"])

/-- A wildcard among type arguments. -/
def wildcard : Definition :=
  node .wildcard
    (all [many (.rule .annotationUse), mark "?", opt (.rule .wildcardBounds)])

/-- What a wildcard is bounded by. -/
def wildcardBounds : Definition :=
  group
    (.alt (.seq (word "extends") (.rule .type)) (.seq (word "super") (.rule .type)))

/-- Empty brackets, as many as there are. -/
def dimensions : Definition :=
  (node .dimensions
    (.repeated (all [many (.rule .annotationUse), mark "[", mark "]"]))).onLevel 0 .right

/-- Types with commas between. -/
def typeList : Definition := node .typeList (commas1 (.rule .type))

/-- Type parameters of a declaration. -/
def typeParameters : Definition :=
  node .typeParameters (all [mark "<", commas1 (.rule .typeParameter), mark ">"])

/-- A type parameter. -/
def typeParameter : Definition :=
  node .typeParameter
    (all [many (.rule .annotationUse), typeName, opt (.rule .typeBound)])

/-- The types that bound a type parameter. -/
def typeBound : Definition :=
  node .typeBound (.seq (word "extends") (sepBy1 (.rule .type) "&"))

/-! ## Annotations -/

/-- An annotation. -/
def annotationUse : Definition :=
  group (.alt (.rule .annotationMarker) (.rule .annotationWithArguments))

/-- An annotation without arguments. -/
def annotationMarker : Definition :=
  node .annotationMarker (.seq (mark "@") (.as .name dottedName))

/-- An annotation with arguments. -/
def annotationWithArguments : Definition :=
  node .annotationWithArguments
    (all
      [mark "@", .as .name dottedName, .as .arguments (.rule .annotationArgumentList)])

/-- The arguments of an annotation: one value, or values with keys. -/
def annotationArgumentList : Definition :=
  node .annotationArgumentList
    (inParens (.alt (.rule .elementValue) (commas (.rule .elementValuePair))))

/-- A value with a key. -/
def elementValuePair : Definition :=
  node .elementValuePair
    (all [.as .key name, mark "=", .as .value (.rule .elementValue)])

/-- What may be given to an annotation. -/
def elementValue : Definition :=
  (group
    (oneOf
      [.rule .expression, .rule .elementValueArrayInitializer,
        .rule .annotationUse])).onLevel 2 .neither

/-- Several values in braces. -/
def elementValueArrayInitializer : Definition :=
  node .elementValueArrayInitializer
    (inBraces (.seq (commas (.rule .elementValue)) (opt (mark ","))))

end CallOrigins.Java.Grammar
