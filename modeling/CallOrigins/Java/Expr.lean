/-!
# Argument expressions

The expressions that a report shows as the arguments of a call, and their text in one line.
The text is for reading: an array initializer stops after three elements, and the bodies of
anonymous classes and of lambda expressions with several statements are left out. Each of
these omissions is announced by `...`.
-/

namespace CallOrigins.Java

mutual
/-- An expression. Types, parameters and everything that no other constructor fits are kept
as text. -/
inductive Expr where
  | literal (text : String)
  /-- A name, `this` or `super`. -/
  | name (text : String)
  | classLiteral (text : String)
  | call (receiver : Option Expr) (name : String) (args : List Expr)
  | creation (type : String) (args : List Expr) (hasBody : Bool)
  /-- A dimension without a size is `none`. -/
  | newArray (element : String) (dimensions : List (Option Expr))
      (initializer : Option (List Expr))
  | arrayInit (items : List Expr)
  | field (object : Expr) (field : String)
  | index (array index : Expr)
  | cast (type : String) (value : Expr)
  | paren (value : Expr)
  | lambda (params : String) (body : LambdaBody)
  | methodRef (qualifier typeArgs name : String)
  | instanceOf (value : Expr) (type : String)
  | conditional (condition onTrue onFalse : Expr)
  | assign (target : Expr) (op : String) (value : Expr)
  | prefixed (op : String) (operand : Expr)
  | postfixed (operand : Expr) (op : String)
  | binary (left : Expr) (op : String) (right : Expr)
  | other (text : String)
  deriving Repr

/-- The body of a lambda expression. -/
inductive LambdaBody where
  | expr (e : Expr)
  /-- A block of one statement, or of none. -/
  | block (text : String)
  /-- A block that is left out. -/
  | elided
  deriving Repr
end

instance : Inhabited Expr := ⟨.other ""⟩

namespace Expr

/-- The number of elements of an array initializer that are shown. -/
def shownElements : Nat := 3

/-- Texts with commas between them. -/
def commaList (texts : List String) : String :=
  ", ".intercalate texts

/-- The text of an array initializer whose elements have the given texts. -/
def initializerText (texts : List String) : String :=
  "\x7b" ++ commaList (texts.take shownElements) ++
    (if shownElements < texts.length then ", ..." else "") ++ "\x7d"

mutual
/-- **The text of an expression.** -/
def render : Expr → String
  | literal s | name s | classLiteral s | other s => s
  | call receiver called args =>
    renderReceiver receiver ++ called ++ "(" ++ commaList (renderAll args) ++ ")"
  | creation type args hasBody =>
    "new " ++ type ++ "(" ++ commaList (renderAll args) ++ ")" ++
      (if hasBody then " \x7b ... \x7d" else "")
  | newArray element dimensions initializer =>
    "new " ++ element ++ renderDimensions dimensions ++ renderInitializer initializer
  | arrayInit items => initializerText (renderAll items)
  | field object member => object.render ++ "." ++ member
  | index array place => array.render ++ "[" ++ place.render ++ "]"
  | cast type value => "(" ++ type ++ ") " ++ value.render
  | paren value => "(" ++ value.render ++ ")"
  | lambda params body => params ++ " -> " ++ renderBody body
  | methodRef qualifier typeArgs called => qualifier ++ "::" ++ typeArgs ++ called
  | instanceOf value type => value.render ++ " instanceof " ++ type
  | conditional condition onTrue onFalse =>
    condition.render ++ " ? " ++ onTrue.render ++ " : " ++ onFalse.render
  | assign target op value => target.render ++ " " ++ op ++ " " ++ value.render
  | prefixed op operand => op ++ operand.render
  | postfixed operand op => operand.render ++ op
  | binary left op right => left.render ++ " " ++ op ++ " " ++ right.render

/-- The texts of expressions. -/
def renderAll : List Expr → List String
  | [] => []
  | e :: es => e.render :: renderAll es

/-- What stands before the name of a called method. -/
def renderReceiver : Option Expr → String
  | none => ""
  | some e => e.render ++ "."

/-- The text of the dimensions of a new array. -/
def renderDimensions : List (Option Expr) → String
  | [] => ""
  | none :: ds => "[]" ++ renderDimensions ds
  | some e :: ds => "[" ++ e.render ++ "]" ++ renderDimensions ds

/-- The text of the initializer of a new array. -/
def renderInitializer : Option (List Expr) → String
  | none => ""
  | some items => " " ++ initializerText (renderAll items)

/-- The text of the body of a lambda expression. -/
def renderBody : LambdaBody → String
  | .expr e => e.render
  | .block s => s
  | .elided => "\x7b ... \x7d"
end

end Expr
end CallOrigins.Java
