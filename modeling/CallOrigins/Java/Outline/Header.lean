import CallOrigins.Java.Outline
import CallOrigins.Java.Tree
import CallOrigins.Java.TypeName

/-!
# Headers of declarations

What is read of a declaration without going into its body: packages, imports, supertypes,
parameters, fields.
-/

namespace CallOrigins.Java

open Text

/-! ## Types in a tree -/

/-- The kinds of nodes that are types without annotations in front. -/
def Kind.isType : Kind → Bool
  | .typeIdentifier | .scopedTypeIdentifier | .genericType | .arrayType | .integralType
  | .floatingPointType | .booleanType | .voidType => true
  | _ => false

namespace Node

/-- The erased name of a type. -/
def erased (n : Node) : String :=
  eraseType n.text

/-- The named children that are types. -/
def typeChildren (n : Node) : List Node :=
  n.children.filter (fun c => c.kind.isType)

end Node

namespace Header

/-! ## Package and imports -/

/-- The package that a declaration names. -/
def package (n : Node) : Option String :=
  let annotates (c : Node) : Bool :=
    c.kind == .annotationWithArguments || c.kind == .annotationMarker
  (n.children.find? (fun c => !annotates c)).map (fun c => compact c.text)

/-- Drops `front` from the front as often as it stands there. `fuel` of the text's length is
enough. -/
def dropRepeated (front : List Char) : Nat → List Char → List Char
  | 0, cs => cs
  | fuel + 1, cs =>
    match dropFront? front cs with
    | none => cs
    | some rest => dropRepeated front fuel rest

/-- What an import declaration imports. -/
inductive Import where
  | single (name : String)
  | wildcard (name : String)
  | static (type member : String)
  deriving DecidableEq, Repr

/-- The import that a declaration makes. All members of a type imported at once are not kept,
nor is a static import of a name without a point. -/
def import? (n : Node) : Option Import :=
  let text := trimChars n.text.toList
  let noKeyword := dropRepeated "import".toList text.length text
  let noEnd := (dropRepeated [';'] noKeyword.length noKeyword.reverse).reverse
  let body := trimChars noEnd
  let (isStatic, rest) : Bool × List Char :=
    match dropFront? "static".toList body with
    | some (c :: cs) => if isBlank c then (true, c :: cs) else (false, body)
    | _ => (false, body)
  let path := compactChars rest
  match dropBack? ".*".toList path with
  | some package => if isStatic then none else some (.wildcard (String.ofList package))
  | none =>
    if isStatic then
      (cutLast '.' path).map
        (fun (type, member) => .static (String.ofList type) (String.ofList member))
    else some (.single (String.ofList path))

/-! ## Types -/

/-- The kind of type that a node declares. -/
def typeKind? : Kind → Option TypeKind
  | .classDeclaration => some .classType
  | .interfaceDeclaration => some .interfaceType
  | .enumDeclaration => some .enumType
  | .recordDeclaration => some .recordType
  | _ => none

/-- The superclass and the interfaces of a type. -/
def supertypes (n : Node) : List String :=
  let superclass :=
    match n.child? .superclass with
    | none => []
    | some s => (s.typeChildren.take 1).map Node.erased
  let interfaces :=
    match (n.child? .interfaces).or (n.childOfKind? .extendsInterfaces) with
    | none => []
    | some i =>
      match i.childOfKind? .typeList with
      | none => []
      | some list => list.typeChildren.map Node.erased
  superclass ++ interfaces

/-- The names of type parameters. -/
def typeParameters (n : Node) : List String :=
  (n.children.filter (fun p => p.kind == .typeParameter)).filterMap (fun p =>
    (p.children.find? (fun c => c.kind == .typeIdentifier || c.kind == .identifier)).map
      Node.text)

/-! ## Parameters and fields -/

/-- The type and the name of one parameter. -/
def parameter? (p : Node) : Option (String × String) :=
  match p.kind with
  | .formalParameter =>
    match p.child? .type, p.child? .name with
    | some type, some name =>
      let dims := ((p.child? .dimensions).map (fun d => compact d.text)).getD ""
      some (type.erased ++ dims, name.text)
    | _, _ => none
  | .spreadParameter =>
    match p.typeChildren.head?, (p.childOfKind? .variableDeclarator).bind (·.child? .name) with
    | some type, some name => some (type.erased ++ "...", name.text)
    | _, _ => none
  | _ => none

/-- The types and names of parameters. -/
def parameters (n : Node) : List (String × String) :=
  n.children.filterMap parameter?

/-- The names of the variables that a declaration introduces. -/
def declaratorNames (n : Node) : List String :=
  (n.childrenAs .declarator).filterMap (fun d => (d.child? .name).map Node.text)

mutual
/-- The fields that a member of a type declares. -/
def fieldsOf : Node → List (String × String)
  | .leaf _ _ _ => []
  | .branch r k parts =>
    match k with
    | .fieldDeclaration | .constantDeclaration =>
      let n := Node.branch r k parts
      match n.child? .type with
      | none => []
      | some type => (declaratorNames n).map (fun name => (name, type.erased))
    | .enumBodyDeclarations => fieldsOfAll parts
    | _ => []
/-- The fields that the members of a type declare, with their types. -/
def fieldsOfAll : List Node → List (String × String)
  | [] => []
  | m :: ms => fieldsOf m ++ fieldsOfAll ms
end

end Header
end CallOrigins.Java
