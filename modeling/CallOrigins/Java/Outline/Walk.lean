import CallOrigins.Java.Outline.CallSite

/-!
# From a tree to an outline

A walk over a tree collects the types, methods and calls of a file. It goes through the
declarations, and in a method through the nodes of its body. Calls outside of methods (in
initializers, or among the arguments of an enumeration's constants) are not noted, but the
classes declared there are.

The types around a node are passed down and never change on the way; the variables of a method
are passed along, and a block leaves those of the blocks around it as they were.
-/

namespace CallOrigins.Java

/-- What is known at a place from the declarations around it. -/
structure Surroundings where
  /-- The number of the line of an offset. -/
  line : Nat → Nat
  package : String
  /-- The types around the place, the innermost first. -/
  scopes : List TypeScope

/-- What a walk has found. -/
structure Found where
  types : Array TypeDecl := #[]
  methods : Array MethodDecl := #[]

namespace Found

/-- The name of a type by its number. -/
def typeName (f : Found) (id : Nat) : String :=
  (f.types[id]?.map TypeDecl.name).getD ""

/-- The simple name of a type by its number. -/
def simpleName (f : Found) (id : Nat) : String :=
  (f.types[id]?.map TypeDecl.simpleName).getD ""

/-- The number of anonymous types directly inside of a type. -/
def anonymousIn (f : Found) (outer : Nat) : Nat :=
  (f.types.toList.filter (fun t => t.kind == .anonymousType && t.outer == some outer)).length

/-- Sets the calls of a method by its number. -/
def setCalls (f : Found) (method : Nat) (calls : List Call) : Found :=
  { f with methods := f.methods.modify method (fun m => { m with calls }) }

end Found

/-- What a walk has found, and the method it is in. -/
structure Progress where
  found : Found
  body : Option Body

namespace Surroundings

/-- The type around a place. -/
def innermost? (s : Surroundings) : Option TypeScope :=
  s.scopes.head?

/-- The surroundings inside of one more type. -/
def inside (s : Surroundings) (scope : TypeScope) : Surroundings :=
  { s with scopes := scope :: s.scopes }

/-- The members of the body among the parts of a node. -/
def bodyParts (parts : List Node) : List Node :=
  match parts.find? (fun c => c.role = some .body) with
  | none => []
  | some body => body.parts

/-! ## Types and methods, without their bodies -/

/-- Notes the type that a node declares. Gives the surroundings of its members and the types of
a record's components. -/
def enterType (s : Surroundings) (f : Found) (n : Node) :
    Option (Surroundings × List String × Found) :=
  match Header.typeKind? n.kind, n.child? .name with
  | some kind, some nameNode =>
    let simpleName := nameNode.text
    let name :=
      match s.innermost? with
      | some scope => f.typeName scope.id ++ "." ++ simpleName
      | none => if s.package.isEmpty then simpleName else s.package ++ "." ++ simpleName
    let decl : TypeDecl :=
      { name, simpleName, kind, line := s.line n.start, outer := s.innermost?.map TypeScope.id
        supertypes := Header.supertypes n }
    let components :=
      if kind = .recordType then ((n.child? .parameters).map Header.parameters).getD [] else []
    let scope : TypeScope :=
      { id := f.types.size
        fields :=
          (components.map (fun (type, name) => (name, type))).reverse ++
            Header.fieldsOfAll (bodyParts n.parts)
        typeParameters := ((n.child? .typeParameters).map Header.typeParameters).getD [] }
    some (s.inside scope, components.map Prod.fst, { f with types := f.types.push decl })
  | _, _ => none

/-- Notes an anonymous type with a base and the given members. -/
def enterAnonymous (s : Surroundings) (f : Found) (base : String) (line : Nat)
    (members : List Node) : Option (Surroundings × Found) :=
  match s.innermost? with
  | none => none
  | some outer =>
    let simpleName := lastSegment base
    let ordinal := f.anonymousIn outer.id + 1
    let decl : TypeDecl :=
      { name := f.typeName outer.id ++ "$" ++ toString ordinal ++ "$" ++ simpleName
        simpleName, kind := .anonymousType, line, outer := some outer.id, supertypes := [base] }
    let scope : TypeScope :=
      { id := f.types.size, fields := Header.fieldsOfAll members, typeParameters := [] }
    some (s.inside scope, { f with types := f.types.push decl })

/-- Writes brackets for the points of a parameter that takes any number of arguments. -/
def pointsToBrackets : List Char → List Char
  | '.' :: '.' :: '.' :: cs => '[' :: ']' :: pointsToBrackets cs
  | c :: cs => c :: pointsToBrackets cs
  | [] => []

/-- The type of the variable that a parameter declares. -/
def variableType (type : String) : String :=
  String.ofList (pointsToBrackets type.toList)

/-- Notes a method without its calls. `components` are the parameters of a constructor that
writes none. Gives what is known when its body starts. -/
def enterMethod (s : Surroundings) (f : Found) (n : Node) (components : Option (List String)) :
    Option (Body × Found) :=
  match s.innermost? with
  | none => none
  | some scope =>
    let name? : Option String :=
      if n.kind = .methodDeclaration then (n.child? .name).map Node.text
      else some (f.simpleName scope.id)
    match name? with
    | none => none
    | some name =>
      let params := ((n.child? .parameters).map Header.parameters).getD []
      let empty : Body :=
        { calls := [], locals := [[]]
          typeParameters := ((n.child? .typeParameters).map Header.typeParameters).getD [] }
      let (types, body) : List String × Body :=
        match components with
        | some types => (types, empty)
        | none =>
          (params.map Prod.fst,
            params.foldl (fun b (type, name) => b.declare name (variableType type)) empty)
      let decl : MethodDecl :=
        { id := MethodId.ofParts (f.typeName scope.id) name types
          type := scope.id, start := n.start, stop := n.stop
          lineStart := s.line n.start, lineEnd := s.line n.stop, calls := [] }
      some (body, { f with methods := f.methods.push decl })

end Surroundings

/-! ## The walk -/

/-- Enters a node in the body of a method. -/
def Progress.meet (p : Progress) (s : Surroundings) (n : Node) : Progress :=
  { p with
    body := p.body.map (fun b =>
      (if n.kind.opensBlock then b.openBlock else b).meet s.line s.scopes n) }

/-- Leaves a node in the body of a method. -/
def Progress.leave (p : Progress) (k : Kind) : Progress :=
  { p with body := p.body.map (fun b => if k.opensBlock then b.closeBlock else b) }

/-- The base and the line of the anonymous type that a node may declare. -/
def creationBase (s : Surroundings) (n : Node) : Option (String × Nat) :=
  if n.kind = .objectCreationExpression then
    some (((n.child? .type).map Node.erased).getD "", s.line n.start)
  else none

mutual
/-- **The body of a method**, or of nothing: a node and all it holds. -/
def walkBody (s : Surroundings) : Node → Progress → Progress
  | .leaf _ _ _, p => p
  | .branch r k parts, p =>
    let n := Node.branch r k parts
    let p := p.meet s n
    if (Header.typeKind? k).isSome then
      match s.enterType p.found n with
      | none => p
      | some (inner, components, f) =>
        { p with found := walkTypeBody inner components parts f }
    else (walkAll s (creationBase s n) parts p).leave k
/-- The parts of a node. Where `base` is given, a class body among them is that of an anonymous
type. -/
def walkAll (s : Surroundings) (base : Option (String × Nat)) :
    List Node → Progress → Progress
  | [], p => p
  | c :: cs, p =>
    let p' :=
      match base, c with
      | some (name, line), .branch _ .classBody members =>
        match s.enterAnonymous p.found name line members with
        | none => p
        | some (inner, f) => { p with found := walkMembers inner [] members f }
      | _, c => walkBody s c p
    walkAll s base cs p'
/-- The body of a type among the parts of its declaration. -/
def walkTypeBody (s : Surroundings) (components : List String) : List Node → Found → Found
  | [], f => f
  | c :: cs, f =>
    if c.role = some .body then
      match c with
      | .leaf _ _ _ => f
      | .branch _ _ members => walkMembers s components members f
    else walkTypeBody s components cs f
/-- The members of a type. -/
def walkMembers (s : Surroundings) (components : List String) : List Node → Found → Found
  | [], f => f
  | m :: ms, f => walkMembers s components ms (walkMember s components m f)
/-- A member of a type. -/
def walkMember (s : Surroundings) (components : List String) : Node → Found → Found
  | .leaf _ _ _, f => f
  | .branch r k parts, f =>
    let n := Node.branch r k parts
    match k with
    | .methodDeclaration | .constructorDeclaration =>
      match s.enterMethod f n none with
      | none => f
      | some (b, f') => walkMethodBody s f.methods.size parts ⟨f', some b⟩
    | .compactConstructorDeclaration =>
      match s.enterMethod f n (some components) with
      | none => f
      | some (b, f') => walkMethodBody s f.methods.size parts ⟨f', some b⟩
    | .classDeclaration | .interfaceDeclaration | .enumDeclaration | .recordDeclaration =>
      match s.enterType f n with
      | none => f
      | some (inner, inside, f') => walkTypeBody inner inside parts f'
    | .enumBodyDeclarations => walkMembers s components parts f
    | .enumConstant => walkConstantBody s (s.line n.start) parts f
    | _ => (walkAll s (creationBase s n) parts ⟨f, none⟩).found
/-- The body of a method among the parts of its declaration. Sets the calls of the method. -/
def walkMethodBody (s : Surroundings) (method : Nat) : List Node → Progress → Found
  | [], p => p.found.setCalls method ((p.body.map (fun b => b.calls.reverse)).getD [])
  | c :: cs, p =>
    if c.role = some .body then
      let p' := walkBody s c p
      p'.found.setCalls method ((p'.body.map (fun b => b.calls.reverse)).getD [])
    else walkMethodBody s method cs p
/-- The body of an enumeration's constant among its parts. -/
def walkConstantBody (s : Surroundings) (line : Nat) : List Node → Found → Found
  | [], f => f
  | c :: cs, f =>
    if c.role = some .body then
      match c with
      | .leaf _ _ _ => f
      | .branch _ _ members =>
        let base := ((s.innermost?.map TypeScope.id).map f.simpleName).getD ""
        match s.enterAnonymous f base line members with
        | none => f
        | some (inner, f') => walkMembers inner [] members f'
    else walkConstantBody s line cs f
end

/-! ## The file -/

/-- Adds what one node at the top of a file declares. -/
def Outline.addTop (line : Nat → Nat) (o : Outline) (n : Node) : Outline :=
  match n.kind with
  | .packageDeclaration =>
    match Header.package n with
    | some package => { o with package }
    | none => o
  | .importDeclaration =>
    match Header.import? n with
    | some (.single name) => { o with imports := o.imports ++ [name] }
    | some (.wildcard name) => { o with wildcardImports := o.wildcardImports ++ [name] }
    | some (.static type member) =>
      { o with staticImports := o.staticImports ++ [(type, member)] }
    | none => o
  | _ =>
    let s : Surroundings := { line, package := o.package, scopes := [] }
    match s.enterType ⟨o.types, o.methods⟩ n with
    | none => o
    | some (inner, components, f) =>
      let f := walkTypeBody inner components n.parts f
      { o with types := f.types, methods := f.methods }

/-- The outline of a tree, where `line` numbers the lines. -/
def Outline.ofTree (line : Nat → Nat) (root : Node) : Outline :=
  root.children.foldl (Outline.addTop line) { hasErrors := root.hasError }

end CallOrigins.Java
