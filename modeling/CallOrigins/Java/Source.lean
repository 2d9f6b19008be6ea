import CallOrigins.Java.Outline.Walk
import CallOrigins.Java.Parse
import CallOrigins.Text.Lines

/-!
# Source files

A source is a path with a text. A source file is a source that has been read: its syntax tree
and its outline are at hand.
-/

namespace CallOrigins.Java

open Text

/-- A source. External sources are library code. -/
structure Source where
  path : String
  content : String
  external : Bool
  deriving DecidableEq, Repr

/-- A source that has been read. -/
structure SourceFile where
  source : Source
  /-- The offsets at which lines start. -/
  lineStarts : List Nat
  tree : Node
  outline : Outline

namespace SourceFile

/-- **Reading a source.** -/
def read (s : Source) : SourceFile :=
  let starts := Text.lineStarts s.content
  let tree := parse s.content
  let line := fun offset => (lineIn starts s.content.utf8ByteSize offset).getD 0
  { source := s, lineStarts := starts, tree, outline := Outline.ofTree line tree }

/-- The number of the line of an offset; `none` past the end. -/
def lineOf (f : SourceFile) (offset : Nat) : Option Nat :=
  lineIn f.lineStarts f.source.content.utf8ByteSize offset

end SourceFile
end CallOrigins.Java
