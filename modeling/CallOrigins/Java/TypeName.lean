import CallOrigins.Text.Blank
import CallOrigins.Text.Cut

/-!
# Erased type names

The name by which a type is compared: its text without type arguments, annotations and
blanks. An annotation is taken to end at the next blank.
-/

namespace CallOrigins.Java

open Text

/-- Erases a text inside of `depth` angle brackets and, where `marked` is set, inside of an
annotation. -/
def eraseFrom (depth : Nat) (marked : Bool) : List Char → List Char
  | [] => []
  | c :: cs =>
    if c = '<' then eraseFrom (depth + 1) marked cs
    else if c = '>' then eraseFrom (depth - 1) marked cs
    else if c = '@' && depth = 0 then eraseFrom depth true cs
    else if isBlank c then eraseFrom depth false cs
    else if depth = 0 && !marked then c :: eraseFrom depth marked cs
    else eraseFrom depth marked cs

/-- The erased name of a type. -/
def eraseType (s : String) : String :=
  String.ofList (eraseFrom 0 false s.toList)

/-- The part of a name after its last point. -/
def lastSegment (s : String) : String :=
  String.ofList (afterLastOf (· == '.') s.toList)

end CallOrigins.Java
