/-!
# Cutting a text at a character

A text is cut in two at the first or at the last occurrence of a character, or into all the
pieces between its occurrences. The character itself belongs to no piece.
-/

namespace CallOrigins.Text

/-- What stands before and after the first `c`; `none` where `c` does not occur. -/
def cutFirst (c : Char) : List Char → Option (List Char × List Char)
  | [] => none
  | d :: ds =>
    if d = c then some ([], ds)
    else (cutFirst c ds).map (fun (before, after) => (d :: before, after))

/-- What stands before and after the last `c`; `none` where `c` does not occur. -/
def cutLast (c : Char) : List Char → Option (List Char × List Char)
  | [] => none
  | d :: ds =>
    match cutLast c ds with
    | some (before, after) => some (d :: before, after)
    | none => if d = c then some ([], ds) else none

/-- The pieces between the occurrences of `c`: one more than there are occurrences. -/
def pieces (c : Char) : List Char → List (List Char)
  | [] => [[]]
  | d :: ds =>
    if d = c then [] :: pieces c ds
    else
      match pieces c ds with
      | [] => [[d]]
      | p :: ps => (d :: p) :: ps

/-- What stands before the first `c`, or the whole text. -/
def beforeFirst (c : Char) (cs : List Char) : List Char :=
  cs.takeWhile (fun d => d != c)

/-- What stands after the last character that satisfies `p`, or the whole text. -/
def afterLastOf (p : Char → Bool) (cs : List Char) : List Char :=
  (cs.reverse.takeWhile (fun d => !p d)).reverse

/-- The rest of the text after `front`, where it starts so. -/
def dropFront? : List Char → List Char → Option (List Char)
  | [], cs => some cs
  | _ :: _, [] => none
  | f :: fs, c :: cs => if f = c then dropFront? fs cs else none

/-- The text before `back`, where it ends so. -/
def dropBack? (back cs : List Char) : Option (List Char) :=
  (dropFront? back.reverse cs.reverse).map List.reverse

/-- Does `front` stand at the front? -/
def startsWith (front cs : List Char) : Bool :=
  (dropFront? front cs).isSome

/-- Does `back` stand at the back? -/
def endsWith (back cs : List Char) : Bool :=
  (dropBack? back cs).isSome

/-- Does `part` stand anywhere in the text? -/
def occursIn (part : List Char) : List Char → Bool
  | [] => part.isEmpty
  | c :: cs => startsWith part (c :: cs) || occursIn part cs

end CallOrigins.Text
