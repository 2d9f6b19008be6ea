import CallOrigins.Number.Word
import CallOrigins.Text.Blank
import CallOrigins.Text.Cut
import Std.Data.TreeMap

/-!
# Method identifiers

A method is identified by one text, `declaring.Type#name(Param,Param)`. Its parts are read off
that text: the type stands before the first `#`, the name between it and the next `(`, the
parameters between the first `(` and the last `)`. A constructor is named like its type.

Identifiers are ordered by their text. The order of texts by code points is also their order
by UTF-8 bytes.
-/

namespace CallOrigins

open Text

/-- The identifier of a method. -/
structure MethodId where
  text : String
  deriving DecidableEq, Repr, Hashable

/-- Why a text is no method identifier. `text` is the text without the blanks at its ends. -/
inductive IdentifierFault where
  | noSeparator (text : String)
  | noParameters (text : String)
  | unterminated (text : String)
  | emptyPart (text : String)
  deriving DecidableEq, Repr

/-- The wording of a fault. -/
def IdentifierFault.message : IdentifierFault → String
  | noSeparator s => "Missing '#' in method identifier: '" ++ s ++ "'"
  | noParameters s => "Missing parameter list in method identifier: '" ++ s ++ "'"
  | unterminated s => "Unterminated parameter list in method identifier: '" ++ s ++ "'"
  | emptyPart s => "Empty type or method name in method identifier: '" ++ s ++ "'"

namespace MethodId

/-! ## Composing -/

/-- The identifier of a method with a declaring type, a name and parameters. The blanks around
the parameters are dropped; nothing else is changed or checked. -/
def ofParts (type name : String) (params : List String) : MethodId :=
  ⟨type ++ "#" ++ name ++ "(" ++ ",".intercalate (params.map trim) ++ ")"⟩

/-! ## The parts -/

/-- The qualified name of the declaring type. -/
def declaringType (m : MethodId) : String :=
  String.ofList (beforeFirst '#' m.text.toList)

/-- The last part of the declaring type, after a point or a dollar sign. -/
def simpleTypeName (m : MethodId) : String :=
  String.ofList (afterLastOf (fun c => c == '.' || c == '$') m.declaringType.toList)

/-- The name of the method. -/
def name (m : MethodId) : String :=
  match cutFirst '#' m.text.toList with
  | none => ""
  | some (_, member) => String.ofList (beforeFirst '(' member)

/-- The parameter types as they are written. -/
def params (m : MethodId) : List String :=
  match cutFirst '(' m.text.toList with
  | none => []
  | some (_, after) =>
    match cutLast ')' after with
    | none => []
    | some (inner, _) =>
      if inner.isEmpty then [] else (pieces ',' inner).map String.ofList

/-- The number of parameters. -/
def paramCount (m : MethodId) : Nat :=
  m.params.length

/-- Does the last parameter stand for any number of arguments? -/
def isVarargs (m : MethodId) : Bool :=
  match m.params.getLast? with
  | none => false
  | some p => endsWith "...".toList p.toList

/-- Can a call with `n` arguments mean this method? Numbers of arguments are counted in words
of 64 bits. -/
def acceptsArity (m : MethodId) (n : Nat) : Bool :=
  if m.isVarargs then m.paramCount ≤ (n + 1) % wordCount else n == m.paramCount

/-- Is the method named like its type? -/
def isConstructor (m : MethodId) : Bool :=
  m.name == m.simpleTypeName

/-- The short form for reports. -/
def displayName (m : MethodId) : String :=
  m.simpleTypeName ++ "#" ++ m.name

/-! ## Reading -/

/-- **Reading an identifier.** Blanks are allowed around the whole text and around parameters;
type and name must not be empty. -/
def parse (s : String) : Except IdentifierFault MethodId :=
  let text := trimChars s.toList
  let shown := String.ofList text
  match cutFirst '#' text with
  | none => .error (.noSeparator shown)
  | some (type, member) =>
    match cutFirst '(' member with
    | none => .error (.noParameters shown)
    | some (name, after) =>
      match dropBack? [')'] after with
      | none => .error (.unterminated shown)
      | some inner =>
        if type.isEmpty || name.isEmpty then .error (.emptyPart shown)
        else
          let params := if (trimChars inner).isEmpty then [] else pieces ',' inner
          .ok (ofParts (String.ofList type) (String.ofList name) (params.map String.ofList))

/-! ## Order -/

instance : Ord MethodId where
  compare a b := compare a.text b.text

instance : Std.TransOrd MethodId :=
  inferInstanceAs (Std.TransCmp (compareOn MethodId.text))

instance : Std.LawfulEqOrd MethodId where
  eq_of_compare {a b} h := by
    have htext : a.text = b.text := Std.LawfulEqOrd.eq_of_compare h
    cases a
    cases b
    cases htext
    rfl

/-- Is the first identifier strictly before the second? -/
def before (a b : MethodId) : Bool :=
  decide (a.text < b.text)

/-- Puts an identifier into an ascending list, unless it is there. -/
def insertInto (m : MethodId) : List MethodId → List MethodId
  | [] => [m]
  | x :: xs =>
    if m = x then x :: xs
    else if m.before x then m :: x :: xs
    else x :: insertInto m xs

/-- The ascending list of the identifiers of a list, each of them once. -/
def sortedSet (ms : List MethodId) : List MethodId :=
  ms.foldl (fun acc m => insertInto m acc) []

end MethodId
end CallOrigins
