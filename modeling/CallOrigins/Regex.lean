import CallOrigins.Text.CharSet

/-!
# Regular expressions

Regular expressions over texts, with anchors. The only question is whether an expression
matches anywhere in a text, so a match is described by the places at which it can end: from a
given place on, an expression leads to a set of places.
-/

namespace CallOrigins

open Text

/-! ## Expressions -/

/-- How a place lies to the words around it. -/
inductive WordEdge where
  /-- Between a character of a word and another character or an end of the text. -/
  | edge
  | noEdge
  | start
  | stop
  /-- No character of a word before. -/
  | startHalf
  /-- No character of a word after. -/
  | stopHalf
  deriving DecidableEq, Repr

/-- Does a place lie so, with a letter before it and after it or not? -/
def WordEdge.holds (before after : Bool) : WordEdge → Bool
  | .edge => before != after
  | .noEdge => before == after
  | .start => !before && after
  | .stop => before && !after
  | .startHalf => !before
  | .stopHalf => !after

/-- A condition on a place in a text. -/
inductive Anchor where
  | textStart
  | textEnd
  /-- The start of a line. Where `returns` is set, a carriage return ends a line too, and one
  with a line feed behind it ends one line. -/
  | lineStart (returns : Bool)
  | lineEnd (returns : Bool)
  /-- A place between words of some letters. -/
  | word (e : WordEdge) (letters : CharSet)
  deriving DecidableEq, Repr

/-- A regular expression. -/
inductive Regex where
  | empty
  /-- One character of a set. -/
  | one (set : CharSet)
  | anchor (a : Anchor)
  | seq (a b : Regex)
  | alt (a b : Regex)
  /-- At least `least` times, and at most `most` times where that is given. -/
  | times (r : Regex) (least : Nat) (most : Option Nat)
  /-- A group that can be referred to. -/
  | group (r : Regex)
  deriving Repr

namespace Regex

/-! ## Anchors -/

/-- Is there a letter at a place? -/
def letterAt (text : Array Char) (letters : CharSet) (i : Nat) : Bool :=
  text[i]?.any letters.contains

/-- Is there a letter before a place? -/
def letterBefore (text : Array Char) (letters : CharSet) : Nat → Bool
  | 0 => false
  | i + 1 => letterAt text letters i

/-- Is there a character at a place? -/
def charAt (text : Array Char) (c : Char) (i : Nat) : Bool :=
  text[i]? == some c

/-- Is there a character before a place? -/
def charBefore (text : Array Char) (c : Char) : Nat → Bool
  | 0 => false
  | i + 1 => charAt text c i

/-- Does a condition hold at a place? -/
def holds (text : Array Char) (i : Nat) : Anchor → Bool
  | .textStart => i == 0
  | .textEnd => i == text.size
  | .lineStart returns =>
    i == 0 || charBefore text '\n' i ||
      (returns && charBefore text '\r' i && !charAt text '\n' i)
  | .lineEnd returns =>
    i == text.size || (charAt text '\n' i && !(returns && charBefore text '\r' i)) ||
      (returns && charAt text '\r' i)
  | .word e letters =>
    e.holds (letterBefore text letters i) (letterAt text letters i)

/-! ## Matching -/

/-- The places that a step leads to from some places, each of them once. -/
def stepAll (step : Nat → List Nat) (places : List Nat) : List Nat :=
  (places.flatMap step).eraseDups

/-- The places after exactly so many steps. -/
def stepTimes (step : Nat → List Nat) : Nat → List Nat → List Nat
  | 0, places => places
  | n + 1, places => if places.isEmpty then [] else stepTimes step n (stepAll step places)

/-- The places after at most so many steps from `front`, with those that were reached before. -/
def stepUpTo (step : Nat → List Nat) : Nat → List Nat → List Nat → List Nat
  | 0, reached, _ => reached
  | n + 1, reached, front =>
    let fresh := (stepAll step front).filter (fun i => !reached.contains i)
    if fresh.isEmpty then reached else stepUpTo step n (reached ++ fresh) fresh

/-- **The places at which a match from a place on can end.** Without an upper limit a repetition
reaches nothing new after as many steps as the text has characters. -/
def ends (text : Array Char) : Regex → Nat → List Nat
  | empty, i => [i]
  | one set, i => if text[i]?.any set.contains then [i + 1] else []
  | anchor a, i => if holds text i a then [i] else []
  | seq a b, i => ((a.ends text i).flatMap (b.ends text)).eraseDups
  | alt a b, i => (a.ends text i ++ b.ends text i).eraseDups
  | times r least most, i =>
    let required := stepTimes (r.ends text) least [i]
    let further :=
      match most with
      | some m => m - least
      | none => text.size + 1
    stepUpTo (r.ends text) further required required
  | group r, i => r.ends text i

/-- **Does the expression match anywhere in a text?** -/
def matchesIn (r : Regex) (s : String) : Bool :=
  let text := s.toList.toArray
  (List.range (text.size + 1)).any (fun i => !(r.ends text i).isEmpty)

end Regex
end CallOrigins
