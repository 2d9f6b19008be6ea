import CallOrigins.Java.Derivation
import CallOrigins.Java.Token.Scanner

/-!
# Readings

A source is read from left to right. What was read stands on a stack of derivations, and a state
says what may follow. Where the grammar leaves a choice, the reading *forks*; a reading that
cannot go on is dropped. Two readings that have come to the same place and the same items are
joined again: they go on together, and of two stacks that show the same states all the way down
one is given up.

Which one is given up: the one of less weight; else, of two that were one until a phrase was read
in two ways, the one whose derivation comes later. Of two readings that meet otherwise the first
one stays, unless the phrases on the stacks differ in more than what is inside of them.

The entries at the bottom of the stacks that all readings have in common are never compared:
`shared` is how many of them there are.
-/

namespace CallOrigins.Java

/-- A derivation on a stack. -/
structure Entry where
  /-- The state below it. -/
  below : State
  derivation : Derivation
  /-- Where its text starts and stops. -/
  start : Nat
  stop : Nat
  /-- How many entries the stack has up to here, and what they weigh. -/
  height : Nat
  weight : Nat

/-- A stack, its top first. -/
abbrev Stack := List Entry

namespace Stack

/-- The number of entries. -/
def height : Stack → Nat
  | [] => 0
  | e :: _ => e.height

/-- The weight of all derivations on a stack. -/
def weight : Stack → Nat
  | [] => 0
  | e :: _ => e.weight

/-- The state below the top. -/
def base : Stack → State
  | [] => []
  | e :: _ => e.below

/-- Do the `n` entries on top of two stacks show the same states? -/
def topLike : Nat → Stack → Stack → Bool
  | n + 1, e :: s, f :: t => e.below.like f.below && topLike n s t
  | _, _, _ => true

/-- Do two stacks show the same states? -/
def like (shared : Nat) (s t : Stack) : Bool :=
  s.height == t.height && topLike (s.height - shared) s t

/-- The order of the `n` entries on top of two stacks; the deepest difference decides. -/
def compareTop : Nat → Stack → Stack → Ordering
  | n + 1, e :: s, f :: t =>
    match compareTop n s t with
    | .eq => e.derivation.compare f.derivation
    | o => o
  | _, _, _ => .eq

/-- Are two phrases of the same rule, at the same place, and composed of as many parts? -/
def alikePhrases (e f : Entry) : Bool :=
  e.start == f.start && e.stop == f.stop &&
    match e.derivation, f.derivation with
    | .leaf m _, .leaf n _ => m == n
    | .branch p cs, .branch q ds => p.rule == q.rule && cs.length == ds.length
    | _, _ => false

/-- Are the phrases in the `n` entries on top of two stacks alike? -/
def alikeTop : Nat → Stack → Stack → Bool
  | n + 1, e :: s, f :: t => alikePhrases e f && alikeTop n s t
  | _, _, _ => true

/-- Does the second stack replace the first, where both were one until a phrase was read in two
ways? -/
def yieldsInside (shared : Nat) (s t : Stack) : Bool :=
  if s.weight != t.weight then s.weight < t.weight
  else compareTop (s.height - shared) s t == .gt

/-- Does the second stack replace the first, where two readings meet? -/
def yieldsOutside (shared : Nat) (s t : Stack) : Bool :=
  if s.weight != t.weight then s.weight < t.weight
  else
    !alikeTop (s.height - shared) s t && compareTop (s.height - shared) s t == .gt

/-- Adds a stack to others, or to the one of them that shows the same states; `yields` tells
whether that one is replaced. -/
def insert (shared : Nat) (yields : Stack → Stack → Bool) (t : Stack) : List Stack → List Stack
  | [] => [t]
  | s :: ss =>
    if like shared s t then (if yields s t then t else s) :: ss
    else s :: insert shared yields t ss

/-- The stack after a phrase has ended, with the state it then shows; `none` where the phrase
cannot stand there. -/
def reduce? (p : Production) (s : Stack) : Option (State × Stack) :=
  let parts := s.take p.steps.length
  match parts.head?, parts.getLast? with
  | some top, some bottom =>
    let after := bottom.below.follow (.rule p.rule)
    if after.isEmpty then none
    else
      some
        (after,
          { below := bottom.below
            derivation := .branch p (parts.reverse.map Entry.derivation)
            start := bottom.start
            stop := top.stop
            height := bottom.height
            weight := top.weight + p.weight } :: s.drop p.steps.length)
  | _, _ => none

end Stack

/-- A reading of the source up to an offset. -/
structure Reading where
  state : State
  /-- What was read, in one way or several. -/
  ways : List Stack
  offset : Nat
  /-- The characters that were not read. -/
  rest : List Char
  /-- What was passed over since the last token. -/
  skipped : String

namespace Reading

/-- Nothing was read. -/
def initial (source : List Char) : Reading :=
  ⟨.initial, [[]], 0, source, ""⟩

/-- Joins the second reading into the first, if both have come to the same items. -/
def join? (shared : Nat) (a b : Reading) : Option Reading :=
  if a.offset == b.offset && a.state.like b.state then
    some
      { a with
        state := a.state.join b.state
        ways :=
          b.ways.foldl
            (fun ss t => Stack.insert shared (Stack.yieldsOutside shared) t ss) a.ways }
  else none

/-- Joins a reading into the first of several that it can be joined into, or adds it as the
last. -/
def joinInto (shared : Nat) (r : Reading) : List Reading → List Reading
  | [] => [r]
  | q :: qs =>
    match q.join? shared r with
    | some joined => joined :: qs
    | none => q :: joinInto shared r qs

/-- Adds a stack on which a phrase has ended to those of the readings so far that show the same
state below it. -/
def gather (shared : Nat) (r : Reading) (after : State) (t : Stack) :
    List Reading → List Reading
  | [] => [{ r with state := after, ways := [t] }]
  | q :: qs =>
    if q.ways.any fun s => s.base.like t.base then
      { q with
        state := q.state.join after
        ways := Stack.insert shared (Stack.yieldsInside shared) t q.ways } :: qs
    else q :: gather shared r after t qs

/-- **The readings after a phrase has ended.** -/
def reduce (shared : Nat) (p : Production) (r : Reading) : List Reading :=
  (r.ways.filterMap (Stack.reduce? p)).foldl
    (fun qs (after, t) => gather shared r after t qs) []

/-- **The reading after a token.** -/
def shift (r : Reading) (t : Scanner.Scanned) : Reading :=
  let token : Token :=
    if r.skipped.isEmpty then t.token
    else { t.token with gap := r.skipped ++ t.token.gap, stray := true }
  { state := r.state.follow (.terminal t.terminal)
    ways :=
      r.ways.map fun s =>
        { below := r.state
          derivation := .leaf t.terminal token
          start := t.token.start
          stop := t.token.stop
          height := Stack.height s + 1
          weight := Stack.weight s } :: s
    offset := t.token.stop
    rest := t.rest
    skipped := "" }

/-- The least height of a stack below a phrase that ends. -/
def depth (p : Production) (r : Reading) : Nat → Nat :=
  r.ways.foldl fun n s => min n (Stack.height s - p.steps.length)

end Reading
end CallOrigins.Java
