import CallOrigins.Java.Grammar.Production

/-!
# States

While a source is read from left to right, the state says what was begun. It is a list of items:
productions some parts of which were read, with the terminals that may follow when the rest has
been read too. States are computed when they are needed: `State.follow` is the state after one
more symbol.

What an item still expects may be a rule. The productions with which a phrase of that rule can
begin, and with which *their* first parts can begin, are its *corners*; with one of them the next
symbol begins a new item.

In a state, a terminal may call for several moves. Levels and biases of the productions decide
between ending a phrase and going on with one; where they do not, all the moves are kept.
-/

namespace CallOrigins.Java

namespace Grammar

/-! ## First terminals -/

/-- The terminals that stand first in a production of the rule. -/
def firstTerminals (rule : Nat) : TerminalSet :=
  (productionsOf rule).foldl
    (fun set p =>
      match p.steps with
      | ⟨.terminal n, _, _, _⟩ :: _ => set.join (.single n)
      | _ => set)
    0

/-- The rules that stand first in a production of the rule. -/
def firstRules (rule : Nat) : List Nat :=
  ((productionsOf rule).filterMap fun p =>
    match p.steps with
    | ⟨.rule n, _, _, _⟩ :: _ => some n
    | _ => none).eraseDups

/-- Collects the first terminals of the rules to do and of those that stand first in them.
`seen` are the rules that were done, as bits. -/
def collectFirst : Nat → List Nat → Nat → TerminalSet → TerminalSet
  | 0, _, _, found => found
  | _ + 1, [], _, found => found
  | fuel + 1, n :: todo, seen, found =>
    if seen.testBit n then collectFirst fuel todo seen found
    else
      collectFirst fuel (firstRules n ++ todo) (seen ||| 1 <<< n) (found.join (firstTerminals n))

/-- More than there are productions. -/
def bound : Nat := 4096

/-- The terminals that phrases of each rule can begin with. -/
def firstTable : Array TerminalSet :=
  ((List.range ruleCount).map fun n => collectFirst bound [n] 0 0).toArray

/-- **The terminals that a symbol can begin with.** -/
def first : Symbol → TerminalSet
  | .terminal n => .single n
  | .rule n => firstTable.getD n 0

/-! ## Corners -/

/-- What may follow the first part of a phrase: some terminals, and perhaps whatever may follow
the phrase itself. -/
structure Ahead where
  inner : TerminalSet
  outer : Bool
  deriving DecidableEq, Repr

namespace Ahead

/-- What may follow in one case or the other. -/
def join (a b : Ahead) : Ahead := ⟨a.inner.join b.inner, a.outer || b.outer⟩

/-- The terminals that may follow, where `after` may follow the phrase. -/
def terminals (a : Ahead) (after : TerminalSet) : TerminalSet :=
  if a.outer then a.inner.join after else a.inner

end Ahead

/-- What may follow the first part of a production, where `whole` may follow the production. -/
def aheadOfFirst (p : Production) (whole : Ahead) : Option (Nat × Ahead) :=
  match p.steps with
  | [⟨.rule n, _, _, before⟩] => some (n, ⟨whole.inner.join before, whole.outer⟩)
  | ⟨.rule n, _, _, before⟩ :: s :: _ => some (n, ⟨(first s.symbol).join before, false⟩)
  | _ => none

/-- The rules that a phrase can begin with, with what may follow them there. A rule to do is
done again when more may follow it than was known. -/
def collectCorners : Nat → List (Nat × Ahead) → List (Nat × Ahead) → List (Nat × Ahead)
  | 0, _, found => found
  | _ + 1, [], found => found
  | fuel + 1, (n, a) :: todo, found =>
    let next (a : Ahead) : List (Nat × Ahead) :=
      (productionsOf n).filterMap (fun p => aheadOfFirst p a)
    match found.lookup n with
    | none => collectCorners fuel (next a ++ todo) ((n, a) :: found)
    | some known =>
      let joined := known.join a
      if joined = known then collectCorners fuel todo found
      else
        collectCorners fuel (next joined ++ todo)
          (found.map fun (m, b) => if m = n then (m, joined) else (m, b))

/-- A production with which a phrase can begin. -/
structure Corner where
  production : Production
  ahead : Ahead

/-- The corners of a rule, by their first symbols. -/
abbrev Corners := List (Symbol × List Corner)

/-- Adds a corner. -/
def addCorner (c : Corner) (x : Symbol) : Corners → Corners
  | [] => [(x, [c])]
  | (y, cs) :: rest => if x = y then (y, c :: cs) :: rest else (y, cs) :: addCorner c x rest

/-- The corners of a rule. -/
def cornersOf (rule : Nat) : Corners :=
  (collectCorners (bound * 16) [(rule, ⟨0, true⟩)] []).foldl
    (fun corners (n, a) =>
      (productionsOf n).foldl
        (fun corners p =>
          match p.steps with
          | [] => corners
          | s :: _ => addCorner ⟨p, a⟩ s.symbol corners)
        corners)
    []

/-- The corners of every rule. -/
def cornerTable : Array Corners :=
  ((List.range ruleCount).map cornersOf).toArray

/-- The corners of a rule that begin with a symbol. -/
def corners (rule : Nat) (x : Symbol) : List Corner :=
  ((cornerTable.getD rule []).lookup x).getD []

end Grammar

/-! ## Items and states -/

/-- A production that was begun. -/
structure Item where
  production : Production
  /-- How many parts were read. -/
  done : Nat
  /-- The parts that were not. -/
  rest : List Step
  /-- The terminals that may follow the phrase. -/
  ahead : TerminalSet
  deriving Repr

namespace Item

/-- The first composition of the rule that agrees with the parts read. -/
def place (i : Item) : Nat :=
  i.production.places.getD i.done 0

/-- The same rule, begun equally far and in the same way. -/
def same (i j : Item) : Bool :=
  i.done == j.done && i.production.rule == j.production.rule && i.place == j.place

/-- The order of items in a state: by the number of parts read, then by the rules, then by their
compositions. -/
def precedes (i j : Item) : Bool :=
  if i.done != j.done then i.done < j.done
  else if i.production.rule != j.production.rule then i.production.rule < j.production.rule
  else i.place < j.place

end Item

/-- The items begun, in order. -/
abbrev State := List Item

namespace State

open Grammar

/-- Adds an item, or what may follow it. -/
def add (i : Item) : State → State
  | [] => [i]
  | j :: s =>
    if i.same j then { j with ahead := j.ahead.join i.ahead } :: s
    else if i.precedes j then i :: j :: s
    else j :: add i s

/-- The state in which reading starts: a whole source is expected. -/
def initial : State :=
  let whole : Step := ⟨.rule Rule.program.index, none, none, 0⟩
  let production : Production :=
    ⟨⟨[whole], 0, .neither, 0⟩, ruleCount, none, [0, 0]⟩
  [⟨production, 0, [whole], .single Terminal.finish.index⟩]

/-- The items that a symbol leads to from an item, added to a state. -/
def addFrom (x : Symbol) (out : State) (i : Item) : State :=
  match i.rest with
  | [] => out
  | step :: more =>
    let out :=
      if step.symbol = x then out.add ⟨i.production, i.done + 1, more, i.ahead⟩ else out
    match step.symbol with
    | .terminal _ => out
    | .rule n =>
      let after :=
        match more with
        | [] => i.ahead
        | next :: _ => first next.symbol
      (corners n x).foldl
        (fun out c =>
          out.add
            ⟨c.production, 1, c.production.steps.tail,
              c.ahead.terminals (after.join step.before)⟩)
        out

/-- **The state after a symbol**; it is empty where the symbol cannot follow. -/
def follow (s : State) (x : Symbol) : State :=
  s.foldl (addFrom x) []

/-- The terminals that may follow. -/
def expected (s : State) : TerminalSet :=
  s.foldl
    (fun set i =>
      match i.rest with
      | [] => set.join i.ahead
      | step :: _ => set.join (first step.symbol))
    0

/-- Do two states have the same items, whatever may follow them? -/
def like : State → State → Bool
  | [], [] => true
  | i :: s, j :: t => i.same j && like s t
  | _, _ => false

/-- What may follow in either of two states that have the same items. -/
def join : State → State → State
  | i :: s, j :: t => { i with ahead := i.ahead.join j.ahead } :: join s t
  | _, _ => []

/-! ## Moves -/

/-- What can be done next. -/
inductive Move where
  /-- End a phrase. -/
  | reduce (p : Production)
  /-- Read the terminal. -/
  | shift
  deriving Repr

/-- The items that end before a terminal, only those of the highest level. -/
def ending (s : State) (terminal : Nat) : State :=
  let complete := s.filter fun i => i.rest.isEmpty && i.ahead.has terminal
  complete.filter fun i => complete.all fun j => j.production.level ≤ i.production.level

/-- The items that go on with a terminal. -/
def continuing (s : State) (terminal : Nat) : State :=
  s.filter fun i =>
    match i.rest with
    | [] => false
    | step :: _ => (first step.symbol).has terminal

/-- **The moves that a terminal calls for.** Where phrases can end and others go on, the higher
level wins, and on one level the bias; where neither decides, all moves are kept. -/
def moves (s : State) (terminal : Nat) : List Move :=
  let ends := s.ending terminal
  let goOn := s.continuing terminal
  let reduces := ends.map fun i => Move.reduce i.production
  match ends.head?, goOn with
  | none, [] => []
  | none, _ => [.shift]
  | some _, [] => reduces
  | some e, _ =>
    let higher := goOn.any fun i => e.production.level < i.production.level
    let lower := goOn.any fun i => i.production.level < e.production.level
    let biased (b : Bias) : Bool := ends.all fun i => i.production.bias = b
    if higher && !lower then [.shift]
    else if lower && !higher then reduces
    else if !higher && biased .left then reduces
    else if !higher && biased .right then [.shift]
    else reduces ++ [.shift]

end State
end CallOrigins.Java
