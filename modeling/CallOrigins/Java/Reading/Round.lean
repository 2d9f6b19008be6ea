import CallOrigins.Java.Reading

/-!
# Rounds

The readings of a source go on in rounds. In each round those that are furthest behind read one
token more. A reading first ends the phrases that the token calls for; where there is a choice, it
goes on in one way, and the other ways queue up behind the readings that are still to go in this
round. At the end of the round readings that have met are joined.
-/

namespace CallOrigins.Java

/-- What has come of a reading. -/
inductive Outcome where
  /-- It has read the token. -/
  | moved (r : Reading)
  /-- It has read the whole source. -/
  | finished (r : Reading)
  /-- It cannot go on. -/
  | stuck

/-- Readings that wait, and how much of their stacks they share. -/
structure Queue where
  shared : Nat
  waiting : List Reading

namespace Queue

/-- Ends a phrase in a reading. Tells the place of the first reading that was added to the
queue. -/
def reduce (q : Queue) (p : Production) (r : Reading) : Queue × Option Nat :=
  let shared := r.depth p q.shared
  let waiting :=
    (r.reduce shared p).foldl (fun rs new => new.joinInto shared rs) q.waiting
  (⟨shared, waiting⟩,
    if q.waiting.length < waiting.length then some q.waiting.length else none)

/-- Ends several phrases in a reading, one after the other. -/
def reduceAll (r : Reading) : List Production → Queue × Option Nat → Queue × Option Nat
  | [], result => result
  | p :: ps, (q, last) =>
    let (q, added) := q.reduce p r
    reduceAll r ps (q, added.or last)

/-- Takes the reading at a place out of the queue. -/
def take? (q : Queue) (n : Nat) : Option (Reading × Queue) :=
  (q.waiting[n]?).map fun r => (r, { q with waiting := q.waiting.eraseIdx n })

end Queue

/-- The phrases that end by the moves. -/
def Reading.endings (ms : List State.Move) : List Production :=
  ms.filterMap fun
    | .reduce p => some p
    | .shift => none

/-- Is a terminal read as it is? -/
def Reading.shifts (ms : List State.Move) : Bool :=
  ms.any fun
    | .reduce _ => false
    | .shift => true

/-- The token as a name. -/
def Scanner.Scanned.asName (t : Scanner.Scanned) : Scanner.Scanned :=
  { t with terminal := Terminal.name.index }

/-- **A reading meets its next token.** A keyword that turns out not to fit counts as a name.
`fuel` bounds the phrases that end one after the other. -/
def Reading.meet : Nat → Scanner.Scanned → Reading → Queue → Outcome × Queue
  | 0, _, _, q => (.stuck, q)
  | fuel + 1, t, r, q =>
    match r.state.moves t.terminal with
    | [] =>
      if Scanner.isWord t.terminal then r.meet fuel t.asName q else (.stuck, q)
    | .reduce p :: ms =>
      if p.rule == Grammar.ruleCount then (.finished r, q)
      else
        match Queue.reduceAll r (p :: Reading.endings ms) (q, none) with
        | (q, last) =>
          if Reading.shifts ms then (.moved (r.shift t), q)
          else
            match last.bind q.take? with
            | none => (.stuck, q)
            | some (next, q) => next.meet fuel t q
    | .shift :: _ => (.moved (r.shift t), q)

/-- What has come of a round so far. -/
structure Round where
  /-- The readings that have moved or did not have to, the last one first. -/
  done : List Reading
  finished : List Reading
  shared : Nat

/-- The readings that stand at an offset go on, one after the other. `fuel` bounds their number,
the characters to be read and the phrases that end. -/
def Round.run (fuel offset : Nat) : Nat → Queue → Round → Round
  | 0, _, acc => acc
  | turns + 1, q, acc =>
    match q.waiting with
    | [] => { acc with shared := q.shared }
    | r :: rest =>
      let q : Queue := { q with waiting := rest }
      if r.offset != offset then
        Round.run fuel offset turns q { acc with done := r :: acc.done }
      else
        match Scanner.next? fuel r.state.expected r.offset r.rest with
        | none => Round.run fuel offset turns q acc
        | some t =>
          match r.meet fuel t q with
          | (.moved r, q) => Round.run fuel offset turns q { acc with done := r :: acc.done }
          | (.finished r, q) =>
            Round.run fuel offset turns q { acc with finished := r :: acc.finished }
          | (.stuck, q) => Round.run fuel offset turns q acc

namespace Reading

/-- The least offset of some readings. -/
def leastOffset : List Reading → Nat
  | [] => 0
  | [r] => r.offset
  | r :: rs => min r.offset (leastOffset rs)

/-- How much of their stacks readings share at the start of a round. -/
def sharedAtStart (shared : Nat) : List Reading → Nat
  | [⟨_, [s], _, _, _⟩] => s.height
  | _ => shared

/-- One round of readings that share a part of their stacks. -/
def round (fuel shared : Nat) (rs : List Reading) : Round :=
  Round.run fuel (leastOffset rs) fuel ⟨sharedAtStart shared rs, rs⟩ ⟨[], [], 0⟩

/-- **All rounds.** The result are readings of the whole source, or the readings that could not
go on. -/
def rounds (fuel : Nat) : Nat → Nat → List Reading → Except (List Reading) (List Reading)
  | 0, _, rs => .error rs
  | turns + 1, shared, rs =>
    let result := round fuel shared rs
    match result.finished, result.done with
    | [], [] => .error rs
    | [], moved =>
      rounds fuel turns result.shared
        (moved.reverse.foldl (fun qs r => r.joinInto result.shared qs) [])
    | finished, _ => .ok finished.reverse

end Reading
end CallOrigins.Java
