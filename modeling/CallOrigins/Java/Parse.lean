import CallOrigins.Java.Reading.Repair

/-!
# The syntax tree of a source

Of all readings of a source the derivation of the greatest weight gives its tree; of several
such, the one that comes first.
-/

namespace CallOrigins.Java

/-- Which of two derivations of a source with their weights counts. -/
def better (a b : Nat × Derivation) : Nat × Derivation :=
  if a.1 != b.1 then if a.1 < b.1 then b else a
  else if a.2.compare b.2 == .gt then b else a

/-- The derivations in readings of a whole source, with their weights. -/
def derivations (rs : List Reading) : List (Nat × Derivation) :=
  rs.flatMap fun r => r.ways.flatMap fun s => s.map fun e => (e.weight, e.derivation)

/-- The derivation that counts. -/
def best? (rs : List Reading) : Option Derivation :=
  match derivations rs with
  | [] => none
  | d :: ds => some (ds.foldl better d).2

/-- A fault that belongs to no other node. -/
def faults (rs : List Reading) (parts : List Node) : List Node :=
  let before := ((Node.firstTokenOfAll? parts).map Token.stray).getD false
  let after := rs.any fun r => !r.skipped.isEmpty
  if before || after then [.branch none .error []] else []

/-- **The syntax tree of a source.** -/
def parse (source : String) : Node :=
  let cs := source.toList
  let fuel := 64 * (cs.length + 64)
  let start := Reading.initial cs
  if start.atEnd fuel then .branch none .program []
  else
    let readings := Reading.repaired fuel fuel [start]
    match (best? readings).map Derivation.view with
    | some [.branch r k parts] => .branch r k (parts ++ faults readings parts)
    | _ => .branch none .program [.branch none .error []]

end CallOrigins.Java
