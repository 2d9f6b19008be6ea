/-!
# Breadth-first order

The order in which a breadth-first search meets the points of a directed graph: first the
starts, then their successors, and so on, each point once.

Every point that is met adds its successors to the queue once, so the queue loses an entry at
most as often as there are starts and successors of points that are met. This number is the
fuel of the search.
-/

namespace CallOrigins

/-- Goes on with a queue and the points that were met before. -/
def breadthFirstFrom (next : Nat → List Nat) : Nat → List Nat → List Nat → List Nat
  | 0, _, _ => []
  | _ + 1, _, [] => []
  | fuel + 1, met, x :: queue =>
    if x ∈ met then breadthFirstFrom next fuel met queue
    else x :: breadthFirstFrom next fuel (x :: met) (queue ++ next x)

/-- **Breadth-first order.** All points are numbers below `size`. -/
def breadthFirst (size : Nat) (next : Nat → List Nat) (starts : List Nat) : List Nat :=
  let edges := ((List.range size).map (fun x => (next x).length)).foldr (· + ·) 0
  breadthFirstFrom next (starts.length + edges) [] starts

end CallOrigins
