/-!
# Sets of characters

A set of characters is given by the ascending list of the code points at which membership
changes: a character belongs to the set when the number of bounds up to it is odd. Two sets are
put together by one walk along the bounds of both.
-/

namespace CallOrigins.Text

/-- A set of characters, as the code points at which membership changes. -/
structure CharSet where
  bounds : List Nat
  deriving DecidableEq, Repr

namespace CharSet

/-! ## Membership -/

/-- Membership after the bounds up to `n`, where `inside` is membership before the first. -/
def scan (n : Nat) (inside : Bool) : List Nat → Bool
  | [] => inside
  | b :: bs => if n < b then inside else scan n (!inside) bs

/-- Is a code point in the set? -/
def has (s : CharSet) (n : Nat) : Bool :=
  scan n false s.bounds

/-- Is `c` in the set? -/
def contains (s : CharSet) (c : Char) : Bool :=
  scan c.toNat false s.bounds

/-! ## Making sets -/

/-- The set without a member. -/
def empty : CharSet :=
  ⟨[]⟩

/-- The code points between two, both included. -/
def range (low high : Nat) : CharSet :=
  ⟨[low, high + 1]⟩

/-- The set of one character. -/
def single (c : Char) : CharSet :=
  range c.toNat c.toNat

/-- The bounds at the ends of runs of some lengths, where the first run starts at `n`. -/
def endsFrom (n : Nat) : List Nat → List Nat
  | [] => []
  | r :: rs => (n + r) :: endsFrom (n + r) rs

/-- The set whose code points come in runs: outside of the set, inside, outside again, and so
on. Given are the lengths of the runs but the last. -/
def ofRuns (runs : List Nat) : CharSet :=
  ⟨endsFrom 0 runs⟩

/-- The numbers in a text, to the base 26: the last digit of each is a small letter, and those before
it are capitals. The digits of the first that came before the text are worth `n`. -/
def numbersFrom (n : Nat) : List Char → List Nat
  | [] => []
  | c :: cs =>
    if c.isUpper then numbersFrom (26 * (n + (c.toNat - 'A'.toNat))) cs
    else (n + (c.toNat - 'a'.toNat)) :: numbersFrom 0 cs

/-- The set with runs whose lengths are written in a text. -/
def ofText (runs : String) : CharSet :=
  ofRuns (numbersFrom 0 runs.toList)

/-- A bound where membership changes, and nothing where it stays. -/
def bound (n : Nat) (before after : Bool) (rest : List Nat) : List Nat :=
  if before == after then rest else n :: rest

/-- The bounds of two sets put together, where `x` and `y` are membership before the bounds that
are left. -/
def mergeFrom (f : Bool → Bool → Bool) (x y : Bool) : List Nat → List Nat → List Nat
  | [], [] => []
  | a :: as, [] => bound a (f x y) (f (!x) y) (mergeFrom f (!x) y as [])
  | [], b :: bs => bound b (f x y) (f x (!y)) (mergeFrom f x (!y) [] bs)
  | a :: as, b :: bs =>
    if a < b then bound a (f x y) (f (!x) y) (mergeFrom f (!x) y as (b :: bs))
    else if b < a then bound b (f x y) (f x (!y)) (mergeFrom f x (!y) (a :: as) bs)
    else bound a (f x y) (f (!x) (!y)) (mergeFrom f (!x) (!y) as bs)
termination_by as bs => as.length + bs.length
decreasing_by all_goals simp only [List.length_cons, List.length_nil]; omega

/-- What is in either set. -/
def union (a b : CharSet) : CharSet :=
  ⟨mergeFrom (· || ·) false false a.bounds b.bounds⟩

/-- What is in both sets. -/
def inter (a b : CharSet) : CharSet :=
  ⟨mergeFrom (· && ·) false false a.bounds b.bounds⟩

/-- What is in the first set only. -/
def diff (a b : CharSet) : CharSet :=
  ⟨mergeFrom (fun x y => x && !y) false false a.bounds b.bounds⟩

/-- What is in one set only. -/
def symmDiff (a b : CharSet) : CharSet :=
  ⟨mergeFrom (· != ·) false false a.bounds b.bounds⟩

/-- What is not in the set. -/
def compl (s : CharSet) : CharSet :=
  match s.bounds with
  | 0 :: bs => ⟨bs⟩
  | bs => ⟨0 :: bs⟩

/-- The set of all that is in one of some sets. -/
def unions (sets : List CharSet) : CharSet :=
  sets.foldr union empty

/-- All characters. -/
def all : CharSet :=
  compl empty

/-- The characters with a code of seven bits. -/
def ascii : CharSet :=
  range 0 0x7F

/-- Are all members of a set in another one? -/
def within (a b : CharSet) : Bool :=
  (a.diff b).bounds.isEmpty

/-! ## Ranges -/

/-- The ranges of members between bounds, the last one up to `last`. -/
def rangesFrom (last : Nat) : List Nat → List (Nat × Nat)
  | [] => []
  | [low] => [(low, last)]
  | low :: next :: bs => (low, next - 1) :: rangesFrom last bs

/-- The ranges that make up the set. -/
def ranges (s : CharSet) : List (Nat × Nat) :=
  rangesFrom 0x10FFFF s.bounds

/-- Bounds of the code points in an ascending list. -/
def pointBounds : List Nat → List Nat
  | [] => []
  | n :: ns =>
    match pointBounds ns with
    | m :: bs => if m == n + 1 then n :: bs else n :: (n + 1) :: m :: bs
    | [] => [n, n + 1]

/-- The set of some code points. -/
def ofPoints (points : List Nat) : CharSet :=
  ⟨pointBounds (points.mergeSort (fun a b => decide (a ≤ b))).eraseReps⟩

end CharSet
end CallOrigins.Text
