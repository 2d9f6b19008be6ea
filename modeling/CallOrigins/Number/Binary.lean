/-!
# Binary numbers of 53 digits

The positive numbers with 53 binary digits, and the one that is nearest to a fraction. A sum,
product or quotient of such numbers, rounded, is the nearest number to an exact fraction, so
rounding is the only operation.
-/

namespace CallOrigins

/-- A fraction `num / den`, not negative. -/
structure Fraction where
  num : Nat
  den : Nat := 1
  deriving DecidableEq, Repr

namespace Fraction

/-- The sum. -/
def add (a b : Fraction) : Fraction :=
  ⟨a.num * b.den + b.num * a.den, a.den * b.den⟩

/-- The product with a natural number. -/
def scale (n : Nat) (a : Fraction) : Fraction :=
  ⟨n * a.num, a.den⟩

/-- Is the first fraction at most the second one? -/
def le (a b : Fraction) : Bool :=
  a.num * b.den ≤ b.num * a.den

/-- Is the first fraction less than the second one? -/
def lt (a b : Fraction) : Bool :=
  a.num * b.den < b.num * a.den

/-- The distance of two fractions. -/
def distance (a b : Fraction) : Fraction :=
  ⟨(a.num * b.den - b.num * a.den) + (b.num * a.den - a.num * b.den), a.den * b.den⟩

/-- The fraction times a power of a base, whose exponent may be negative. -/
def shift (base : Nat) (e : Int) (a : Fraction) : Fraction :=
  match e with
  | .ofNat n => ⟨a.num * Nat.pow base n, a.den⟩
  | .negSucc n => ⟨a.num, a.den * Nat.pow base (n + 1)⟩

/-- The integer part. -/
def floor (a : Fraction) : Nat :=
  a.num / a.den

/-- The nearest natural number, of two that are equally near the even one. -/
def round (a : Fraction) : Nat :=
  let below := a.num / a.den
  let rest := 2 * (a.num % a.den)
  if rest < a.den || (rest == a.den && below % 2 == 0) then below else below + 1

end Fraction

/-- The number `mantissa * 2 ^ exponent`. -/
structure Binary where
  mantissa : Nat
  exponent : Int
  deriving DecidableEq, Repr

namespace Binary

/-- The number of binary digits of a mantissa. -/
def digits : Nat := 53

/-- The number as a fraction. -/
def toFraction (b : Binary) : Fraction :=
  Fraction.shift 2 b.exponent ⟨b.mantissa, 1⟩

/-- The exponent for which a positive fraction has a mantissa of the right length. -/
def exponentFor (a : Fraction) : Int :=
  let e : Int := (a.num.log2 : Int) - (a.den.log2 : Int) - (digits - 1 : Nat)
  if (a.shift 2 (-e)).floor < Nat.pow 2 (digits - 1) then e - 1 else e

/-- **The nearest number** to a fraction, of two that are equally near the one with an even
mantissa. -/
def nearest (a : Fraction) : Binary :=
  if a.num = 0 then ⟨0, 0⟩
  else
    let e := exponentFor a
    let m := (a.shift 2 (-e)).round
    if m = Nat.pow 2 digits then ⟨Nat.pow 2 (digits - 1), e + 1⟩ else ⟨m, e⟩

/-- The greatest fraction that rounds to the number, or the limit of these. -/
def upper (b : Binary) : Fraction :=
  Fraction.shift 2 b.exponent ⟨2 * b.mantissa + 1, 2⟩

/-- The least fraction that rounds to the number, or the limit of these. Below a power of two
the numbers are twice as dense. -/
def lower (b : Binary) : Fraction :=
  if b.mantissa = Nat.pow 2 (digits - 1) then Fraction.shift 2 b.exponent ⟨4 * b.mantissa - 1, 4⟩
  else Fraction.shift 2 b.exponent ⟨2 * b.mantissa - 1, 2⟩

/-- Does a fraction round to the number? The limits do where the mantissa is even. -/
def isNearestTo (b : Binary) (a : Fraction) : Bool :=
  if b.mantissa % 2 = 0 then b.lower.le a && a.le b.upper else b.lower.lt a && a.lt b.upper

end Binary
end CallOrigins
