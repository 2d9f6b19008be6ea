import CallOrigins.Number.Binary

/-!
# The shortest decimal

The decimal with the fewest digits that rounds to a binary number, and its text. Of several
decimals with that many digits it is the nearest one.
-/

namespace CallOrigins

/-- The number `digits * 10 ^ exponent`. -/
structure Decimal where
  digits : Nat
  exponent : Int
  deriving DecidableEq, Repr

namespace Decimal

/-- The number as a fraction. -/
def toFraction (d : Decimal) : Fraction :=
  Fraction.shift 10 d.exponent ⟨d.digits, 1⟩

/-- The least `j`, from `j` on, for which the fraction times `10 ^ j` is at least one. -/
def leadingZeros (a : Fraction) : Nat → Nat → Nat
  | 0, j => j
  | fuel + 1, j => if a.den ≤ a.num * Nat.pow 10 j then j else leadingZeros a fuel (j + 1)

/-- The place of the first digit of a positive fraction: its exponent in powers of ten. -/
def magnitude (a : Fraction) : Int :=
  if a.den ≤ a.num then ((Nat.toDigits 10 a.floor).length : Int) - 1
  else -(leadingZeros a a.den.log2 1 : Int)

/-- The decimal with `n` digits that rounds to a number, the nearest one if there are two. -/
def withDigits? (b : Binary) (n : Nat) : Option Decimal :=
  let a := b.toFraction
  let e := magnitude a - ((n : Int) - 1)
  let below := (a.shift 10 (-e)).floor
  let candidates :=
    [(⟨below, e⟩ : Decimal), ⟨below + 1, e⟩].filter (fun d => b.isNearestTo d.toFraction)
  match candidates with
  | [] => none
  | [d] => some d
  | d :: u :: _ =>
    let down := d.toFraction.distance a
    let up := u.toFraction.distance a
    if down.lt up || (!up.lt down && below % 2 == 0) then some d else some u

/-- Drops zeros at the end of the digits. -/
def strip : Nat → Decimal → Decimal
  | 0, d => d
  | fuel + 1, d =>
    if d.digits % 10 = 0 && d.digits ≠ 0 then strip fuel ⟨d.digits / 10, d.exponent + 1⟩ else d

/-- **The shortest decimal** of a number. Seventeen digits are always enough. -/
def shortest (b : Binary) : Decimal :=
  if b.mantissa = 0 then ⟨0, 0⟩
  else strip 20 (((List.range 17).findSome? (fun i => withDigits? b (i + 1))).getD ⟨0, 0⟩)

/-- Zeros. -/
def zeros (n : Nat) : String :=
  String.ofList (List.replicate n '0')

/-- **The text of a decimal.** From a hundred-thousandth up to sixteen digits before the point it
is written with a point, and else with an exponent. -/
def text (d : Decimal) : String :=
  let ds := Nat.toDigits 10 d.digits
  let point : Int := ds.length + d.exponent
  if 0 ≤ d.exponent && point ≤ 16 then
    String.ofList ds ++ zeros d.exponent.toNat ++ ".0"
  else if 0 < point && point ≤ 16 then
    String.ofList (ds.take point.toNat) ++ "." ++ String.ofList (ds.drop point.toNat)
  else if -5 < point && point ≤ 0 then
    "0." ++ zeros (-point).toNat ++ String.ofList ds
  else
    String.ofList (ds.take 1) ++ (if 1 < ds.length then "." ++ String.ofList (ds.drop 1) else "") ++
      "e" ++ toString (point - 1)

end Decimal
end CallOrigins
