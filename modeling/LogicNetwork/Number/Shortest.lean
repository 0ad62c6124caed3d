/-
  Shortest — the fewest decimal digits that read back as the same double.

  A double `m * 2 ^ e` is what every real number of an interval around it rounds to: half a
  unit of the last place to either side, a quarter below a power of two, the ends included
  when `m` is even. `shortest` looks for the coarsest decimal grid that has a point in that
  interval, one to seventeen digits, and takes the grid point nearest to the double. Only
  the two grid neighbours of the double have to be tried: a grid that meets the interval at
  all has one of them in it.
-/
import LogicNetwork.Number.Binary64

namespace LogicNetwork

/-- The number `digits * 10 ^ exponent`. -/
structure Decimal where
  digits : Nat
  exponent : Int
deriving DecidableEq, Repr, Inhabited

/-- Which of two equally near decimals is taken. -/
inductive Tie
  /-- The one of larger magnitude. -/
  | up
  /-- The one with an even last digit. -/
  | even
deriving DecidableEq, Repr

namespace Decimal

/-- Drops trailing zeros of the digits, at most `fuel` of them, keeping the number. -/
def strip : Nat → Decimal → Decimal
  | 0, d => d
  | fuel + 1, d =>
    if d.digits ≠ 0 ∧ d.digits % 10 = 0 then strip fuel ⟨d.digits / 10, d.exponent + 1⟩ else d

/-- How many decimal digits a natural is written with. -/
def width (n : Nat) : Nat :=
  (Nat.toDigits 10 n).length

end Decimal

/-! ### The interval of a double -/

/-- The reals that round to one double: the double and the two ends as numerators over one
denominator, and whether the ends belong to the interval. -/
structure RoundingInterval where
  value : Nat
  low : Nat
  high : Nat
  denominator : Nat
  closed : Bool
deriving Repr

namespace RoundingInterval

/-- The interval of a nonzero finite double, in units of a quarter of its last place, scaled by
`10 ^ power`. A power of two above the subnormal range has a nearer neighbour below it. -/
def of (d : Dyadic) (power : Int) : RoundingInterval :=
  let below := if d.significand = 4503599627370496 ∧ -1074 < d.exponent then 1 else 2
  let unit := (Dyadic.toRatio ⟨1, d.exponent - 2⟩).timesTen power
  { value := 4 * d.significand * unit.numerator
    low := (4 * d.significand - below) * unit.numerator
    high := (4 * d.significand + 2) * unit.numerator
    denominator := unit.denominator
    closed := d.significand % 2 == 0 }

/-- Whether a whole number lies in the interval. -/
def contains (i : RoundingInterval) (n : Nat) : Bool :=
  let scaled := n * i.denominator
  if i.closed then i.low ≤ scaled && scaled ≤ i.high else i.low < scaled && scaled < i.high

/-- The whole number next to the value that lies in the interval: of two, the nearer. -/
def neighbour (tie : Tie) (i : RoundingInterval) : Option Nat :=
  let down := i.value / i.denominator
  let up := down + 1
  match i.contains down, i.contains up with
  | false, false => none
  | true, false => some down
  | false, true => some up
  | true, true =>
    let toDown := i.value - down * i.denominator
    let toUp := up * i.denominator - i.value
    if toDown < toUp then some down
    else if toUp < toDown then some up
    else match tie with
      | .up => some up
      | .even => some (if down % 2 = 0 then down else up)

end RoundingInterval

/-! ### The search over grids -/

/-- The least `p` with the magnitude below `10 ^ p`. -/
def Dyadic.magnitudeOrder (d : Dyadic) : Int :=
  let r := d.toRatio
  let guess := (Decimal.width r.numerator : Int) - Decimal.width r.denominator
  let scaled := r.timesTen (-guess)
  if scaled.denominator ≤ scaled.numerator then guess + 1 else guess

/-- Tries the grids `10 ^ exponent`, `10 ^ (exponent - 1)`, … in turn, at most `fuel` of them
before the last, on which the nearest point is taken in any case. -/
def Dyadic.firstGrid (tie : Tie) (d : Dyadic) : Nat → Int → Decimal
  | 0, exponent => ⟨((d.toRatio).timesTen (-exponent)).roundHalfEven, exponent⟩
  | fuel + 1, exponent =>
    match (RoundingInterval.of d (-exponent)).neighbour tie with
    | some n => ⟨n, exponent⟩
    | none => firstGrid tie d fuel (exponent - 1)

/-- The decimal with the fewest digits that reads back as the double, of these the nearest;
zero for zero. -/
def Dyadic.shortest (tie : Tie) (d : Dyadic) : Decimal :=
  if d.significand = 0 then ⟨0, 0⟩
  else (d.firstGrid tie 17 (d.magnitudeOrder - 1)).strip 20

end LogicNetwork
